import GpioBridge.Proofs.Core.Stage
import GpioBridge.Proofs.Hub.Roles
import GpioBridge.Proofs.LineTable.Entries

namespace GpioBridge

-- A line table without its holders.
def LineTable.outline {ω : Type} (table : LineTable ω) : LineTable ω :=
  { table with chips := table.chips.map fun exposed => { exposed with held := [] } }

namespace LineTable

variable {ω : Type}

theorem exists_exposed_of_outline {table table' : LineTable ω} (h : table'.outline = table.outline)
    {exposed : Exposed ω} (he : exposed ∈ table'.chips) :
    ∃ other ∈ table.chips, other.handle = exposed.handle ∧
      other.descriptor = exposed.descriptor ∧ other.ops = exposed.ops := by
  have hchips : (table'.chips.map fun exposed => { exposed with held := [] }) =
      table.chips.map fun exposed => { exposed with held := [] } := congrArg LineTable.chips h
  have hmem := List.mem_map_of_mem (f := fun exposed : Exposed ω => { exposed with held := [] }) he
  rw [hchips] at hmem
  obtain ⟨other, hother, heq⟩ := List.mem_map.mp hmem
  injection heq with hh hd ho
  exact ⟨other, hother, hh, hd, ho⟩

theorem nextHandle_of_outline {table table' : LineTable ω} (h : table'.outline = table.outline) :
    table'.nextHandle = table.nextHandle := by
  have hnext := congrArg LineTable.nextHandle h
  exact hnext

theorem handles_of_outline {table table' : LineTable ω} (h : table'.outline = table.outline) :
    table'.chips.map (·.handle) = table.chips.map (·.handle) := by
  have hmap := congrArg (fun table => table.chips.map (·.handle)) h
  simpa [outline, Function.comp_def] using hmap

theorem outline_setHolder (uid : UInt64) (pin : UInt32) (holder : Option String)
    (table : LineTable ω) : (table.setHolder uid pin holder).outline = table.outline := by
  unfold outline setHolder
  simp only [List.map_map]
  congr 1
  refine List.map_congr_left fun exposed _ => ?_
  simp only [Function.comp_apply]
  split <;> rfl

theorem outline_grant (uid : UInt64) (pin : UInt32) (consumer : String) (table : LineTable ω) :
    (table.grant uid pin consumer).2.outline = table.outline := by
  unfold grant
  split
  · rfl
  split
  · rfl
  · rfl
  · exact outline_setHolder uid pin (some consumer) table

end LineTable

namespace Core

structure Alike (core core' : Core) : Prop where
  hub : core'.hub.outline = core.hub.outline
  table : core'.table.outline = core.table.outline

theorem alike_of_steps {g g' : Hub.Stage} {change : Core → Core} {core : Core}
    (h : Steps g change core g') (hg : g.idle = true) :
    Alike core (change core) ∧ g'.idle = true := by
  cases h with
  | hub h =>
    obtain ⟨houtline, hidle⟩ := Hub.Stage.outline_of_steps h hg
    exact ⟨⟨houtline, rfl⟩, hidle⟩
  | look => exact ⟨⟨rfl, rfl⟩, rfl⟩
  | grant uid pin consumer =>
    exact ⟨⟨rfl, LineTable.outline_grant uid pin consumer core.table⟩, rfl⟩
  | giveBack uid pin => exact ⟨⟨rfl, LineTable.outline_setHolder uid pin none core.table⟩, rfl⟩
  | _ => cases hg

end Core

end GpioBridge
