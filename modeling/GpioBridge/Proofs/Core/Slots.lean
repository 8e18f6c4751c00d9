import GpioBridge.Proofs.Core.Outline
import Mathlib

namespace GpioBridge

namespace Hub

-- How many lines each chip has.
def lengths (hub : Hub) : List Nat := hub.chips.map (·.names.length)

theorem lengths_modifyChip {f : Chip → Chip} (h : ∀ chip, (f chip).names.length = chip.names.length)
    (id : ChipId) (hub : Hub) : (hub.modifyChip id f).lengths = hub.lengths :=
  map_modify_of_eq h hub.chips id.index

theorem lengths_of_outline {hub hub' : Hub} (h : hub'.outline = hub.outline) :
    hub'.lengths = hub.lengths := by
  simpa [lengths, outline, Chip.outline, Chip.create, Function.comp_def] using congrArg lengths h

namespace Stage

-- A chip that is about to be made is not too large.
def Fits : Stage → Prop
  | registering r => r.names.length < 2 ^ 32
  | _ => True

theorem lengths_of_enlist {r : Registration} {hub : Hub} (h : r.names.length < 2 ^ 32) :
    ∀ n ∈ (Hub.enlist r hub).2.lengths, n ∈ hub.lengths ∨ n < 2 ^ 32 := by
  have hevict : ∀ id, (hub.evict r.uid id).lengths = hub.lengths :=
    fun id => lengths_modifyChip (by intro chip; rfl) id { hub with registry := _ }
  have henlisted : ∀ hub : Hub, ∀ n ∈ (hub.enlisted r).lengths, n ∈ hub.lengths ∨ n < 2 ^ 32 := by
    intro hub n hn
    rw [lengths, enlisted, List.map_append, List.mem_append] at hn
    refine hn.imp_right fun hnew => ?_
    rw [List.map_singleton, List.mem_singleton] at hnew
    simpa [hnew, Registration.chip, Chip.create] using h
  have he := enlists_enlist r hub
  generalize (Hub.enlist r hub).1 = enlistment at he
  generalize (Hub.enlist r hub).2 = hub' at he ⊢
  cases he with
  | refused | full => exact fun n hn => .inl hn
  | fresh => exact henlisted hub
  | @fullAfterEviction id =>
    rw [hevict id]
    exact fun n hn => .inl hn
  | @replaced id =>
    intro n hn
    have hold := henlisted _ n hn
    rwa [hevict id] at hold

theorem lengths_of_steps {g g' : Stage} {change : Hub → Hub} {hub : Hub}
    (hs : Steps g change hub g') (hg : g.Fits) :
    ∀ n ∈ (change hub).lengths, n ∈ hub.lengths ∨ n < 2 ^ 32 := by
  have hsame : ∀ {hub' : Hub}, hub'.lengths = hub.lengths →
      ∀ n ∈ hub'.lengths, n ∈ hub.lengths ∨ n < 2 ^ 32 :=
    fun h n hn => .inl (h ▸ hn)
  cases hs with
  | enlist => exact lengths_of_enlist hg
  | collect => exact hsame (lengths_of_outline (outline_collect _ _ _))
  | setLevel => exact hsame (lengths_of_outline (outline_setLevel _ _ _ _))
  | setLineDirection => exact hsame (lengths_of_outline (outline_setLineDirection _ _ _ _))
  | deliver => exact hsame (lengths_of_outline (outline_deliver _ _))
  | @unmap uid id =>
    refine hsame ?_
    unfold Hub.unmap
    split <;> rfl
  | @suspend id =>
    have hsus := suspends_suspend id hub
    change ∀ n ∈ (Hub.suspend id hub).2.lengths, _
    generalize (Hub.suspend id hub).1 = suspension at hsus
    generalize (Hub.suspend id hub).2 = hub' at hsus ⊢
    cases hsus with
    | settled => exact hsame rfl
    | unexposed | exposed => exact hsame (lengths_modifyChip (by intro chip; rfl) id hub)
  | confirm | abandon | resume | release | disable | retire =>
    exact hsame (lengths_modifyChip (by intro chip; rfl) _ hub)
  | look | count | read | find | check | drain => exact hsame rfl

-- A call has a chip to make only at the beginning.
theorem fits_of_steps {g g' : Stage} {change : Hub → Hub} {hub : Hub} (hs : Steps g change hub g') :
    g'.Fits := by
  cases hs with
  | @enlist r =>
    cases h : (Hub.enlist r hub).1.outcome <;> simp only [ofEnlistment, h] <;> trivial
  | @find uid => cases hub.find? uid <;> trivial
  | @check id => cases (hub.chip id).registered <;> trivial
  | @suspend id => cases (Hub.suspend id hub).1 <;> trivial
  | drain => cases hub.drain.1 <;> trivial
  | @disable id => cases (Hub.disable id hub).1 <;> trivial
  | @retire id rest => cases rest <;> trivial
  | _ => trivial

theorem fits_ofRegistration (r : Registration) : (ofRegistration r).Fits := by
  unfold ofRegistration
  split
  · next hcheck =>
    rw [Fits, length_names_of_check hcheck]
    exact r.lineCount.toNat_lt
  · trivial

end Stage

theorem fits_stage (operation : Operation) : operation.stage.Fits := by
  cases operation with
  | register r => exact Stage.fits_ofRegistration r
  | _ => trivial

end Hub

namespace Core

open Hub (Stage)

structure Measured (core : Core) : Prop where
  lines : ∀ n ∈ core.hub.lengths, n < 2 ^ 32
  slots : core.table.Slotted

theorem measured_of_steps {g g' : Stage} {change : Core → Core} {core : Core}
    (h : Measured core) (hs : Steps g change core g') (hg : g.Fits) :
    Measured (change core) ∧ g'.Fits := by
  cases hs with
  | hub hs =>
    refine ⟨⟨fun n hn => ?_, h.slots⟩, Stage.fits_of_steps hs⟩
    exact (Stage.lengths_of_steps hs hg n hn).elim (h.lines n) fun hlt => hlt
  | look => exact ⟨h, trivial⟩
  | grant uid pin consumer =>
    exact ⟨⟨h.lines, LineTable.slotted_grant h.slots uid pin consumer⟩, trivial⟩
  | giveBack uid pin => exact ⟨⟨h.lines, LineTable.slotted_setHolder h.slots uid pin none⟩, trivial⟩
  | @expose r id descriptor =>
    refine ⟨⟨h.lines, LineTable.slotted_add h.slots descriptor id⟩, ?_⟩
    cases (core.table.add descriptor id).1 <;> trivial
  | isHeld => exact ⟨h, trivial⟩
  | withdraw | conceal =>
    exact ⟨⟨h.lines, LineTable.slotted_remove h.slots⟩, trivial⟩

variable {τ : Type} {answers : Message → τ → Except TransportFault Unit → τ → Prop}
  {waits : Stage → Stage → Prop} {core core' : Core} {t t' : τ}
  {calls calls' : List (Operation × Stage)}

theorem measured_of_advances (h : Measured core) (hfits : ∀ call ∈ calls, call.2.Fits)
    (hstep : plan.Advances answers Operation.stage waits calls core t calls' core' t') :
    Measured core' ∧ ∀ call ∈ calls', call.2.Fits := by
  cases hstep with
  | call operation =>
    refine ⟨h, fun call hcall => ?_⟩
    rcases List.mem_append.mp hcall with hcall | hcall
    · exact hfits call hcall
    · obtain rfl := List.mem_singleton.mp hcall
      cases operation with
      | hub operation => exact Hub.fits_stage operation
      | request | release => trivial
  | note => exact ⟨h, hfits⟩
  | @move before after i g g' _ _ _ _ hgoes _ =>
    have hothers : ∀ call ∈ before ++ after, call.2.Fits := by
      intro call hcall
      refine hfits call (List.perm_middle.mem_iff.mpr ?_)
      exact List.mem_cons_of_mem _ hcall
    have hmoved : Measured core' ∧ g'.Fits := by
      have hg : g.Fits := hfits (i, g) (by simp)
      cases hgoes with
      | step hs => exact measured_of_steps h hs hg
      | ask ha _ =>
        cases ha with
        | send => exact ⟨h, hg⟩
    refine ⟨hmoved.1, fun call hcall => ?_⟩
    rcases List.mem_cons.mp ((List.perm_middle.mem_iff).mp hcall) with rfl | hcall
    · exact hmoved.2
    · exact hothers call hcall

variable {processWaits : CoreProcess Outcome → CoreProcess Outcome → Prop}
  {limit : Option Nat} {patience : UInt64} {around : τ} {last : Calls τ}

theorem measured_blank : Measured { hub := { limit, patience } } where
  lines := by
    intro n hn
    change n ∈ [] at hn
    cases hn
  slots := by
    intro exposed he
    change exposed ∈ [] at he
    cases he

theorem measured_of_run
    (hrun : Relation.ReflTransGen (Pool.Step (rules answers processWaits))
      ⟨{ hub := { limit, patience } }, around, []⟩ last) : Measured last.state := by
  have hstages : ∃ stages, plan.Stands Ended last.calls stages ∧ Measured last.state ∧
      ∀ stage ∈ stages, stage.2.Fits := by
    induction hrun with
    | refl => exact ⟨[], .nil, measured_blank, fun _ hcall => absurd hcall List.not_mem_nil⟩
    | tail _ hstep ih =>
      obtain ⟨stages, hstands, hmeasured, hfits⟩ := ih
      obtain ⟨stages', hstands', hadvances⟩ := Plan.advances_of_step (w := fun _ _ => False)
        follows_process (fun _ _ h _ _ => h.elim) hstep hstands
      exact ⟨stages', hstands', measured_of_advances hmeasured hfits hadvances⟩
  obtain ⟨stages, -, hmeasured, -⟩ := hstages
  exact hmeasured

end Core

end GpioBridge
