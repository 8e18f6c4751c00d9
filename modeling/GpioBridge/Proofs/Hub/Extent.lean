import GpioBridge.Proofs.Hub.Cells
import GpioBridge.Proofs.Hub.Roles
import GpioBridge.Proofs.Process.Leads

namespace GpioBridge

-- A pin is in range for everything about the chip if it is below this number, and for nothing if it
-- is not. The names, the cells and what is remembered are looked up each in a list of its own.
structure Chip.Bounded (chip : Chip) (n : UInt32) : Prop where
  names : chip.names.length = n.toNat
  cells : chip.cells.length = n.toNat
  memories : chip.memories.length = n.toNat
  lineCount : chip.lineCount = n
  announced : chip.descriptor.lineCount = n
  noSuchLine : ∀ pin, chip.noSuchLine pin = .noSuchLine pin n
  checkPin : ∀ pin, chip.checkPin pin = if pin < n then .ok () else .error (.noSuchLine pin n)
  cell : ∀ pin, (∃ cell, chip.cell? pin = some cell) ↔ pin < n
  memory : ∀ pin, (∃ memory, chip.memory? pin = some memory) ↔ pin < n
  -- Where the lists are put together no line is left out.
  line : ∀ pin, (∃ line, chip.line? pin = some line ∧ chip.cell? pin = some line.cell ∧
    chip.memory? pin = some line.memory) ↔ pin < n
  -- A change of what is remembered of a line finds it.
  change : ∀ pin f, (∃ memory, chip.memory? pin = some memory ∧
    (chip.modifyMemory pin f).memory? pin = some (f memory)) ↔ pin < n
  unchanged : ∀ pin f, ¬pin < n → chip.modifyMemory pin f = chip

theorem Chip.bounded_of_length {chip : Chip} {n : UInt32} (h : chip.names.length = n.toNat) :
    chip.Bounded n := by
  have hcount : chip.lineCount = n := by rw [lineCount, h, UInt32.ofNat_toNat]
  have hrange : ∀ pin : UInt32, pin.toNat < chip.names.length ↔ pin < n := fun pin => by
    rw [h, UInt32.lt_iff_toNat_lt]
  have hmemory : ∀ pin, (∃ memory, chip.memory? pin = some memory) ↔ pin < n := fun pin =>
    exists_memory_iff.trans (hrange pin)
  constructor
  case names => exact h
  case cells => exact chip.cells_length.trans h
  case memories => exact chip.memories_length.trans h
  case lineCount => exact hcount
  case announced => exact hcount
  case noSuchLine => exact fun pin => congrArg (Fault.noSuchLine pin) hcount
  case checkPin =>
    intro pin
    rw [checkPin, noSuchLine, hcount]
  case cell => exact fun pin => exists_cell_iff.trans (hrange pin)
  case memory => exact hmemory
  case line =>
    intro pin
    rw [← hrange, ← exists_line_iff]
    constructor
    · rintro ⟨line, hline, -⟩
      exact ⟨line, hline⟩
    · rintro ⟨line, hline⟩
      exact ⟨line, hline, by rw [cell?_eq, hline, Option.map_some],
        by rw [memory?_eq, hline, Option.map_some]⟩
  case change =>
    intro pin f
    rw [← hmemory]
    constructor
    · rintro ⟨memory, hsome, -⟩
      exact ⟨memory, hsome⟩
    · rintro ⟨memory, hsome⟩
      exact ⟨memory, hsome, by rw [memory?_modifyMemory, if_pos rfl, hsome, Option.map_some]⟩
  case unchanged =>
    intro pin f hpin
    rw [← hrange, Nat.not_lt, ← chip.memories_length] at hpin
    simp only [modifyMemory, List.modify_eq_self hpin]

namespace Hub

-- The same chips, shown as before.
structure SameChips (hub hub' : Hub) : Prop where
  has : ∀ id, hub'.Has id ↔ hub.Has id
  descriptor : ∀ id, (hub'.chip id).descriptor = (hub.chip id).descriptor

-- No chip is lost, and those there are are shown as before.
structure Extends (hub hub' : Hub) : Prop where
  has : ∀ {id}, hub.Has id → hub'.Has id
  descriptor : ∀ {id}, hub.Has id → (hub'.chip id).descriptor = (hub.chip id).descriptor

-- The chip is what this registration asked for.
structure Made (r : Registration) (hub : Hub) (id : ChipId) : Prop where
  has : hub.Has id
  valid : r.check = .ok ()
  descriptor : (hub.chip id).descriptor = r.chip.descriptor

section Chips

variable {hub mid hub' : Hub} {id : ChipId} {r : Registration}

theorem sameChips_refl (hub : Hub) : hub.SameChips hub := ⟨fun _ => Iff.rfl, fun _ => rfl⟩

theorem sameChips_of_outline (h : hub'.outline = hub.outline) : hub.SameChips hub' :=
  ⟨has_of_outline h, descriptor_of_outline h⟩

theorem sameChips_modifyChip {f : Chip → Chip} (h : ∀ chip, (f chip).descriptor = chip.descriptor)
    (id : ChipId) (hub : Hub) : hub.SameChips (hub.modifyChip id f) :=
  ⟨fun _ => has_modifyChip, fun other => field_modifyChip_of_eq h id other hub⟩

theorem sameChips_evict (uid : UInt64) (id : ChipId) (hub : Hub) :
    hub.SameChips (hub.evict uid id) where
  has _ := has_modifyChip
  descriptor other := field_modifyChip_of_eq (g := Chip.descriptor) (by intro chip; rfl) id other
    { hub with registry := _ }

theorem SameChips.extends (h : hub.SameChips hub') : hub.Extends hub' :=
  ⟨(h.has _).mpr, fun _ => h.descriptor _⟩

theorem Extends.trans (h : hub.Extends mid) (h' : mid.Extends hub') : hub.Extends hub' :=
  ⟨fun hhas => h'.has (h.has hhas),
    fun hhas => (h'.descriptor (h.has hhas)).trans (h.descriptor hhas)⟩

theorem extends_enlisted (r : Registration) (hub : Hub) : hub.Extends (hub.enlisted r) :=
  ⟨fun hhas => has_enlisted.mpr (.inl hhas), fun hhas => by rw [chip_enlisted_of_has hhas]⟩

theorem Made.extends (h : Made r hub id) (he : hub.Extends hub') : Made r hub' id :=
  ⟨he.has h.has, h.valid, (he.descriptor h.has).trans h.descriptor⟩

-- Nothing is cut off where a number of names becomes a number of lines.
theorem Made.bounded (h : Made r hub id) : (hub.chip id).Bounded r.lineCount := by
  have hnames : (hub.chip id).names = r.names := congrArg Descriptor.names h.descriptor
  refine Chip.bounded_of_length ?_
  rw [hnames, length_names_of_check h.valid]

-- Enlisting a chip adds that chip, or none and then it fails.
theorem enlist_adds (r : Registration) (hub : Hub) :
    (hub.SameChips (enlist r hub).2 ∧ ∃ fault, (enlist r hub).1.outcome = .error fault) ∨
    ∃ base : Hub, hub.SameChips base ∧ (enlist r hub).2 = base.enlisted r ∧
      (enlist r hub).1.outcome = .ok base.nextId := by
  have he := enlists_enlist r hub
  generalize (enlist r hub).1 = enlistment at he ⊢
  generalize (enlist r hub).2 = hub' at he ⊢
  cases he with
  | refused | full => exact .inl ⟨sameChips_refl hub, _, rfl⟩
  | fresh => exact .inr ⟨hub, sameChips_refl hub, rfl, rfl⟩
  | fullAfterEviction => exact .inl ⟨sameChips_evict _ _ hub, _, rfl⟩
  | @replaced old =>
    exact .inr ⟨hub.evict r.uid old, sameChips_evict _ _ hub, rfl, by rw [nextId_evict]⟩

theorem extends_enlist (r : Registration) (hub : Hub) : hub.Extends (enlist r hub).2 := by
  rcases enlist_adds r hub with ⟨hsame, -⟩ | ⟨base, hsame, hadded, -⟩
  · exact hsame.extends
  · rw [hadded]
    exact hsame.extends.trans (extends_enlisted r base)

theorem made_enlisted (h : r.check = .ok ()) (hub : Hub) : Made r (hub.enlisted r) hub.nextId :=
  ⟨has_enlisted.mpr (.inr rfl), h, by rw [chip_enlisted_nextId]⟩

-- The chip an enlistment speaks of is the one that was asked for, and no other chip is new.
theorem made_of_enlist (h : r.check = .ok ()) (hub : Hub) :
    (∀ id, (enlist r hub).1.outcome = .ok id → Made r (enlist r hub).2 id) ∧
      ∀ id, (enlist r hub).2.Has id → hub.Has id ∨ Made r (enlist r hub).2 id := by
  rcases enlist_adds r hub with ⟨hsame, fault, hfault⟩ | ⟨base, hsame, hadded, hok⟩
  · rw [hfault]
    refine ⟨?_, fun id hhas => .inl ((hsame.has id).mp hhas)⟩
    rintro _ ⟨⟩
  · have hmade := made_enlisted h base
    rw [hadded, hok]
    refine ⟨fun id hid => by cases hid; exact hmade, fun id hhas => ?_⟩
    rcases has_enlisted.mp hhas with hhas | rfl
    · exact .inl ((hsame.has id).mp hhas)
    · exact .inr hmade

-- A registration does not return a chip it has not made.
theorem leads_register (r : Registration) (id : ChipId) :
    (register r).Leads (fun _ => True) (fun hub => Made r hub id) fun result => result ≠ .ok id := by
  simp only [register, Process.bind_eq, Process.pure_eq, Process.get_bind, Process.update_bind,
    Process.log_bind, Process.modify_bind, HubProcess.expose_bind]
  have hfailed : ∀ fault : Fault, (.error fault : Except Fault ChipId) ≠ .ok id := by
    rintro _ ⟨⟩
  cases hcheck : r.check with
  | error fault => exact hfailed fault
  | ok =>
    intro hub _
    by_cases hid : (enlist r hub).1.outcome = .ok id
    · exact .inl ((made_of_enlist hcheck hub).1 id hid)
    refine .inr (Process.Leads.logged ?_ _)
    cases houtcome : (enlist r hub).1.outcome with
    | error fault => exact hfailed fault
    | ok other =>
      rw [houtcome] at hid
      refine Process.leads_step fun hub _ (answer : Except Fault Handle) => ?_
      cases answer with
      | ok handle => exact fun _ _ => .inr hid
      | error fault => exact fun _ _ => .inr fun _ _ => .inr (hfailed fault)

-- Whatever is not an enlistment leaves all chips what they are.
theorem sameChips_of_steps {g g' : Stage} {change : Hub → Hub} (hs : Stage.Steps g change hub g')
    (hg : ∀ r, g ≠ .registering r) : hub.SameChips (change hub) := by
  cases hs with
  | enlist => exact absurd rfl (hg _)
  | collect => exact sameChips_of_outline (outline_collect _ _ _)
  | setLevel => exact sameChips_of_outline (outline_setLevel _ _ _ _)
  | setLineDirection => exact sameChips_of_outline (outline_setLineDirection _ _ _ _)
  | deliver => exact sameChips_of_outline (outline_deliver _ _)
  | @unmap uid id =>
    unfold Hub.unmap
    split <;> exact ⟨fun _ => Iff.rfl, fun _ => rfl⟩
  | @suspend id =>
    have hsus := suspends_suspend id hub
    change hub.SameChips (Hub.suspend id hub).2
    generalize (Hub.suspend id hub).1 = suspension at hsus
    generalize (Hub.suspend id hub).2 = hub' at hsus ⊢
    cases hsus with
    | settled => exact sameChips_refl hub
    | unexposed | exposed => exact sameChips_modifyChip (by intro chip; rfl) id hub
  | confirm | abandon | resume | release | disable | retire =>
    exact sameChips_modifyChip (by intro chip; rfl) _ hub
  | look | count | read | find | check | drain => exact ⟨fun _ => Iff.rfl, fun _ => rfl⟩

end Chips

end Hub

end GpioBridge
