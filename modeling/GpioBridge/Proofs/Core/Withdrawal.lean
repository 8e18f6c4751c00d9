import GpioBridge.Proofs.Core.Consistency
import GpioBridge.Proofs.Core.Slots

namespace GpioBridge.Core

variable {τ : Type}

-- What a consumer does with a line of a chip.
inductive LineCall where
  | request (pin : UInt32) (consumer : String)
  | release (pin : UInt32)

namespace LineCall

def operation (uid : UInt64) : LineCall → Operation
  | request pin consumer => .request uid pin consumer
  | release pin => .release uid pin

-- Whether a line is held after a call.
def leaves (pin : UInt32) (held : Bool) : LineCall → Bool
  | request other _ => held || other == pin
  | release other => held && other != pin

-- Who holds the lines of a chip after a call.
def apply (held : List (Option String)) : LineCall → List (Option String)
  | request pin consumer =>
    match held[pin.toNat]? with
    | some none => held.set pin.toNat (some consumer)
    | _ => held
  | release pin => held.set pin.toNat none

end LineCall

-- Whether a line is held after some calls.
def heldAfter (pin : UInt32) (held : Bool) (calls : List LineCall) : Bool :=
  calls.foldl (LineCall.leaves pin) held

-- The calls from one point to another.
def between (calls : Nat → List LineCall) (first last : Nat) : List LineCall :=
  (List.range' first (last - first)).flatMap calls

-- Runs calls on lines of a chip to their ends, one after the other. While a withdrawal has the lock
-- of the chip, a release that still has to free its line waits; so there a release stands for the
-- end of one that freed the line before and has only to give it up.
def visit (transport : Process.Surroundings Core τ Message fun _ => Except TransportFault Unit)
    (uid : UInt64) (calls : List LineCall) (core : Core) (t : τ) : Core × τ :=
  calls.foldl (fun at' call => ((call.operation uid).process.run transport at'.1 at'.2).2) (core, t)

-- What is around a hub while it withdraws a chip.
structure Scene (τ : Type) where
  table : LineTable ChipId
  around : τ
  -- How many times the table has been asked for something.
  asked : Nat := 0
  -- The table as it was when a chip was taken away.
  removed : Option (LineTable ChipId) := none

-- A line table that consumers use meanwhile: the calls of a number come right before it is asked
-- for the time of that number.
def shared (transport : Process.Surroundings Core τ Message fun _ => Except TransportFault Unit)
    (uid : UInt64) (calls : Nat → List LineCall) :
    Process.Surroundings Hub (Scene τ) Demand Demand.Answer where
  answer demand hub scene :=
    let (core, around) := visit transport uid (calls scene.asked) ⟨hub, scene.table⟩ scene.around
    let scene := { scene with table := core.table, around, asked := scene.asked + 1 }
    match demand with
    | .send m =>
      let (answer, core, around) := transport.answer m core around
      (answer, core.hub, { scene with table := core.table, around })
    | .expose descriptor id =>
      ((core.table.add descriptor id).1, core.hub,
        { scene with table := (core.table.add descriptor id).2 })
    | .conceal handle =>
      ((), core.hub, { scene with table := (core.table.remove handle).2, removed := some core.table })
    | .isHeld handle pin => (core.table.isHeld handle pin, core.hub, scene)
  hear event scene := { scene with around := transport.hear event scene.around }

-- The chip of a uid is exposed once, under this handle, and this is who holds its lines.
def Shows (table : LineTable ChipId) (uid : UInt64) (id : ChipId) (handle : Handle)
    (held : List (Option String)) : Prop :=
  ∃ exposed, table.find? uid = some exposed ∧ table.exposure? handle = some exposed ∧
    exposed.ops = id ∧ exposed.held = held

section Calls

variable {core : Core} {table : LineTable ChipId} {uid : UInt64} {made : ChipId} {handle : Handle}
  {held : List (Option String)}

theorem Shows.isHeld (h : Shows table uid made handle held) (pin : UInt32) :
    table.isHeld handle pin = ((held[pin.toNat]?).join).isSome := by
  obtain ⟨exposed, -, hexposed, -, rfl⟩ := h
  simp only [LineTable.isHeld, hexposed]
  rcases exposed.held[pin.toNat]? with _ | _ | consumer <;> rfl

theorem Shows.setHolder (h : Shows table uid made handle held) (pin : UInt32)
    (holder : Option String) :
    Shows (table.setHolder uid pin holder) uid made handle (held.set pin.toNat holder) := by
  obtain ⟨exposed, hfind, hexposed, rfl, rfl⟩ := h
  have huid : exposed.descriptor.uid = uid := by
    simpa using List.find?_some hfind
  -- Changing holders changes neither uids nor handles.
  have hkept : ∀ (p : Exposed ChipId → Bool),
      (∀ exposed held, p { exposed with held } = p exposed) → table.chips.find? p = some exposed →
        (table.setHolder uid pin holder).chips.find? p =
          some { exposed with held := exposed.held.set pin.toNat holder } := by
    intro p hp hfound
    unfold LineTable.setHolder
    rw [List.find?_map]
    have hsame : (p ∘ fun chip : Exposed ChipId => if chip.descriptor.uid = uid then
        { chip with held := chip.held.set pin.toNat holder } else chip) = p := by
      funext chip
      simp only [Function.comp_apply]
      split
      · exact hp chip _
      · rfl
    rw [hsame, hfound, Option.map_some, if_pos huid]
  exact ⟨_, hkept _ (fun _ _ => rfl) hfind, hkept _ (fun _ _ => rfl) hexposed, rfl, rfl⟩

theorem Shows.grant (h : Shows table uid made handle held) (pin : UInt32) (consumer : String) :
    Shows (table.grant uid pin consumer).2 uid made handle
      ((LineCall.request pin consumer).apply held) := by
  have hset := h.setHolder pin (some consumer)
  obtain ⟨exposed, hfind, -, -, rfl⟩ := id h
  rcases hline : exposed.held[pin.toNat]? with _ | _ | owner <;>
    simp only [LineTable.grant, LineCall.apply, hfind, hline]
  · exact h
  · exact hset
  · exact h

theorem Shows.releasable (h : Shows table uid made handle held) (pin : UInt32) :
    (∃ fault, table.releasable uid pin = .error fault ∧ held.set pin.toNat none = held) ∨
      table.releasable uid pin = .ok made := by
  obtain ⟨exposed, hfind, -, rfl, rfl⟩ := h
  rcases hline : exposed.held[pin.toNat]? with _ | _ | owner <;>
    simp only [LineTable.releasable, hfind, hline]
  · exact .inl ⟨_, rfl, List.set_eq_of_length_le (List.getElem?_eq_none_iff.mp hline)⟩
  · obtain ⟨hpin, hget⟩ := List.getElem?_eq_some_iff.mp hline
    refine .inl ⟨_, rfl, ?_⟩
    rw [← hget, List.set_getElem_self]
  · exact .inr trivial

-- A call on a line of a chip that is not ready changes nothing but who holds the line.
theorem run_lineCall
    (transport : Process.Surroundings Core τ Message fun _ => Except TransportFault Unit)
    (call : LineCall) (t : τ) (h : Shows core.table uid made handle held)
    (hready : (core.hub.chip made).initialized = false) :
    ∃ table t', ((call.operation uid).process.run transport core t).2 =
      ({ core with table }, t') ∧ Shows table uid made handle (call.apply held) := by
  cases call with
  | request pin consumer =>
    refine ⟨(core.table.grant uid pin consumer).2, ?_⟩
    simp only [LineCall.operation, Operation.process, onTable, LineTable.request, Process.bind_eq,
      Process.pure_eq, Process.update_bind, Process.log_bind, Process.serve, Process.run_bind,
      Process.run]
    cases (core.table.grant uid pin consumer).1 <;> exact ⟨_, rfl, h.grant pin consumer⟩
  | release pin =>
    simp only [LineCall.operation, Operation.process, onTable, LineTable.release, Process.bind_eq,
      Process.pure_eq, Process.get_bind, Process.log_bind, Process.modify_bind, Process.ask_bind,
      Process.done_bind, Process.serve, Process.run_bind, Process.run]
    rcases h.releasable pin with ⟨fault, hrel, hset⟩ | hrel <;> simp only [id_eq, hrel]
    · refine ⟨core.table, t, rfl, ?_⟩
      rw [LineCall.apply, hset]
      exact h
    · have hrefused : (onHub (Hub.free made pin)).run transport core t =
          (.error .notReady, core, t) := by
        have hfree : core.hub.ready made pin = .error .notReady := by simp [Hub.ready, hready]
        simp [onHub, Hub.free, Hub.setDirection, Process.serve, Process.run, hfree]
      simp only [Process.serve, Process.run_bind, Process.run, hrefused]
      exact ⟨core.table.setHolder uid pin none, _, rfl, h.setHolder pin none⟩

theorem visit_shows
    (transport : Process.Surroundings Core τ Message fun _ => Except TransportFault Unit)
    (calls : List LineCall) (t : τ) (h : Shows core.table uid made handle held)
    (hready : (core.hub.chip made).initialized = false) :
    ∃ table t', visit transport uid calls core t = ({ core with table }, t') ∧
      Shows table uid made handle (calls.foldl LineCall.apply held) := by
  induction calls generalizing core t held with
  | nil => exact ⟨core.table, t, rfl, h⟩
  | cons call rest ih =>
    obtain ⟨table, t', hrun, hshows⟩ := run_lineCall transport call t h hready
    have hnext : visit transport uid (call :: rest) core t =
        visit transport uid rest { core with table } t' := by
      simp [visit, hrun]
    rw [hnext]
    exact ih t' hshows hready

end Calls

section Lines

variable {held : List (Option String)} {pin : UInt32}

-- Whether somebody holds the line.
def isTaken (held : List (Option String)) (pin : UInt32) : Bool := ((held[pin.toNat]?).join).isSome

@[simp]
theorem length_apply (held : List (Option String)) (call : LineCall) :
    (call.apply held).length = held.length := by
  cases call with
  | request pin consumer =>
    unfold LineCall.apply
    simp only
    split
    · exact List.length_set
    · rfl
  | release pin => exact List.length_set

theorem isTaken_set (hpin : pin.toNat < held.length) (other : UInt32) (holder : Option String) :
    isTaken (held.set other.toNat holder) pin =
      if other = pin then holder.isSome else isTaken held pin := by
  unfold isTaken
  split
  · next heq =>
    rw [heq, List.getElem?_set_self hpin]
    rfl
  · next hne =>
    rw [List.getElem?_set_ne fun heq => hne (UInt32.toNat_inj.mp heq)]

theorem isTaken_apply (hpin : pin.toNat < held.length) (call : LineCall) :
    isTaken (call.apply held) pin = call.leaves pin (isTaken held pin) := by
  cases call with
  | request other consumer =>
    rcases hline : held[other.toNat]? with _ | _ | owner <;>
      simp only [LineCall.apply, LineCall.leaves, hline]
    · -- The line asked for is not on the chip.
      have hne : other ≠ pin := by
        rintro rfl
        rw [List.getElem?_eq_none_iff] at hline
        omega
      simp [hne]
    · rw [isTaken_set hpin]
      by_cases heq : other = pin <;> simp [heq]
    · by_cases heq : other = pin
      · subst heq
        simp [isTaken, hline]
      · simp [heq]
  | release other =>
    simp only [LineCall.apply, LineCall.leaves]
    rw [isTaken_set hpin]
    by_cases heq : other = pin <;> simp [heq]

@[simp]
theorem length_foldl_apply (calls : List LineCall) (held : List (Option String)) :
    (calls.foldl LineCall.apply held).length = held.length := by
  induction calls generalizing held with
  | nil => rfl
  | cons call rest ih => rw [List.foldl_cons, ih, length_apply]

theorem isTaken_foldl (hpin : pin.toNat < held.length) (calls : List LineCall) :
    isTaken (calls.foldl LineCall.apply held) pin = heldAfter pin (isTaken held pin) calls := by
  induction calls generalizing held with
  | nil => rfl
  | cons call rest ih =>
    rw [List.foldl_cons, ih (by rwa [length_apply]), isTaken_apply hpin]
    rfl

theorem heldAfter_append (pin : UInt32) (taken : Bool) (calls rest : List LineCall) :
    heldAfter pin taken (calls ++ rest) = heldAfter pin (heldAfter pin taken calls) rest :=
  List.foldl_append

theorem between_append (calls : Nat → List LineCall) {first middle last : Nat}
    (hfirst : first ≤ middle) (hlast : middle ≤ last) :
    between calls first last = between calls first middle ++ between calls middle last := by
  unfold between
  rw [← List.flatMap_append]
  congr 1
  have hlength : last - first = (middle - first) + (last - middle) := by omega
  have hmiddle : middle = first + (middle - first) := by omega
  rw [hlength, List.range'_append_1.symm, ← hmiddle]

theorem between_succ (calls : Nat → List LineCall) (first : Nat) :
    between calls first (first + 1) = calls first := by
  simp [between]

end Lines

section Withdraw

variable {uid : UInt64} {made : ChipId} {handle : Handle} {held : List (Option String)}
  {calls : Nat → List LineCall} {hub : Hub} {scene : Scene τ}

-- Who holds the lines when the table is asked for the time of a number.
def heldAt (held : List (Option String)) (calls : Nat → List LineCall) (time : Nat) :
    List (Option String) :=
  (between calls 0 (time + 1)).foldl LineCall.apply held

theorem isTaken_heldAt {pin : UInt32} (hpin : pin.toNat < held.length) (time : Nat) :
    isTaken (heldAt held calls time) pin =
      heldAfter pin (isTaken held pin) (between calls 0 (time + 1)) :=
  isTaken_foldl hpin _

-- What becomes of a line that is free at one time is up to the calls after it.
theorem isTaken_heldAt_of_free {pin : UInt32} (hpin : pin.toNat < held.length) {time later : Nat}
    (hle : time ≤ later) (hfree : isTaken (heldAt held calls time) pin = false) :
    isTaken (heldAt held calls later) pin =
      heldAfter pin false (between calls (time + 1) (later + 1)) := by
  rw [isTaken_heldAt hpin] at hfree ⊢
  rw [between_append calls (Nat.zero_le (time + 1)) (Nat.succ_le_succ hle), heldAfter_append, hfree]

-- The table has been asked some times, and the lines are held as the calls left them.
structure Asked (uid : UInt64) (made : ChipId) (handle : Handle) (held : List (Option String))
    (calls : Nat → List LineCall) (time : Nat) (scene : Scene τ) : Prop where
  asked : scene.asked = time
  shows : Shows scene.table uid made handle ((between calls 0 time).foldl LineCall.apply held)

-- The scene when the table is asked the next time.
theorem Asked.visit
    (transport : Process.Surroundings Core τ Message fun _ => Except TransportFault Unit)
    {time : Nat} (h : Asked uid made handle held calls time scene)
    (hready : (hub.chip made).initialized = false) :
    ∃ table around, visit transport uid (calls time) ⟨hub, scene.table⟩ scene.around =
      (⟨hub, table⟩, around) ∧ Shows table uid made handle (heldAt held calls time) := by
  have hshows : Shows (⟨hub, scene.table⟩ : Core).table uid made handle
      ((between calls 0 time).foldl LineCall.apply held) := h.shows
  rw [heldAt, between_append calls (Nat.zero_le time) (Nat.le_succ _), between_succ,
    List.foldl_append]
  exact visit_shows transport (calls time) scene.around hshows hready

theorem Asked.answer_isHeld
    (transport : Process.Surroundings Core τ Message fun _ => Except TransportFault Unit)
    {time : Nat} (h : Asked uid made handle held calls time scene)
    (hready : (hub.chip made).initialized = false) (pin : UInt32) :
    ∃ scene', (shared transport uid calls).answer (.isHeld handle pin) hub scene =
        ((isTaken (heldAt held calls time) pin : Bool), hub, scene') ∧
      Asked uid made handle held calls (time + 1) scene' := by
  obtain ⟨table, around, hvisit, hshows⟩ := h.visit transport hready
  have hline : table.isHeld handle pin = isTaken (heldAt held calls time) pin := hshows.isHeld pin
  rw [← h.asked] at hvisit
  simp only [shared, hvisit, hline]
  exact ⟨_, rfl, congrArg (· + 1) h.asked, hshows⟩

theorem Asked.answer_conceal
    (transport : Process.Surroundings Core τ Message fun _ => Except TransportFault Unit)
    {time : Nat} (h : Asked uid made handle held calls time scene)
    (hready : (hub.chip made).initialized = false) :
    ∃ table scene', (shared transport uid calls).answer (.conceal handle) hub scene =
        (((), hub, scene') : Unit × Hub × Scene τ) ∧ scene'.removed = some table ∧
      Shows table uid made handle (heldAt held calls time) := by
  obtain ⟨table, around, hvisit, hshows⟩ := h.visit transport hready
  rw [← h.asked] at hvisit
  simp only [shared, hvisit]
  exact ⟨table, _, rfl, rfl, hshows⟩

-- The lines are asked for from a pin on, and the first that is held when its turn comes is found.
theorem run_firstHeld
    (transport : Process.Surroundings Core τ Message fun _ => Except TransportFault Unit)
    (count : Nat) {time : Nat} (h : Asked uid made handle held calls time scene)
    (hready : (hub.chip made).initialized = false) (hbound : time + count < 2 ^ 32) :
    ∃ found scene', (Hub.firstHeld handle ((List.range' time count).map UInt32.ofNat)).run
        (shared transport uid calls) hub scene = (found, hub, scene') ∧
      ((∃ pin : UInt32, found = some pin ∧ time ≤ pin.toNat ∧ pin.toNat < time + count ∧
          isTaken (heldAt held calls pin.toNat) pin = true ∧
          Shows scene'.table uid made handle (heldAt held calls pin.toNat)) ∨
        (found = none ∧ Asked uid made handle held calls (time + count) scene' ∧
          ∀ pin : UInt32, time ≤ pin.toNat → pin.toNat < time + count →
            isTaken (heldAt held calls pin.toNat) pin = false)) := by
  induction count generalizing time scene with
  | zero =>
    refine ⟨none, scene, rfl, .inr ⟨rfl, h, fun pin hlow hhigh => ?_⟩⟩
    omega
  | succ count ih =>
    have hpin : (UInt32.ofNat time).toNat = time := by
      rw [UInt32.toNat_ofNat']
      omega
    obtain ⟨next, hanswer, hnext⟩ := h.answer_isHeld transport hready (UInt32.ofNat time)
    have hrun : (Hub.firstHeld handle ((List.range' time (count + 1)).map UInt32.ofNat)).run
        (shared transport uid calls) hub scene =
        if isTaken (heldAt held calls time) (UInt32.ofNat time) then
          (some (UInt32.ofNat time), hub, next)
        else (Hub.firstHeld handle ((List.range' (time + 1) count).map UInt32.ofNat)).run
          (shared transport uid calls) hub next := by
      simp only [List.range'_succ, List.map_cons, Hub.firstHeld, Process.bind_eq, Process.pure_eq,
        HubProcess.isHeld_bind, Process.run, hanswer]
      split <;> rfl
    rw [hrun]
    by_cases htaken : isTaken (heldAt held calls time) (UInt32.ofNat time) = true
    · rw [if_pos htaken]
      refine ⟨_, next, rfl, .inl ⟨_, rfl, ?_, ?_, ?_, ?_⟩⟩ <;> rw [hpin]
      · omega
      · exact htaken
      · exact hnext.shows
    · rw [if_neg htaken]
      obtain ⟨found, last, hrest, hcases⟩ := ih hnext (by omega)
      refine ⟨found, last, hrest, ?_⟩
      rcases hcases with ⟨pin, hfound, hlow, hhigh, hpintaken, hshows⟩ | ⟨hnone, hlast, hfree⟩
      · exact .inl ⟨pin, hfound, by omega, by omega, hpintaken, hshows⟩
      · refine .inr ⟨hnone, ?_, fun pin hlow hhigh => ?_⟩
        · rwa [show time + (count + 1) = time + 1 + count by omega]
        · by_cases heq : pin.toNat = time
          · have hsame : pin = UInt32.ofNat time := by
              rw [← heq, UInt32.ofNat_toNat]
            rw [heq, hsame]
            simpa using htaken
          · exact hfree pin (by omega) (by omega)

-- The withdrawal finds a line that is held when its turn comes, or takes the chip away.
theorem run_withdraw
    (transport : Process.Surroundings Core τ Message fun _ => Except TransportFault Unit)
    (calls : Nat → List LineCall) (t : τ) {table : LineTable ChipId}
    (hf : hub.find? uid = some made) (hr : (hub.chip made).registered = true)
    (hh : (hub.chip made).handle = some handle) (hi : (hub.chip made).initialized = true)
    (hshows : Shows table uid made handle held) :
    ∃ result hub' scene', (Hub.withdraw uid).run (shared transport uid calls) hub
        { table, around := t } = (result, hub', scene') ∧
      (((∃ pin < (hub.chip made).lineCount, isTaken (heldAt held calls pin.toNat) pin = true) ∧
          result = .error .busy ∧ hub' = hub ∧ (scene'.table.exposure? handle).isSome = true) ∨
        ((∀ pin < (hub.chip made).lineCount, isTaken (heldAt held calls pin.toNat) pin = false) ∧
          result = .ok () ∧ ∃ removed, scene'.removed = some removed ∧
            Shows removed uid made handle
              (heldAt held calls (hub.chip made).lineCount.toNat))) := by
  generalize hcount : (hub.chip made).lineCount = lineCount
  have hstart : Asked uid made handle held calls 0 ({ table, around := t } : Scene τ) := ⟨rfl, hshows⟩
  have hready : ((hub.modifyChip made fun chip => { chip with initialized := false }).chip
      made).initialized = false := by
    rw [Hub.chip_modifyChip_self (Hub.has_of_handle (by rw [hh]; rfl))]
  have hbound : 0 + lineCount.toNat < 2 ^ 32 := by
    have hlt := lineCount.toNat_lt
    omega
  obtain ⟨found, scene', hrun, hcases⟩ :=
    run_firstHeld transport lineCount.toNat hstart hready hbound
  have hpins : Hub.pins lineCount = (List.range' 0 lineCount.toNat).map UInt32.ofNat := by
    rw [Hub.pins, List.range_eq_range']
  rw [← hpins] at hrun
  simp only [Hub.withdraw, Process.bind_eq, Process.pure_eq, Process.get_bind, Process.update_bind,
    Process.log_bind, Process.modify_bind, HubProcess.conceal_bind, Process.run, id_eq, hf, hr,
    Bool.not_true, Bool.false_eq_true, if_false, Hub.suspend_of_registered hr hh, hcount,
    Process.run_bind, hrun]
  rcases hcases with ⟨pin, rfl, -, hpin, htaken, hlast⟩ | ⟨rfl, hasked, hfree⟩
  · refine ⟨_, _, _, rfl, .inl ⟨⟨pin, ?_, htaken⟩, rfl, Hub.resume_suspended hi, ?_⟩⟩
    · rw [UInt32.lt_iff_toNat_lt]
      omega
    · obtain ⟨exposed, -, hexposed, -, -⟩ := hlast
      exact Option.isSome_iff_exists.mpr ⟨exposed, hexposed⟩
  · obtain ⟨removed, last, hconceal, hremoved, hlast⟩ := hasked.answer_conceal transport hready
    simp only [Process.run, hconceal]
    refine ⟨_, _, _, rfl, .inr ⟨fun pin hpin => ?_, rfl, removed, hremoved, ?_⟩⟩
    · rw [UInt32.lt_iff_toNat_lt] at hpin
      exact hfree pin (Nat.zero_le _) (by omega)
    · rwa [Nat.zero_add] at hlast

end Withdraw

section Respects

variable {core : Core} {uid : UInt64} {made : ChipId} {handle : Handle}

-- A registered chip is exposed once, with a place for each of its lines.
theorem shows_of_consistent (h : Consistent core) (hm : Measured core)
    (hf : core.hub.find? uid = some made) (hr : (core.hub.chip made).registered = true)
    (hh : (core.hub.chip made).handle = some handle) :
    ∃ held, Shows core.table uid made handle held ∧
      held.length = (core.hub.chip made).lineCount.toNat := by
  obtain ⟨handle', exposed, hh', hexposed, hdescriptor, hops⟩ := h.exposed hf hr
  obtain rfl : handle' = handle := Option.some.inj (hh'.symm.trans hh)
  have hmem := List.mem_of_find?_eq_some hexposed
  have huid : exposed.descriptor.uid = uid := by
    rw [hdescriptor]
    exact (h.keyed hf).2
  have hfind : core.table.find? uid = some exposed := by
    cases hfound : core.table.find? uid with
    | none => exact absurd (List.find?_eq_none.mp hfound exposed hmem) (by simp [huid])
    | some other =>
      have hother := List.mem_of_find?_eq_some hfound
      have hsame : other.descriptor.uid = uid := by simpa using List.find?_some hfound
      have hnamed := (h.registered other hother).1
      rw [hsame, hf] at hnamed
      have heq : other.ops = exposed.ops := (Option.some.inj hnamed).symm.trans hops.symm
      rw [List.inj_on_of_nodup_map h.once hother hmem heq]
  refine ⟨exposed.held, ⟨exposed, hfind, hexposed, hops, rfl⟩, ?_⟩
  have hlines : (core.hub.chip made).names.length < 2 ^ 32 := by
    have hhas : core.hub.Has made := Hub.has_of_handle (by rw [hh]; rfl)
    refine hm.lines _ (List.mem_map.mpr ⟨core.hub.chip made, ?_, rfl⟩)
    simp only [Hub.chip, List.getElem?_eq_getElem hhas, Option.getD_some]
    exact List.getElem_mem hhas
  have hcount : (core.hub.chip made).lineCount.toNat = (core.hub.chip made).names.length := by
    rw [Chip.lineCount, UInt32.toNat_ofNat']
    exact Nat.mod_eq_of_lt hlines
  rw [hm.slots exposed hmem, hcount, hdescriptor]
  rfl

-- A chip is taken away while none of its lines is held, or it stays exposed and nothing changes.
def Respects (handle : Handle) (hub : Hub) (outcome : Except Fault Unit × Hub × Scene τ) : Prop :=
  (outcome.1 = .ok () ∧ ∃ removed, outcome.2.2.removed = some removed ∧
      ∀ pin, removed.isHeld handle pin = false) ∨
    (outcome.1 = .error .busy ∧ outcome.2.1 = hub ∧
      (outcome.2.2.table.exposure? handle).isSome = true)

variable {υ : Type} {answers : Message → τ → Except TransportFault Unit → τ → Prop}
  {waits : CoreProcess Outcome → CoreProcess Outcome → Prop} {limit : Option Nat}
  {patience : UInt64} {around : τ} {last : Calls τ}

-- A withdrawal respects the consumers of a chip exactly if it finds a line held when the line's
-- turn comes, or no line is left held by the calls that come after its turn.
theorem withdraw_respects_iff
    (hrun : Relation.ReflTransGen (Solo (rules answers waits))
      ⟨{ hub := { limit, patience } }, around, []⟩ last)
    (hb : last.state.hub.chips.length < 2 ^ 64)
    (hquiet : ∀ call ∈ last.calls, ¬Changing call)
    (hf : last.state.hub.find? uid = some made)
    (hr : (last.state.hub.chip made).registered = true)
    (hh : (last.state.hub.chip made).handle = some handle)
    (transport : Process.Surroundings Core υ Message fun _ => Except TransportFault Unit)
    (calls : Nat → List LineCall) (u : υ) :
    Respects handle last.state.hub ((Hub.withdraw uid).run (shared transport uid calls)
        last.state.hub { table := last.state.table, around := u }) ↔
      (∃ pin < (last.state.hub.chip made).lineCount,
        heldAfter pin (last.state.table.isHeld handle pin) (between calls 0 (pin.toNat + 1)) = true) ∨
      ∀ pin < (last.state.hub.chip made).lineCount,
        heldAfter pin false (between calls (pin.toNat + 1)
          ((last.state.hub.chip made).lineCount.toNat + 1)) = false := by
  obtain ⟨stages, hstands, hin⟩ := inStep_of_run hrun
  have hconsistent := consistent_of_quiet hstands (hin hb).1 hquiet
  have hmeasured := measured_of_run
    (Relation.ReflTransGen.mono (fun _ _ (hsolo : Solo _ _ _) => hsolo.step) _ _ hrun)
  obtain ⟨held, hshows, hlength⟩ := shows_of_consistent hconsistent hmeasured hf hr hh
  have hslot : ∀ pin < (last.state.hub.chip made).lineCount, pin.toNat < held.length := by
    intro pin hpin
    rw [hlength]
    exact UInt32.lt_iff_toNat_lt.mp hpin
  have hturn : ∀ pin < (last.state.hub.chip made).lineCount,
      heldAfter pin (last.state.table.isHeld handle pin) (between calls 0 (pin.toNat + 1)) =
        isTaken (heldAt held calls pin.toNat) pin := by
    intro pin hpin
    rw [isTaken_heldAt (hslot pin hpin), hshows.isHeld pin]
    rfl
  obtain ⟨result, hub', scene', hout, hcases⟩ := run_withdraw transport calls u hf hr hh
    (hconsistent.ready hf hr) hshows
  rw [hout]
  rcases hcases with ⟨⟨pin, hpin, hheld⟩, rfl, rfl, hstays⟩ | ⟨hfree, rfl, removed, hremoved, hlast⟩
  · refine iff_of_true (.inr ⟨rfl, rfl, hstays⟩) (.inl ⟨pin, hpin, ?_⟩)
    rw [hturn pin hpin]
    exact hheld
  · have hleft : ∀ pin < (last.state.hub.chip made).lineCount,
        removed.isHeld handle pin = heldAfter pin false (between calls (pin.toNat + 1)
          ((last.state.hub.chip made).lineCount.toNat + 1)) := by
      intro pin hpin
      have hle : pin.toNat ≤ (last.state.hub.chip made).lineCount.toNat :=
        (UInt32.lt_iff_toNat_lt.mp hpin).le
      exact (hlast.isHeld pin).trans (isTaken_heldAt_of_free (hslot pin hpin) hle (hfree pin hpin))
    have hbeyond : ∀ pin, ¬pin < (last.state.hub.chip made).lineCount →
        removed.isHeld handle pin = false := by
      intro pin hpin
      rw [UInt32.lt_iff_toNat_lt] at hpin
      rw [hlast.isHeld pin, List.getElem?_eq_none]
      · rfl
      · rw [heldAt, length_foldl_apply, hlength]
        omega
    constructor
    · rintro (⟨-, removed', hremoved', hnone⟩ | ⟨hbusy, -, -⟩)
      · obtain rfl := Option.some.inj (hremoved.symm.trans hremoved')
        refine .inr fun pin hpin => ?_
        rw [← hleft pin hpin]
        exact hnone pin
      · cases hbusy
    · rintro (⟨pin, hpin, hheld⟩ | hnone)
      · rw [hturn pin hpin, hfree pin hpin] at hheld
        cases hheld
      · refine .inl ⟨rfl, removed, hremoved, fun pin => ?_⟩
        by_cases hpin : pin < (last.state.hub.chip made).lineCount
        · rw [hleft pin hpin]
          exact hnone pin hpin
        · exact hbeyond pin hpin

-- A consumer takes the first line of a chip when the second is asked for.
def latecomer (time : Nat) : List LineCall := if time = 1 then [.request 0 "valve"] else []

def twoLines : List (Pool.Turn Operation) :=
  .call (.hub (.register ⟨5, "relay", 2, ["coil", "fan"]⟩)) :: List.replicate 9 (.move 0)

theorem withdraw_respects_iff_latecomer :
    ∃ (last : Calls Unit) (handle : Handle),
      Relation.ReflTransGen (Solo (rules (fun _ _ _ _ => True) fun _ _ => False)) ⟨{}, (), []⟩ last ∧
      last.state.hub.find? 5 = some ⟨0⟩ ∧ (last.state.hub.chip ⟨0⟩).registered = true ∧
      (last.state.hub.chip ⟨0⟩).handle = some handle ∧
      ¬Respects handle last.state.hub ((Hub.withdraw 5).run
        (shared ⟨fun _ core u => (.ok (), core, u), fun _ u => u⟩ 5 latecomer) last.state.hub
        { table := last.state.table, around := () }) := by
  have hplay : (playAlone twoLines).any fun run => run.getLast?.any fun last =>
        (∀ call ∈ last.calls, call.2.Returned) ∧ last.state.hub.chips.length = 1 ∧
          last.state.hub.find? 5 = some ⟨0⟩ ∧ (last.state.hub.chip ⟨0⟩).registered = true ∧
          (last.state.hub.chip ⟨0⟩).handle = some ⟨0⟩ ∧ (last.state.hub.chip ⟨0⟩).lineCount = 2 ∧
          ∀ pin : Fin 2, last.state.table.isHeld ⟨0⟩ (.ofNat pin) = false := by
    decide +kernel
  obtain ⟨run, hturns, hends⟩ := (Option.any_eq_true ..).mp hplay
  obtain ⟨last, hlast, hends⟩ := (Option.any_eq_true ..).mp hends
  obtain ⟨hreturned, hmade, hf, hr, hh, hcount, hfree⟩ := of_decide_eq_true hends
  have hrun := reaches_of_playAlone hturns hlast
  have hquiet : ∀ call ∈ last.calls, ¬Changing call := fun call hcall h => h.2 (hreturned call hcall)
  refine ⟨last, ⟨0⟩, hrun, hf, hr, hh, fun hrespects => ?_⟩
  rw [withdraw_respects_iff hrun (by omega) hquiet hf hr hh, hcount] at hrespects
  rcases hrespects with ⟨pin, hpin, hheld⟩ | hnone
  · have hcases : pin = 0 ∨ pin = 1 := by
      rw [UInt32.lt_iff_toNat_lt] at hpin
      rw [← UInt32.toNat_inj, ← UInt32.toNat_inj]
      change pin.toNat < 2 at hpin
      change pin.toNat = 0 ∨ pin.toNat = 1
      omega
    rcases hcases with rfl | rfl
    · have hline := hfree 0
      change last.state.table.isHeld ⟨0⟩ 0 = false at hline
      rw [hline] at hheld
      exact absurd hheld (by decide)
    · have hline := hfree 1
      change last.state.table.isHeld ⟨0⟩ 1 = false at hline
      rw [hline] at hheld
      exact absurd hheld (by decide)
  · exact absurd (hnone 0 (by decide)) (by decide)

end Respects

end GpioBridge.Core
