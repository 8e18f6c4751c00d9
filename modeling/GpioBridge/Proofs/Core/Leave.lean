import GpioBridge.Proofs.Core.Episode
import GpioBridge.Proofs.Core.Lock
import GpioBridge.Proofs.Core.Withdrawal
import GpioBridge.Proofs.Hub.Standing

namespace GpioBridge.Core

open Hub (Stage Ordered Standing)

section Lift

variable {g g' : Stage} {change : Core → Core} {core : Core}

-- What one step does to the hub of a core: a step of the hub, nothing, or what a demand of the hub
-- comes to.
theorem hub_of_steps (h : Steps g change core g') :
    (∃ hubChange, Stage.Steps g hubChange core.hub g' ∧ (change core).hub = hubChange core.hub) ∨
      (g' = g ∧ (change core).hub = core.hub) ∨
      ∃ demand answer, Stage.Asks g demand answer g' ∧ (change core).hub = core.hub := by
  cases h with
  | hub h => exact .inl ⟨_, h, rfl⟩
  | look | grant | giveBack | isHeld => exact .inr (.inl ⟨rfl, rfl⟩)
  | expose => exact .inr (.inr ⟨_, _, .expose, rfl⟩)
  | @withdraw id handle => exact .inr (.inr ⟨.conceal handle, (), .withdrawn, rfl⟩)
  | @conceal id handle => exact .inr (.inr ⟨.conceal handle, (), .concealed, rfl⟩)

-- What is known of the calls on a core and of its hub, however calls overlap.
structure Upright (core : Core) (stages : List (Operation × Stage)) : Prop where
  ordered : Ordered core.hub (stages.map (·.2))
  standing : Standing core.hub (stages.map (·.2))
  idle : ∀ stage ∈ stages, stage.1.isLifecycle = false → stage.2.idle = true

theorem Operation.nothing_stage (operation : Operation) :
    operation.stage.offers = none ∧ operation.stage.loses = none := by
  cases operation with
  | hub operation => exact Hub.Operation.nothing_stage operation
  | request | release => exact ⟨rfl, rfl⟩

variable {τ : Type} {answers : Message → τ → Except TransportFault Unit → τ → Prop}
  {core' : Core} {t t' : τ} {calls calls' : List (Operation × Stage)}

theorem upright_of_steps {others : List Stage} (hs : Steps g change core g')
    (ho : Ordered core.hub (g :: others)) (h : Standing core.hub (g :: others))
    (free : ∀ other ∈ others, ¬g.WaitsFor other) :
    Ordered (change core).hub (g' :: others) ∧ Standing (change core).hub (g' :: others) := by
  rcases hub_of_steps hs with ⟨hubChange, hs, heq⟩ | ⟨rfl, heq⟩ | ⟨demand, answer, ha, heq⟩ <;>
    rw [heq]
  · exact ⟨Hub.ordered_of_steps hs ho free, Hub.standing_of_steps hs h ho⟩
  · exact ⟨ho, h⟩
  · exact ⟨Hub.ordered_of_asks ha ho, Hub.standing_of_asks ha h⟩

theorem Upright.advance (h : Upright core calls)
    (hstep : plan.Advances answers Operation.stage Stage.WaitsFor calls core t calls' core' t') :
    Upright core' calls' := by
  cases hstep with
  | call operation =>
    obtain ⟨hoffers, hloses⟩ := operation.nothing_stage
    constructor
    case ordered =>
      rw [List.map_append]
      exact (h.ordered.add operation.blank_stage).perm (List.perm_append_singleton ..).symm
    case standing =>
      rw [List.map_append]
      exact (h.standing.add hoffers hloses).perm (List.perm_append_singleton ..).symm
    case idle =>
      intro stage hs hl
      rcases List.mem_append.mp hs with hs | hs
      · exact h.idle stage hs hl
      · obtain rfl := List.mem_singleton.mp hs
        exact Operation.idle_stage hl
  | note => exact h
  | @move before after i g g' _ _ _ _ hgoes free =>
    have hfront := Plan.perm_middle before after i g
    have hback := (Plan.perm_middle before after i g').symm
    have hfree : ∀ other ∈ (before ++ after).map (·.2), ¬g.WaitsFor other := by
      intro other ho
      obtain ⟨stage, hs, rfl⟩ := List.mem_map.mp ho
      exact free stage hs
    have hmoved : (Ordered core'.hub (g' :: (before ++ after).map (·.2)) ∧
        Standing core'.hub (g' :: (before ++ after).map (·.2))) ∧
          (g.idle = true → g'.idle = true) := by
      cases hgoes with
      | step hs =>
        exact ⟨upright_of_steps hs (h.ordered.perm hfront) (h.standing.perm hfront) hfree,
          fun hidle => (alike_of_steps hs hidle).2⟩
      | ask ha _ =>
        cases ha with
        | send => exact ⟨⟨h.ordered.perm hfront, h.standing.perm hfront⟩, fun hidle => hidle⟩
    refine ⟨hmoved.1.1.perm hback, hmoved.1.2.perm hback, fun stage hs hl => ?_⟩
    rcases List.mem_cons.mp (List.perm_middle.mem_iff.mp hs) with rfl | hs
    · exact hmoved.2 (h.idle (i, g) (by simp) hl)
    · exact h.idle stage (List.perm_middle.mem_iff.mpr (List.mem_cons_of_mem _ hs)) hl

variable {limit : Option Nat} {patience : UInt64} {around : τ} {last : Calls τ}

theorem upright_of_run
    (hrun : Relation.ReflTransGen (Pool.Step (rules answers WaitsFor))
      ⟨{ hub := { limit, patience } }, around, []⟩ last) :
    ∃ stages, plan.Stands Ended last.calls stages ∧ Upright last.state stages := by
  induction hrun with
  | refl =>
    exact ⟨[], .nil, Hub.ordered_empty limit patience, Hub.standing_empty limit patience,
      fun _ hs => absurd hs List.not_mem_nil⟩
  | tail _ hstep ih =>
    obtain ⟨stages, hstands, hupright⟩ := ih
    obtain ⟨stages', hstands', hadvances⟩ :=
      Plan.advances_of_step follows_process waitsFor_of_follows hstep hstands
    exact ⟨stages', hstands', hupright.advance hadvances⟩

-- A call that does not change which chips there are, or has returned, has no lock.
theorem Upright.unlocked {stages : List (Operation × Stage)} (h : Upright last.state stages)
    (hstands : plan.Stands Ended last.calls stages)
    (hquiet : ∀ call ∈ last.calls, ¬Changing call) : ∀ stage ∈ stages, stage.2.holds = none := by
  intro stage hs
  obtain ⟨call, hcall, hsame, hfollows⟩ := hstands.exists_call hs
  by_cases hl : stage.1.isLifecycle = true
  · have hreturned : call.2.Returned := by
      by_contra hnot
      exact hquiet call hcall ⟨hsame ▸ hl, hnot⟩
    obtain ⟨outcome, houtcome⟩ := hreturned
    rw [houtcome] at hfollows
    cases hfollows with
    | done hended =>
      generalize stage.2 = g at hended
      cases hended with
      | hub hended => cases hended <;> rfl
      | requested | released => rfl
  · rw [Bool.not_eq_true] at hl
    exact (Stage.blank_of_idle (h.idle stage hs hl)).holds

end Lift

section Outcome

variable {core core' : Core} {uid : UInt64} {id : ChipId} {handle : Handle}

theorem mem_pins {pin count : UInt32} : pin ∈ Hub.pins count ↔ pin < count := by
  simp only [Hub.pins, List.mem_map, List.mem_range, UInt32.lt_iff_toNat_lt]
  constructor
  · rintro ⟨n, hn, rfl⟩
    have hlt := count.toNat_lt
    rwa [UInt32.toNat_ofNat_of_lt' (by rw [UInt32.size]; omega)]
  · intro hlt
    exact ⟨pin.toNat, hlt, UInt32.ofNat_toNat⟩

-- A withdrawn chip has left the table, and the hub is as before but for its marks.
structure Parts (uid : UInt64) (id : ChipId) (handle : Handle) (core core' : Core) : Prop where
  mapped : core'.hub.find? uid = some id
  present : (core'.hub.chip id).retired = false
  chip : core'.hub.chip id =
    { core.hub.chip id with initialized := false, registered := false, handle := none }
  others : ∀ other, other ≠ id → core'.hub.chip other = core.hub.chip other
  hub : { core'.hub with chips := core.hub.chips } = core.hub
  made : core'.hub.chips.length = core.hub.chips.length
  table : core'.table = (core.table.remove handle).2

theorem parts_of_released (hf : core.hub.find? uid = some id)
    (hr : (core.hub.chip id).registered = true) (hh : (core.hub.chip id).handle = some handle)
    (hpresent : (core.hub.chip id).retired = false) :
    Parts uid id handle core
      ⟨Hub.release id (Hub.suspend id core.hub).2, (core.table.remove handle).2⟩ := by
  rw [Hub.suspend_of_registered hr hh]
  have hhas := Hub.has_of_registered hr
  have hchip : (Hub.release id (core.hub.modifyChip id fun chip =>
      { chip with initialized := false })).chip id =
        { core.hub.chip id with initialized := false, registered := false, handle := none } := by
    rw [Hub.release, Hub.chip_modifyChip_self (Hub.has_modifyChip.mpr hhas),
      Hub.chip_modifyChip_self hhas]
  constructor
  case mapped => exact hf
  case present =>
    rw [hchip]
    exact hpresent
  case chip => exact hchip
  case others =>
    intro other hne
    rw [Hub.release, Hub.chip_modifyChip_of_ne hne, Hub.chip_modifyChip_of_ne hne]
  case hub => rfl
  case made => rw [Hub.release, Hub.length_modifyChip, Hub.length_modifyChip]
  case table => rfl

variable {υ : Type}
  (transport : Process.Surroundings Core υ Message fun _ => Except TransportFault Unit) (u : υ)

-- What a withdrawal comes to.
def withdrawal (uid : UInt64) (core : Core) : Except Fault Unit × Core :=
  (((onHub (Hub.withdraw uid)).run transport core u).1,
    ((onHub (Hub.withdraw uid)).run transport core u).2.1)

-- It sends nothing, so the transport makes no difference.
theorem withdraws_withdrawal (uid : UInt64) (core : Core) :
    Withdraws uid core (withdrawal transport u uid core).1 (withdrawal transport u uid core).2 := by
  obtain ⟨result, core', hrun, hw⟩ := run_withdraw_alone uid core
  have hsame : (onHub (Hub.withdraw uid)).run (sending fun _ => .ok ()) core [] =
      ((withdrawal transport u uid core).1, (withdrawal transport u uid core).2, []) :=
    (alone_onHub (Hub.silent_withdraw uid)).run (fun _ _ => rfl) transport core [] u
  obtain ⟨hresult, hcore⟩ : (withdrawal transport u uid core).1 = result ∧
      (withdrawal transport u uid core).2 = core' := by simpa using hsame.symm.trans (hrun _ [])
  rwa [hresult, hcore]

theorem withdrawal_of_unregistered
    (h : ∀ id, core.hub.find? uid = some id → (core.hub.chip id).registered = false) :
    withdrawal transport u uid core = (.ok (), core) := by
  have hw := withdraws_withdrawal transport u uid core
  generalize withdrawal transport u uid core = outcome at hw ⊢
  obtain ⟨result, core'⟩ := outcome
  have hnot : ∀ {id}, core.hub.find? uid = some id → (core.hub.chip id).registered ≠ true := by
    intro id hf hr
    rw [h id hf] at hr
    cases hr
  cases hw with
  | unknown | unregistered => rfl
  | unexposed hf hr | held hf hr | released hf hr => exact absurd hr (hnot hf)

-- Whether a line of an exposed chip is held settles what comes of withdrawing it.
theorem withdrawal_of_registered (hf : core.hub.find? uid = some id)
    (hr : (core.hub.chip id).registered = true) (hh : (core.hub.chip id).handle = some handle)
    (hi : (core.hub.chip id).initialized = true) (hpresent : (core.hub.chip id).retired = false) :
    ((∃ pin < (core.hub.chip id).lineCount, core.table.isHeld handle pin = true) ∧
        withdrawal transport u uid core = (.error .busy, core)) ∨
      ((∀ pin < (core.hub.chip id).lineCount, core.table.isHeld handle pin = false) ∧
        (withdrawal transport u uid core).1 = .ok () ∧
          Parts uid id handle core (withdrawal transport u uid core).2) := by
  have hw := withdraws_withdrawal transport u uid core
  generalize withdrawal transport u uid core = outcome at hw ⊢
  obtain ⟨result, core'⟩ := outcome
  cases hw with
  | unknown hf' =>
    rw [hf] at hf'
    cases hf'
  | unregistered hf' hr' =>
    cases hf.symm.trans hf'
    rw [hr] at hr'
    cases hr'
  | unexposed hf' _ hh' =>
    cases hf.symm.trans hf'
    rw [hh] at hh'
    cases hh'
  | held hf' _ hh' hheld =>
    cases hf.symm.trans hf'
    cases hh.symm.trans hh'
    obtain ⟨pin, hpin, hpinheld⟩ := List.any_eq_true.mp hheld
    refine .inl ⟨⟨pin, mem_pins.mp hpin, hpinheld⟩, ?_⟩
    rw [Hub.suspend_of_registered hr hh, Hub.resume_suspended hi]
  | released hf' _ hh' hfree =>
    cases hf.symm.trans hf'
    cases hh.symm.trans hh'
    refine .inr ⟨fun pin hpin => ?_, rfl, parts_of_released hf hr hh hpresent⟩
    exact Bool.eq_false_iff.mpr (List.any_eq_false.mp hfree pin (mem_pins.mpr hpin))

-- A chip that has left is not exposed, and nothing is left to be withdrawn.
theorem Parts.withdrawal_again {core' : Core} (h : Parts uid id handle core core') :
    withdrawal transport u uid core' = (.ok (), core') := by
  refine withdrawal_of_unregistered transport u fun other hother => ?_
  cases h.mapped.symm.trans hother
  rw [h.chip]

end Outcome

section Entry

variable {core : Core} {uid : UInt64} {id : ChipId} {handle : Handle}

-- The chip of a uid has one entry in the table, with the uid's holders, and the handle is its own.
structure Sole (uid : UInt64) (id : ChipId) (handle : Handle) (core : Core) : Prop where
  isHeld : ∀ pin, core.table.isHeld handle pin = (core.table.holder? uid pin).isSome
  entry : ∃ before exposed after, core.table.chips = before ++ exposed :: after ∧
    exposed.descriptor = (core.hub.chip id).descriptor ∧ exposed.ops = id ∧
    (core.table.remove handle).2 = { core.table with chips := before ++ after }

theorem sole_of_consistent (h : Consistent core) (hm : Measured core)
    (hf : core.hub.find? uid = some id) (hr : (core.hub.chip id).registered = true)
    (hh : (core.hub.chip id).handle = some handle) : Sole uid id handle core where
  isHeld := by
    obtain ⟨held, hshows, -⟩ := shows_of_consistent h hm hf hr hh
    intro pin
    rw [hshows.isHeld]
    obtain ⟨exposed, hfind, -, -, rfl⟩ := hshows
    simp [LineTable.holder?, hfind]
  entry := by
    obtain ⟨handle', exposed, hh', hexposed, hdescriptor, hops⟩ := h.exposed hf hr
    obtain rfl : handle' = handle := Option.some.inj (hh'.symm.trans hh)
    obtain ⟨before, after, hchips⟩ := List.append_of_mem (List.mem_of_find?_eq_some hexposed)
    refine ⟨before, exposed, after, hchips, hdescriptor, hops, ?_⟩
    have honce := h.once
    rw [hchips, List.map_append, List.map_cons, List.nodup_middle, List.nodup_cons,
      ← List.map_append] at honce
    -- Two entries under one handle are the same, and no chip has two entries.
    have hothers : ∀ other ∈ before ++ after, other.handle ≠ handle' := by
      intro other ho hsame
      have hmem : other ∈ core.table.chips := by
        rw [hchips]
        exact List.perm_middle.mem_iff.mpr (List.mem_cons_of_mem _ ho)
      have hfound := (h.registered other hmem).2.2.2
      rw [hsame, hexposed] at hfound
      cases hfound
      exact honce.1 (List.mem_map_of_mem ho)
    have hself : exposed.handle = handle' := by simpa using List.find?_some hexposed
    have hkept : ∀ {l : List (Exposed ChipId)}, (∀ other ∈ l, other.handle ≠ handle') →
        l.filter (·.handle != handle') = l := fun hl =>
      List.filter_eq_self.mpr fun other ho => bne_iff_ne.mpr (hl other ho)
    simp only [LineTable.remove, hchips, List.filter_append]
    rw [List.filter_cons_of_neg (by simp [hself]),
      hkept fun other ho => hothers other (List.mem_append_left _ ho),
      hkept fun other ho => hothers other (List.mem_append_right _ ho)]

end Entry

section Run

variable {τ υ : Type} {answers : Message → τ → Except TransportFault Unit → τ → Prop}
  {limit : Option Nat} {patience : UInt64} {around : τ} {last : Calls τ}

-- Whatever has become of a core, a withdrawal that comes when the chips are left alone does
-- nothing, or is refused and does nothing, or takes one chip out of the table. As long as the table
-- has not run out of handles, what leaves it is the one entry of this chip.
theorem withdrawal_of_run
    (hrun : Relation.ReflTransGen (Solo (rules answers WaitsFor))
      ⟨{ hub := { limit, patience } }, around, []⟩ last)
    (hquiet : ∀ call ∈ last.calls, ¬Changing call)
    (transport : Process.Surroundings Core υ Message fun _ => Except TransportFault Unit) (u : υ)
    (uid : UInt64) :
    ((∀ id, last.state.hub.find? uid = some id → (last.state.hub.chip id).registered = false) →
      withdrawal transport u uid last.state = (.ok (), last.state)) ∧
    ∀ id, last.state.hub.find? uid = some id → (last.state.hub.chip id).registered = true →
      ∃ handle, (last.state.hub.chip id).handle = some handle ∧
        ((∃ pin < (last.state.hub.chip id).lineCount, last.state.table.isHeld handle pin = true) →
          withdrawal transport u uid last.state = (.error .busy, last.state)) ∧
        ((∀ pin < (last.state.hub.chip id).lineCount, last.state.table.isHeld handle pin = false) →
          ∃ core', withdrawal transport u uid last.state = (.ok (), core') ∧
            Parts uid id handle last.state core' ∧
            ∀ v, withdrawal transport v uid core' = (.ok (), core')) ∧
        (last.state.hub.chips.length < 2 ^ 64 → Sole uid id handle last.state) := by
  have hsteps := Relation.ReflTransGen.mono
    (fun _ _ (hsolo : Solo (rules answers WaitsFor) _ _) => hsolo.step) _ _ hrun
  obtain ⟨stages, hstands, hupright⟩ := upright_of_run hsteps
  have hstanding := hupright.standing
  have hunlocked := hupright.unlocked hstands hquiet
  refine ⟨withdrawal_of_unregistered transport u, fun id hf hr => ?_⟩
  have hready : (last.state.hub.chip id).initialized = true := by
    refine (hstanding.ready hf hr).resolve_right ?_
    rintro ⟨g, hg, hheld⟩
    obtain ⟨stage, hs, rfl⟩ := List.mem_map.mp hg
    rw [hunlocked stage hs] at hheld
    cases hheld
  have hmarked := hstanding.marked id
  rw [hr] at hmarked
  obtain ⟨handle, hh⟩ := Option.isSome_iff_exists.mp hmarked.symm
  have hcases := withdrawal_of_registered transport u hf hr hh hready (hstanding.present hf)
  refine ⟨handle, hh, fun ⟨pin, hpin, hheld⟩ => ?_, fun hfree => ?_, fun hb => ?_⟩
  · rcases hcases with ⟨-, hbusy⟩ | ⟨hfree, -⟩
    · exact hbusy
    · rw [hfree pin hpin] at hheld
      cases hheld
  · rcases hcases with ⟨⟨pin, hpin, hheld⟩, -⟩ | ⟨-, hok, hparts⟩
    · rw [hfree pin hpin] at hheld
      cases hheld
    · exact ⟨_, Prod.ext hok rfl, hparts, fun v => hparts.withdrawal_again transport v⟩
  · obtain ⟨stages', hstands', hin⟩ := inStep_of_run hrun
    have hconsistent := consistent_of_quiet hstands' (hin hb).1 hquiet
    exact sole_of_consistent hconsistent (measured_of_run hsteps) hf hr hh

end Run

section Neighbours

-- Two chips are exposed, and somebody holds a line of one.
def neighbours : List (Pool.Turn Operation) :=
  List.flatten [
    .call (.hub (.register ⟨5, "relay", 2, ["coil", "lamp"]⟩)) :: List.replicate 9 (.move 0),
    .call (.hub (.register ⟨7, "", 1, ["fan"]⟩)) :: List.replicate 9 (.move 1),
    .call (.request 5 1 "valve") :: List.replicate 9 (.move 2)]

-- The chip with the held line stays, its neighbour leaves, and of a third there is nothing to
-- leave.
theorem withdrawal_of_run_neighbours :
    ∃ last : Calls Unit,
      Relation.ReflTransGen (Solo (rules (fun _ _ _ _ => True) WaitsFor)) ⟨{}, (), []⟩ last ∧
      ∀ transport : Process.Surroundings Core Unit Message fun _ => Except TransportFault Unit,
        withdrawal transport () 5 last.state = (.error .busy, last.state) ∧
        (∃ handle core', withdrawal transport () 7 last.state = (.ok (), core') ∧
          Parts 7 ⟨1⟩ handle last.state core' ∧ Sole 7 ⟨1⟩ handle last.state ∧
          withdrawal transport () 7 core' = (.ok (), core')) ∧
        withdrawal transport () 9 last.state = (.ok (), last.state) := by
  have hplay : (Pool.play ⟨Operation.process, fun _ _ => (.error .noSubscribers, ()),
      fun _ q => !q.isDone⟩ (fun _ next => next.calls.Pairwise fun call other =>
        ¬(Changing call ∧ Changing other)) neighbours ⟨{}, (), []⟩).any fun run =>
      run.getLast?.any fun last =>
        (∀ call ∈ last.calls, call.2.Returned) ∧ last.state.hub.chips.length = 2 ∧
        (last.state.hub.find? 5 = some ⟨0⟩ ∧ (last.state.hub.chip ⟨0⟩).registered = true ∧
          (last.state.hub.chip ⟨0⟩).lineCount = 2 ∧
          ((last.state.hub.chip ⟨0⟩).handle.any fun handle => last.state.table.isHeld handle 1)) ∧
        (last.state.hub.find? 7 = some ⟨1⟩ ∧ (last.state.hub.chip ⟨1⟩).registered = true ∧
          (last.state.hub.chip ⟨1⟩).lineCount = 1 ∧
          ((last.state.hub.chip ⟨1⟩).handle.all fun handle => !last.state.table.isHeld handle 0)) ∧
        last.state.hub.find? 9 = none := by
    decide +kernel
  obtain ⟨run, hturns, hends⟩ := (Option.any_eq_true ..).mp hplay
  obtain ⟨last, hlast, hends⟩ := (Option.any_eq_true ..).mp hends
  obtain ⟨hreturned, hmade, ⟨hf₅, hr₅, hcount₅, hheld₅⟩, ⟨hf₇, hr₇, hcount₇, hfree₇⟩, hf₉⟩ :=
    of_decide_eq_true hends
  have hrun : Relation.ReflTransGen (Solo (rules (fun _ _ _ _ => True) WaitsFor)) ⟨{}, (), []⟩
      last := by
    refine Pool.reaches_of_play (fun turn pool next hturn hcheck => ?_) hturns hlast
    have hfree : ∀ p q : CoreProcess Outcome, (!q.isDone) = false → ¬WaitsFor p q := fun p q hq =>
      not_waitsFor_of_returned (Process.returned_of_isDone ((Bool.not_eq_false' ..).mp hq))
    exact ⟨Pool.step_of_turn? rfl (fun _ _ => trivial) hfree hturn, of_decide_eq_true hcheck⟩
  have hquiet : ∀ call ∈ last.calls, ¬Changing call := fun call hcall h => h.2 (hreturned call hcall)
  have hb : last.state.hub.chips.length < 2 ^ 64 := by omega
  refine ⟨last, hrun, fun transport => ⟨?_, ?_, ?_⟩⟩
  · obtain ⟨handle, hh, hbusy, -, -⟩ :=
      (withdrawal_of_run hrun hquiet transport () 5).2 ⟨0⟩ hf₅ hr₅
    rw [hh] at hheld₅
    exact hbusy ⟨1, by rw [hcount₅]; decide, hheld₅⟩
  · obtain ⟨handle, hh, -, hleaves, hsole⟩ :=
      (withdrawal_of_run hrun hquiet transport () 7).2 ⟨1⟩ hf₇ hr₇
    rw [hh] at hfree₇
    obtain ⟨core', hok, hparts, hagain⟩ := hleaves fun pin hpin => by
      rw [hcount₇] at hpin
      obtain rfl : pin = 0 := by
        rw [UInt32.lt_iff_toNat_lt] at hpin
        have hone : (1 : UInt32).toNat = 1 := rfl
        rw [← UInt32.toNat_inj]
        have hzero : (0 : UInt32).toNat = 0 := rfl
        omega
      simpa using hfree₇
    exact ⟨handle, core', hok, hparts, hsole hb, hagain ()⟩
  · refine (withdrawal_of_run hrun hquiet transport () 9).1 fun id hf => ?_
    rw [hf₉] at hf
    cases hf

end Neighbours

end GpioBridge.Core
