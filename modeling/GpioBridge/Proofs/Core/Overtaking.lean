import GpioBridge.Proofs.Core.Turnover
import GpioBridge.Proofs.Hub.Marks
import GpioBridge.Proofs.Process.Play
import Mathlib.Data.List.Chain

namespace GpioBridge.Core

open Hub (Stage)

-- No retired chip counts as exposed, and whatever is exposed is mapped.
structure Lawful (core : Core) : Prop where
  retired : ∀ id, (core.hub.chip id).retired = true → (core.hub.chip id).registered = false
  exposed : ∀ exposed ∈ core.table.chips,
    core.hub.find? exposed.descriptor.uid = some exposed.ops ∧
      (core.hub.chip exposed.ops).retired = false

-- A registration is recorded for a chip that has been retired.
def Overtakes (id : ChipId) (core core' : Core) : Prop :=
  (core.hub.chip id).retired = true ∧ (core.hub.chip id).registered = false ∧
    (core'.hub.chip id).registered = true

instance (id : ChipId) (core core' : Core) : Decidable (Overtakes id core core') :=
  inferInstanceAs (Decidable (_ ∧ _))

section Steps

variable {lost : ChipId → Prop} {core : Core} {g g' : Stage} {others : List Stage}
  {change : Core → Core} {id : ChipId}

theorem Orderly.steps (h : Orderly lost core (g :: others)) (hs : Steps g change core g')
    (hfree : ∀ other ∈ others, ¬g.WaitsFor other)
    (hlost : ∀ id, Overtakes id core (change core) → lost id) :
    Orderly lost (change core) (g' :: others) := by
  by_cases hidle : g.idle = true
  · obtain ⟨halike, hidle'⟩ := alike_of_steps hs hidle
    exact (h.settle (Stage.blank_of_idle hidle).todo (by rintro id handle rfl; cases hidle)
      (Stage.blank_of_idle hidle')).alike halike
  cases hs with
  | hub hs =>
    cases hs with
    | enlist => exact orderly_enlist h
    | read => exact orderly_read h
    | @confirm id handle =>
      have hnew : core.hub.Unshown id := h.expects _ List.mem_cons_self
      refine orderly_confirm h (holds_ne_of_takes rfl hfree) fun hr => hlost id ⟨hr, ?_, ?_⟩
      · rw [← Bool.not_eq_true]
        intro hreg
        have hsome := (h.marked id).mp hreg
        rw [hnew.handle] at hsome
        cases hsome
      · change ((Hub.confirm id handle core.hub).chip id).registered = true
        rw [Hub.confirm, Hub.chip_modifyChip_self hnew.has]
    | unmap => exact orderly_unmap h
    | abandon => exact orderly_abandon h (holds_ne_of_takes rfl hfree)
    | find => exact orderly_find h
    | check => exact orderly_check h
    | suspend => exact orderly_suspend h (holds_ne_of_takes rfl hfree)
    | resume => exact orderly_resume h
    | release => exact orderly_release h
    | drain => exact orderly_drain h
    | disable => exact orderly_disable h (holds_ne_of_takes rfl hfree)
    | retire => exact orderly_retire h
    | _ => exact absurd rfl hidle
  | expose => exact orderly_add h
  | isHeld => exact h
  | withdraw => exact orderly_withdrawn h
  | conceal => exact orderly_concealed h
  | _ => exact absurd rfl hidle

-- A chip that has been retired stays so.
theorem retired_of_steps (hs : Steps g change core g') (h : (core.hub.chip id).retired = true) :
    ((change core).hub.chip id).retired = true := by
  cases hs with
  | hub hs => exact Hub.retired_of_steps hs h
  | _ => exact h

-- Only where its registration is recorded does a chip come to count as exposed.
theorem recorded_of_overtakes (hs : Steps g change core g')
    (h : Overtakes id core (change core)) : g' = .recorded id := by
  obtain ⟨hretired, hreg, hreg'⟩ := h
  cases hs with
  | hub hs =>
    rcases (Hub.marks_of_steps hs (Hub.has_of_retired hretired)).registered hreg' with
      hold | ⟨handle, rfl⟩
    · rw [hreg] at hold
      cases hold
    · cases hs with
      | confirm => rfl
  | _ =>
    have hsame := hreg.symm.trans hreg'
    cases hsame

end Steps

section Run

variable {τ : Type} {answers : Message → τ → Except TransportFault Unit → τ → Prop}
  {waits : Stage → Stage → Prop} {lost : ChipId → Prop} {core core' : Core} {t t' : τ}
  {calls calls' : List (Operation × Stage)}

theorem Orderly.advance (h : Orderly lost core (calls.map (·.2)))
    (hstep : plan.Advances answers Operation.stage Stage.WaitsFor calls core t calls' core' t')
    (hlost : ∀ id, Overtakes id core core' → lost id) :
    Orderly lost core' (calls'.map (·.2)) := by
  cases hstep with
  | call operation =>
    rw [List.map_append]
    exact ((orderly_cons_of_blank operation.blank_stage).mpr h).perm
      (List.perm_append_singleton _ _).symm
  | note => exact h
  | @move before after i g g' _ _ _ _ hgoes hfree =>
    have hfront := h.perm (Plan.perm_middle before after i g)
    cases hgoes with
    | step hs =>
      refine (hfront.steps hs (fun other ho => ?_) hlost).perm (Plan.perm_middle before after i g').symm
      obtain ⟨call, hcall, rfl⟩ := List.mem_map.mp ho
      exact hfree call hcall
    | ask ha _ =>
      cases ha with
      | send => exact h

theorem retired_advance {id : ChipId} (h : (core.hub.chip id).retired = true)
    (hstep : plan.Advances answers Operation.stage waits calls core t calls' core' t') :
    (core'.hub.chip id).retired = true := by
  cases hstep with
  | call | note => exact h
  | move hgoes _ =>
    cases hgoes with
    | step hs => exact retired_of_steps hs h
    | ask => exact h

-- A call that has recorded its registration has nothing left to do.
theorem recorded_advance {id : ChipId} (h : ∃ call ∈ calls, call.2 = .recorded id)
    (hstep : plan.Advances answers Operation.stage waits calls core t calls' core' t') :
    ∃ call ∈ calls', call.2 = .recorded id := by
  obtain ⟨call, hcall, hrecorded⟩ := h
  cases hstep with
  | call => exact ⟨call, List.mem_append_left _ hcall, hrecorded⟩
  | note => exact ⟨call, hcall, hrecorded⟩
  | @move before after i g g' _ _ _ _ hgoes _ =>
    rcases List.mem_cons.mp (List.perm_middle.mem_iff.mp hcall) with rfl | hother
    · obtain rfl : g = .recorded id := hrecorded
      cases hgoes with
      | step hs =>
        cases hs with
        | hub hs => cases hs
      | ask ha => cases ha
    · exact ⟨call, List.perm_middle.mem_iff.mpr (List.mem_cons_of_mem _ hother), hrecorded⟩

theorem recorded_of_overtakes_advance {id : ChipId} (h : Overtakes id core core')
    (hstep : plan.Advances answers Operation.stage waits calls core t calls' core' t') :
    ∃ call ∈ calls', call.2 = .recorded id := by
  cases hstep with
  | call | note =>
    have hreg := h.2.2
    rw [h.2.1] at hreg
    cases hreg
  | @move before after i g g' _ _ _ _ hgoes _ =>
    cases hgoes with
    | step hs =>
      exact ⟨(i, g'), List.mem_append_right _ List.mem_cons_self, recorded_of_overtakes hs h⟩
    | ask =>
      have hreg := h.2.2
      rw [h.2.1] at hreg
      cases hreg

theorem Orderly.mono {lost' : ChipId → Prop} {stages : List Stage} (h : Orderly lost core stages)
    (hlost : ∀ id, lost id → lost' id) : Orderly lost' core stages :=
  { h with gone := fun id hr => (h.gone id hr).imp_right (hlost id) }

variable {limit : Option Nat} {patience : UInt64} {around : τ} {last : Calls τ}

-- No registration was recorded too late for this chip.
def InTime (id : ChipId) (run : List (Calls τ)) : Prop :=
  run.IsChain fun pool next => ¬Overtakes id pool.state next.state

instance (id : ChipId) (run : List (Calls τ)) : Decidable (InTime id run) :=
  inferInstanceAs (Decidable (List.IsChain _ _))

-- However the calls overlap, only chips with a registration that came too late are lost, and that
-- registration has been recorded.
theorem orderly_of_run {run : List (Calls τ)}
    (hrun : run.IsChain (Pool.Step (rules answers WaitsFor)))
    (hfirst : run.head? = some ⟨{ hub := { limit, patience } }, around, []⟩)
    (hlast : run.getLast? = some last) :
    ∃ stages, plan.Stands Ended last.calls stages ∧
      Orderly (fun id => ¬InTime id run) last.state (stages.map (·.2)) ∧
        ∀ id, ¬InTime id run → (last.state.hub.chip id).retired = true ∧
          ∃ stage ∈ stages, stage.2 = .recorded id := by
  induction run using List.reverseRecOn generalizing last with
  | nil => cases hfirst
  | append_singleton before next ih =>
    obtain rfl : next = last := by simpa using hlast
    cases hp : before.getLast? with
    | none =>
      obtain rfl := List.getLast?_eq_none_iff.mp hp
      obtain rfl : next = ⟨{ hub := { limit, patience } }, around, []⟩ := by simpa using hfirst
      exact ⟨[], .nil, orderly_empty _ limit patience, fun _ h => absurd (.singleton _) h⟩
    | some pool =>
      obtain ⟨hbefore, -, hlink⟩ := List.isChain_append.mp hrun
      have hne : before ≠ [] := by
        rintro rfl
        cases hp
      obtain ⟨stages, hstands, horderly, hlater⟩ := ih hbefore
        (by rwa [List.head?_append_of_ne_nil _ hne] at hfirst) hp
      have hstep : Pool.Step (rules answers WaitsFor) pool next := hlink pool hp next rfl
      obtain ⟨stages', hstands', hadvances⟩ :=
        Plan.advances_of_step follows_process waitsFor_of_follows hstep hstands
      have hintime : ∀ id, InTime id (before ++ [next]) ↔
          InTime id before ∧ ¬Overtakes id pool.state next.state := by
        simp [InTime, List.isChain_append, hp]
      refine ⟨stages', hstands', ?_, fun id hlate => ?_⟩
      · have hmono : Orderly (fun id => ¬InTime id (before ++ [next])) pool.state
            (stages.map (·.2)) := horderly.mono fun id hlate h => hlate ((hintime id).mp h).1
        exact hmono.advance hadvances fun id hover h => ((hintime id).mp h).2 hover
      · by_cases hearlier : InTime id before
        · have hover : Overtakes id pool.state next.state := by
            by_contra hnot
            exact hlate ((hintime id).mpr ⟨hearlier, hnot⟩)
          exact ⟨retired_advance hover.1 hadvances, recorded_of_overtakes_advance hover hadvances⟩
        · obtain ⟨hretired, hrecorded⟩ := hlater id hearlier
          exact ⟨retired_advance hretired hadvances, recorded_advance hrecorded hadvances⟩

-- When nothing is under way, a core is lawful if no chip it has lost still counts as exposed.
theorem lawful_of_orderly {stages : List Stage} (h : Orderly lost core stages)
    (hstages : ∀ g ∈ stages, g.Blank)
    (hlost : ∀ id, (core.hub.chip id).registered = true → ¬lost id) : Lawful core := by
  have hpresent : ∀ id, (core.hub.chip id).registered = true →
      (core.hub.chip id).retired = false := by
    intro id hreg
    rw [← Bool.not_eq_true]
    intro hr
    have hsome := (h.marked id).mp hreg
    rw [(h.gone id hr).resolve_right (hlost id hreg)] at hsome
    cases hsome
  constructor
  · intro id hr
    rw [← Bool.not_eq_true]
    intro hreg
    rw [hpresent id hreg] at hr
    cases hr
  · intro exposed he
    obtain ⟨-, huid, hsh⟩ := h.shown exposed he
    have hhandle : (core.hub.chip exposed.ops).handle = some exposed.handle :=
      hsh.resolve_right fun hin => (hstages _ hin).exposes_ne exposed.ops rfl
    have hreg := (h.marked exposed.ops).mpr (by rw [hhandle]; rfl)
    have hr := hpresent _ hreg
    refine ⟨?_, hr⟩
    rw [huid]
    refine (h.tracked _ hr (.inl hreg)).resolve_right fun ⟨g, hg, hid⟩ => ?_
    rw [(hstages g hg).todo] at hid
    cases hid

theorem blank_of_ended {outcome : Outcome} {g : Stage} (h : Ended outcome g) : g.Blank := by
  cases h with
  | hub h => cases h <;> exact ⟨⟨rfl, rfl, rfl⟩, rfl⟩
  | requested | released => exact ⟨⟨rfl, rfl, rfl⟩, rfl⟩

-- A registration has reported that the chip is exposed.
def Reported (id : ChipId) (pool : Calls τ) : Prop :=
  ∃ call ∈ pool.calls, call.2 = .done (.hub (.chip (.ok id)))

-- Once all calls have returned, no retired chip counts as exposed and whatever is exposed is
-- mapped, exactly if no registration came too late for a chip that still counts as exposed. A
-- registration that came too late has reported success, and its chip stays retired.
theorem lawful_iff_of_run {run : List (Calls τ)}
    (hrun : run.IsChain (Pool.Step (rules answers WaitsFor)))
    (hfirst : run.head? = some ⟨{ hub := { limit, patience } }, around, []⟩)
    (hlast : run.getLast? = some last) (hrest : last.AtRest) :
    (Lawful last.state ↔ ∀ id, (last.state.hub.chip id).registered = true → InTime id run) ∧
      ∀ id, ¬InTime id run → (last.state.hub.chip id).retired = true ∧ Reported id last := by
  obtain ⟨stages, hstands, horderly, hlater⟩ := orderly_of_run hrun hfirst hlast
  -- Every stage is that of a call that has returned.
  have hended : ∀ stage ∈ stages, ∃ call ∈ last.calls, ∃ outcome,
      call.2 = .done outcome ∧ Ended outcome stage.2 := by
    intro stage hstage
    obtain ⟨call, hcall, -, hfollows⟩ := hstands.exists_call hstage
    obtain ⟨outcome, houtcome⟩ := hrest call hcall
    rw [houtcome] at hfollows
    cases hfollows with
    | done hended => exact ⟨call, hcall, outcome, houtcome, hended⟩
  refine ⟨⟨fun hlawful id hreg => ?_, fun hintime => ?_⟩, fun id hlate => ?_⟩
  · by_contra hlate
    rw [hlawful.retired id (hlater id hlate).1] at hreg
    cases hreg
  · refine lawful_of_orderly horderly (fun g hg => ?_) fun id hreg hlate => hlate (hintime id hreg)
    obtain ⟨stage, hstage, rfl⟩ := List.mem_map.mp hg
    obtain ⟨-, -, outcome, -, hblank⟩ := hended stage hstage
    exact blank_of_ended hblank
  · obtain ⟨hretired, stage, hstage, hrecorded⟩ := hlater id hlate
    obtain ⟨call, hcall, outcome, houtcome, hreported⟩ := hended stage hstage
    rw [hrecorded] at hreported
    cases hreported with
    | hub hreported =>
      cases hreported with
      | recorded => exact ⟨hretired, call, hcall, houtcome⟩

-- Whether the next thing a call does is to record a registration of the first chip.
def records (p : CoreProcess Outcome) : Bool :=
  match p with
  | .step change _ => ((change { hub := { chips := [default] } }).hub.chip ⟨0⟩).registered
  | _ => false

-- Who records a registration has no lock yet.
theorem not_holds_of_records {id : ChipId} {p : CoreProcess Outcome} (h : records p = true) :
    ¬Holds id p := by
  intro hholds
  have hunmarked : ∀ {f : Chip → Chip}, (∀ chip : Chip, chip.registered = false →
      (f chip).registered = false) →
        ¬((({ chips := [default] } : Hub).modifyChip id f).chip ⟨0⟩).registered = true := by
    intro f hf
    rw [Bool.not_eq_true]
    exact Hub.modifyChip_of (P := fun chip => chip.registered = false) hf rfl
  cases hholds with
  | resume => exact hunmarked (by intro chip hr; exact hr) h
  | release | retire => exact hunmarked (by intro chip hr; rfl) h
  | note => cases h
  | table hc =>
    simp only [records, hc] at h
    cases h

-- Everything is torn down after a chip has been exposed and before that is recorded.
def tornDownMeanwhile : List (Pool.Turn Operation) :=
  List.flatten [
    .call (.hub (.register ⟨5, "relay", 1, ["coil"]⟩)) :: List.replicate 4 (.move 0),
    .call (.hub .teardown) :: List.replicate 9 (.move 1),
    List.replicate 9 (.move 0)]

theorem lawful_iff_of_run_tornDownMeanwhile :
    ∃ (run : List (Calls Unit)) (last : Calls Unit),
      run.IsChain (Pool.Step (rules (fun _ _ _ _ => True) WaitsFor)) ∧
      run.head? = some ⟨{}, (), []⟩ ∧ run.getLast? = some last ∧ last.AtRest ∧
      ¬Lawful last.state := by
  have hplay : (Pool.play ⟨Operation.process, fun _ _ => (.error .noSubscribers, ()),
      fun _ q => !q.isDone && !records q⟩ (fun _ _ => true)
      tornDownMeanwhile ⟨({} : Core), (), []⟩).any fun run => run.getLast?.any fun last =>
        (∀ call ∈ last.calls, call.2.Returned) ∧ (last.state.hub.chip ⟨0⟩).registered = true ∧
          ¬InTime ⟨0⟩ run := by
    decide +kernel
  obtain ⟨run, hturns, hends⟩ := (Option.any_eq_true ..).mp hplay
  obtain ⟨last, hlast, hends⟩ := (Option.any_eq_true ..).mp hends
  obtain ⟨hrest, hreg, hlate⟩ := of_decide_eq_true hends
  have hfree : ∀ p q : CoreProcess Outcome, (!q.isDone && !records q) = false → ¬WaitsFor p q := by
    rintro p q hq ⟨id, -, hholds⟩
    rw [Bool.and_eq_false_iff, Bool.not_eq_false', Bool.not_eq_false'] at hq
    rcases hq with hdone | hrecords
    · obtain ⟨outcome, rfl⟩ := Process.returned_of_isDone hdone
      cases hholds
    · exact not_holds_of_records hrecords hholds
  obtain ⟨hrun, hfirst⟩ := Pool.isChain_of_play
    (R := Pool.Step (rules (fun _ _ _ _ => True) WaitsFor))
    (fun turn pool next hturn _ => Pool.step_of_turn? rfl (fun _ _ => trivial) hfree hturn) hturns
  refine ⟨run, last, hrun, hfirst, hlast, hrest, fun hlawful => ?_⟩
  exact hlate ((lawful_iff_of_run hrun hfirst hlast hrest).1.mp hlawful ⟨0⟩ hreg)

end Run

end GpioBridge.Core
