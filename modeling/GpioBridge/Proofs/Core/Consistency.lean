import GpioBridge.Proofs.Core.Alignment
import GpioBridge.Proofs.Hub.Marks
import GpioBridge.Proofs.Process.Play

namespace GpioBridge.Core

open Hub (Stage)

-- What consumers are shown is what the hub has registered.
structure Consistent (core : Core) : Prop where
  keyed : ∀ {uid id}, core.hub.find? uid = some id →
    uid ≠ broadcastUid ∧ (core.hub.chip id).uid = uid
  present : ∀ {uid id}, core.hub.find? uid = some id → (core.hub.chip id).retired = false
  marked : ∀ {uid id}, core.hub.find? uid = some id →
    ((core.hub.chip id).registered = true ↔ ((core.hub.chip id).handle).isSome = true)
  ready : ∀ {uid id}, core.hub.find? uid = some id → (core.hub.chip id).registered = true →
    (core.hub.chip id).initialized = true
  -- A registered chip is exposed as it is, under its handle, and serves its own lines.
  exposed : ∀ {uid id}, core.hub.find? uid = some id → (core.hub.chip id).registered = true →
    ∃ handle exposed, (core.hub.chip id).handle = some handle ∧
      core.table.exposure? handle = some exposed ∧
      exposed.descriptor = (core.hub.chip id).descriptor ∧ exposed.ops = id
  -- Whatever is exposed is a registered chip, under its handle.
  registered : ∀ exposed ∈ core.table.chips,
    core.hub.find? exposed.descriptor.uid = some exposed.ops ∧
      (core.hub.chip exposed.ops).registered = true ∧
      (core.hub.chip exposed.ops).handle = some exposed.handle ∧
      core.table.exposure? exposed.handle = some exposed
  -- No chip is exposed twice.
  once : (core.table.chips.map (·.ops)).Nodup
  -- Every chip ever made was exposed at some time, under the next handle.
  counted : core.table.nextHandle.toNat = core.hub.chips.length

theorem Aligned.exposure?_eq {g : Stage} {core : Core} (ha : Aligned g core)
    {exposed : Exposed ChipId} (he : exposed ∈ core.table.chips) :
    core.table.exposure? exposed.handle = some exposed := by
  unfold LineTable.exposure?
  cases hf : core.table.chips.find? (·.handle == exposed.handle) with
  | none => exact absurd (List.find?_eq_none.mp hf exposed he) (by simp)
  | some found =>
    have hsame : found.handle = exposed.handle := by simpa using List.find?_some hf
    rw [ha.eq_of_handle (List.mem_of_find?_eq_some hf) he hsame]

theorem consistent_of_aligned {core : Core} (ha : Aligned .plain core) : Consistent core where
  keyed h := ⟨(ha.mapped h).2.1, (ha.mapped h).2.2.1⟩
  present h := (ha.mapped h).2.2.2.1
  marked h := (ha.mapped h).2.2.2.2
  ready h hr := (ha.ready h hr).resolve_left fun h => h
  exposed h hr := by
    obtain ⟨handle, hh⟩ := Option.isSome_iff_exists.mp ((ha.mapped h).2.2.2.2.mp hr)
    obtain ⟨exposed, he, rfl, hd, ho⟩ := (ha.exposed h hh).resolve_left fun h => h
    exact ⟨exposed.handle, exposed, hh, ha.exposure?_eq he, hd, ho⟩
  registered exposed he := by
    obtain ⟨hf, hh⟩ := ha.known exposed he
    have hr := (ha.mapped hf).2.2.2.2.mpr (by rw [hh]; rfl)
    exact ⟨hf, hr, hh, ha.exposure?_eq he⟩
  once := by
    refine List.Nodup.map_on (fun exposed he other ho heq => ?_) (List.Nodup.of_map _ ha.distinct)
    have hh := (ha.known exposed he).2
    rw [heq, (ha.known other ho).2] at hh
    exact ha.eq_of_handle he ho (Option.some.inj hh).symm
  counted := ha.counted

-- The calls under way and the core agree: at most one call changes which chips there are, and the
-- core is as its stage has it.
structure InStep (calls : List (Operation × Stage)) (core : Core) : Prop where
  busy : ∀ call ∈ calls, call.2.idle = false → Aligned call.2 core
  free : (∀ call ∈ calls, call.2.idle = true) → Aligned .plain core
  idle : ∀ call ∈ calls, call.1.isLifecycle = false → call.2.idle = true

theorem InStep.ne_failed {calls : List (Operation × Stage)} {core : Core} (h : InStep calls core) :
    ∀ call ∈ calls, call.2 ≠ .failed := by
  intro call hcall heq
  have hbusy := h.busy call hcall (by rw [heq]; rfl)
  rw [heq] at hbusy
  exact hbusy.relies

def Exclusive (calls : List (Operation × Stage)) : Prop :=
  calls.Pairwise fun call other => call.2.idle = true ∨ other.2.idle = true

theorem Operation.idle_stage {operation : Operation} (h : operation.isLifecycle = false) :
    operation.stage.idle = true := by
  cases operation with
  | request | release => rfl
  | hub operation => cases operation <;> first | rfl | cases h

theorem Operation.stage_ne_failed (operation : Operation) : operation.stage ≠ .failed := by
  cases operation with
  | request | release => exact nofun
  | hub operation =>
    cases operation with
    | register r =>
      unfold stage Hub.Operation.stage Stage.ofRegistration
      simp only
      split <;> simp
    | _ => exact nofun

theorem idle_of_exclusive {before after : List (Operation × Stage)} {call : Operation × Stage}
    (h : Exclusive (before ++ call :: after)) (hc : call.2.idle = false) :
    ∀ other ∈ before ++ after, other.2.idle = true := by
  obtain ⟨-, hafter, hbefore⟩ := List.pairwise_append.mp h
  intro other hother
  rcases List.mem_append.mp hother with hother | hother
  · exact (hbefore other hother call List.mem_cons_self).resolve_right (by simp [hc])
  · exact ((List.pairwise_cons.mp hafter).1 other hother).resolve_left (by simp [hc])

variable {τ : Type} {answers : Message → τ → Except TransportFault Unit → τ → Prop}
  {waits : Stage → Stage → Prop} {core core' : Core} {t t' : τ}

theorem InStep.call {calls : List (Operation × Stage)} (h : InStep calls core) {operation : Operation}
    (hx : Exclusive (calls ++ [(operation, operation.stage)])) :
    InStep (calls ++ [(operation, operation.stage)]) core where
  busy call hcall hbusy := by
    rcases List.mem_append.mp hcall with hcall | hcall
    · exact h.busy call hcall hbusy
    · obtain rfl := List.mem_singleton.mp hcall
      have hothers := idle_of_exclusive hx hbusy
      rw [List.append_nil] at hothers
      exact aligned_stage (h.free hothers) operation
  free hfree := h.free fun call hcall => hfree call (List.mem_append_left _ hcall)
  idle call hcall hl := by
    rcases List.mem_append.mp hcall with hcall | hcall
    · exact h.idle call hcall hl
    · obtain rfl := List.mem_singleton.mp hcall
      exact Operation.idle_stage hl

-- Where nothing changes the chips, every stage stays as good as it was.
theorem InStep.alike {before after : List (Operation × Stage)} {operation : Operation} {g g' : Stage}
    (h : InStep (before ++ (operation, g) :: after) core) (hg : g.idle = true) (hg' : g'.idle = true)
    (halike : Alike core core') : InStep (before ++ (operation, g') :: after) core' where
  busy call hcall hbusy := by
    refine aligned_of_alike halike (h.busy call ?_ hbusy)
    rcases List.mem_append.mp hcall with hcall | hcall
    · exact List.mem_append_left _ hcall
    rcases List.mem_cons.mp hcall with rfl | hcall
    · rw [hg'] at hbusy
      cases hbusy
    · exact List.mem_append_right _ (List.mem_cons_of_mem _ hcall)
  free hfree := by
    refine aligned_of_alike halike (h.free fun call hcall => ?_)
    rcases List.mem_append.mp hcall with hcall | hcall
    · exact hfree call (List.mem_append_left _ hcall)
    rcases List.mem_cons.mp hcall with rfl | hcall
    · exact hg
    · exact hfree call (List.mem_append_right _ (List.mem_cons_of_mem _ hcall))
  idle call hcall hl := by
    rcases List.mem_append.mp hcall with hcall | hcall
    · exact h.idle call (List.mem_append_left _ hcall) hl
    rcases List.mem_cons.mp hcall with rfl | hcall
    · exact hg'
    · exact h.idle call (List.mem_append_right _ (List.mem_cons_of_mem _ hcall)) hl

-- The one call that changes the chips takes the core along.
theorem InStep.step {before after : List (Operation × Stage)} {operation : Operation} {g g' : Stage}
    {change : Core → Core} (h : InStep (before ++ (operation, g) :: after) core)
    (hx : Exclusive (before ++ (operation, g) :: after)) (hs : Steps g change core g')
    (hb : core.hub.chips.length < 2 ^ 64) :
    InStep (before ++ (operation, g') :: after) (change core) := by
  by_cases hg : g.idle = true
  · obtain ⟨halike, hg'⟩ := alike_of_steps hs hg
    exact h.alike hg hg' halike
  rw [Bool.not_eq_true] at hg
  have hmem : (operation, g) ∈ before ++ (operation, g) :: after := by simp
  have hothers := idle_of_exclusive hx hg
  have haligned := aligned_of_steps hs (h.busy _ hmem hg) hb
  -- Every call but the one that moves is idle.
  have hcases : ∀ call ∈ before ++ (operation, g') :: after,
      call = (operation, g') ∨ call.2.idle = true := by
    intro call hcall
    rcases List.mem_append.mp hcall with hcall | hcall
    · exact .inr (hothers call (List.mem_append_left _ hcall))
    rcases List.mem_cons.mp hcall with rfl | hcall
    · exact .inl rfl
    · exact .inr (hothers call (List.mem_append_right _ hcall))
  constructor
  · intro call hcall hbusy
    rcases hcases call hcall with rfl | hidle
    · exact haligned
    · rw [hidle] at hbusy
      cases hbusy
  · intro hfree
    exact aligned_idle (hfree (operation, g') (by simp)) rfl haligned
  · intro call hcall hl
    rcases hcases call hcall with rfl | hidle
    · have hold := h.idle _ hmem hl
      simp only [hg] at hold
      cases hold
    · exact hidle

theorem InStep.advance {calls calls' : List (Operation × Stage)} (h : InStep calls core)
    (hx : Exclusive calls)
    (hstep : plan.Advances answers Operation.stage waits calls core t calls' core' t')
    (hx' : ∀ operation : Operation, calls' = calls ++ [(operation, operation.stage)] →
      Exclusive calls')
    (hb : core.hub.chips.length < 2 ^ 64) : InStep calls' core' := by
  cases hstep with
  | call operation => exact h.call (hx' operation rfl)
  | note => exact h
  | move hgoes _ =>
    cases hgoes with
    | step hs => exact h.step hx hs hb
    | ask hs _ =>
      cases hs with
      | send => exact h

-- The call changes which chips there are and has not returned.
def Changing (call : Operation × CoreProcess Outcome) : Prop :=
  call.1.isLifecycle = true ∧ ¬call.2.Returned

instance (call : Operation × CoreProcess Outcome) : Decidable (Changing call) :=
  inferInstanceAs (Decidable (_ ∧ _))

theorem changing_of_follows {call : Operation × CoreProcess Outcome} {g : Stage}
    (h : call.2.Follows plan Ended g) (hl : call.1.isLifecycle = true) (hg : g.idle = false)
    (hf : g ≠ .failed) : Changing call := by
  refine ⟨hl, fun ⟨outcome, houtcome⟩ => ?_⟩
  rw [houtcome] at h
  cases h with
  | done hended =>
    cases hended with
    | hub hended =>
      cases hended with
      | plain | recorded => cases hg
      | failed => exact hf rfl
    | requested | released => cases hg

theorem exclusive_of_stands {calls : List (Operation × CoreProcess Outcome)}
    {stages : List (Operation × Stage)} (h : plan.Stands Ended calls stages)
    (halone : calls.Pairwise fun call other => ¬(Changing call ∧ Changing other))
    (hidle : ∀ stage ∈ stages, stage.1.isLifecycle = false → stage.2.idle = true)
    (hfailed : ∀ stage ∈ stages, stage.2 ≠ .failed) : Exclusive stages := by
  have hbusy : ∀ {call : Operation × CoreProcess Outcome} {stage : Operation × Stage},
      stage ∈ stages → call.1 = stage.1 ∧ call.2.Follows plan Ended stage.2 →
      stage.2.idle = false → Changing call := by
    intro call stage hmem ⟨hsame, hfollows⟩ hb
    have hl : call.1.isLifecycle = true := by
      by_contra hl
      rw [Bool.not_eq_true, hsame] at hl
      rw [hidle stage hmem hl] at hb
      cases hb
    exact changing_of_follows hfollows hl hb (hfailed stage hmem)
  refine h.pairwise halone fun hs hs' hc hc' hnot => ?_
  by_contra hboth
  rw [not_or, Bool.not_eq_true, Bool.not_eq_true] at hboth
  exact hnot ⟨hbusy hs hc hboth.1, hbusy hs' hc' hboth.2⟩

-- Chips are never forgotten.
theorem length_le_of_steps {g g' : Stage} {change : Core → Core} (h : Steps g change core g') :
    core.hub.chips.length ≤ (change core).hub.chips.length := by
  cases h with
  | hub h => exact Hub.length_le_of_steps h
  | _ => exact Nat.le_refl _

-- A step after which at most one call that changes the chips is under way.
structure Solo (rules : Pool.Rules Core τ Message (fun _ => Except TransportFault Unit) Operation
    Outcome) (pool next : Calls τ) : Prop where
  step : Pool.Step rules pool next
  alone : next.calls.Pairwise fun call other => ¬(Changing call ∧ Changing other)

variable {processWaits : CoreProcess Outcome → CoreProcess Outcome → Prop}
  {limit : Option Nat} {patience : UInt64} {around : τ} {last : Calls τ}

theorem inStep_empty (limit : Option Nat) (patience : UInt64) :
    InStep [] { hub := { limit, patience } } where
  busy call h := by cases h
  free _ := aligned_empty limit patience
  idle call h := by cases h

theorem length_le_of_advances {calls calls' : List (Operation × Stage)}
    (h : plan.Advances answers Operation.stage waits calls core t calls' core' t') :
    core.hub.chips.length ≤ core'.hub.chips.length := by
  cases h with
  | call | note => exact Nat.le_refl _
  | move hgoes _ =>
    cases hgoes with
    | step hs => exact length_le_of_steps hs
    | ask => exact Nat.le_refl _

theorem inStep_of_run
    (hrun : Relation.ReflTransGen (Solo (rules answers processWaits))
      ⟨{ hub := { limit, patience } }, around, []⟩ last) :
    ∃ stages, plan.Stands Ended last.calls stages ∧
      (last.state.hub.chips.length < 2 ^ 64 → InStep stages last.state ∧ Exclusive stages) := by
  induction hrun with
  | refl => exact ⟨[], .nil, fun _ => ⟨inStep_empty limit patience, .nil⟩⟩
  | @tail pool next _ hsolo ih =>
    obtain ⟨hstep, halone⟩ := hsolo
    obtain ⟨stages, hstands, hin⟩ := ih
    obtain ⟨stages', hstands', hadvances⟩ := Plan.advances_of_step (w := fun _ _ => False)
      follows_process (fun _ _ h _ _ => h.elim) hstep hstands
    refine ⟨stages', hstands', fun hb => ?_⟩
    have hroom := Nat.lt_of_le_of_lt (length_le_of_advances hadvances) hb
    obtain ⟨hin, hx⟩ := hin hroom
    have hin' : InStep stages' next.state := by
      refine hin.advance hx hadvances (fun operation heq => ?_) hroom
      subst heq
      refine exclusive_of_stands hstands' halone (fun stage hstage hl => ?_) fun stage hstage => ?_
      · rcases List.mem_append.mp hstage with hstage | hstage
        · exact hin.idle stage hstage hl
        · obtain rfl := List.mem_singleton.mp hstage
          exact Operation.idle_stage hl
      · rcases List.mem_append.mp hstage with hstage | hstage
        · exact hin.ne_failed stage hstage
        · obtain rfl := List.mem_singleton.mp hstage
          exact operation.stage_ne_failed
    exact ⟨hin', exclusive_of_stands hstands' halone hin'.idle hin'.ne_failed⟩

theorem consistent_of_quiet {stages : List (Operation × Stage)}
    (hstands : plan.Stands Ended last.calls stages) (hin : InStep stages last.state)
    (hquiet : ∀ call ∈ last.calls, ¬Changing call) : Consistent last.state := by
  refine consistent_of_aligned (hin.free fun stage hstage => ?_)
  obtain ⟨call, hcall, hsame, hfollows⟩ := hstands.exists_call hstage
  by_contra hbusy
  rw [Bool.not_eq_true] at hbusy
  by_cases hl : stage.1.isLifecycle = true
  · rw [← hsame] at hl
    exact hquiet call hcall (changing_of_follows hfollows hl hbusy (hin.ne_failed stage hstage))
  · rw [Bool.not_eq_true] at hl
    rw [hin.idle stage hstage hl] at hbusy
    cases hbusy

-- Between lifecycle operations the core is consistent. So the table never has a reason to refuse a
-- chip, and no registration fails on that account.
theorem consistent_of_run
    (hrun : Relation.ReflTransGen (Solo (rules answers processWaits))
      ⟨{ hub := { limit, patience } }, around, []⟩ last)
    (hb : last.state.hub.chips.length < 2 ^ 64)
    (hquiet : ∀ call ∈ last.calls, ¬Changing call) :
    Consistent last.state ∧
      ∀ call ∈ last.calls, ∀ detail,
        call.2 ≠ .done (.hub (.chip (.error (.framework detail)))) := by
  obtain ⟨stages, hstands, hin⟩ := inStep_of_run hrun
  obtain ⟨hin, -⟩ := hin hb
  refine ⟨consistent_of_quiet hstands hin hquiet, fun call hcall detail heq => ?_⟩
  obtain ⟨stage, hstage, -, hfollows⟩ := hstands.exists_stage hcall
  rw [heq] at hfollows
  cases hfollows with
  | done hended =>
    generalize hat : stage.2 = g at hended
    cases hended with
    | hub hended =>
      cases hended with
      | plain hne => exact hne detail rfl
      | failed => exact hin.ne_failed stage hstage hat

-- Plays turns, but no two lifecycle operations at a time. Nobody listens.
def playAlone (turns : List (Pool.Turn Operation)) : Option (List (Calls Unit)) :=
  Pool.play ⟨Operation.process, fun _ _ => (.error .noSubscribers, ()), fun _ _ => false⟩
    (fun _ next => next.calls.Pairwise fun call other => ¬(Changing call ∧ Changing other))
    turns ⟨{}, (), []⟩

theorem reaches_of_playAlone {turns : List (Pool.Turn Operation)} {run : List (Calls Unit)}
    {last : Calls Unit} (h : playAlone turns = some run) (hlast : run.getLast? = some last) :
    Relation.ReflTransGen (Solo (rules (fun _ _ _ _ => True) fun _ _ => False)) ⟨{}, (), []⟩
      last := by
  refine Pool.reaches_of_play (fun turn pool next hturn hcheck => ?_) h hlast
  exact ⟨Pool.step_of_turn? rfl (fun _ _ => trivial) (fun _ _ _ => not_false) hturn,
    of_decide_eq_true hcheck⟩

-- A line is taken, so its chip is withdrawn only when the line is given back; then the chip comes
-- a second time.
def secondComing : List (Pool.Turn Operation) :=
  List.flatten [
    .call (.hub (.register ⟨5, "relay", 1, ["coil"]⟩)) :: List.replicate 9 (.move 0),
    .call (.request 5 0 "valve") :: List.replicate 9 (.move 1),
    .call (.hub (.withdraw 5)) :: List.replicate 9 (.move 2),
    .call (.release 5 0) :: List.replicate 14 (.move 3),
    .call (.hub (.withdraw 5)) :: List.replicate 9 (.move 4),
    .call (.hub (.register ⟨5, "relay", 1, ["coil"]⟩)) :: List.replicate 9 (.move 5)]

theorem consistent_of_run_secondComing :
    ∃ last : Calls Unit,
      Relation.ReflTransGen (Solo (rules (fun _ _ _ _ => True) fun _ _ => False)) ⟨{}, (), []⟩ last ∧
      last.state.hub.chips.length = 2 ∧ last.state.table.chips.length = 1 ∧
      Consistent last.state := by
  have hplay : (playAlone secondComing).any fun run => run.getLast?.any fun last =>
        (∀ call ∈ last.calls, call.2.Returned) ∧ last.state.hub.chips.length = 2 ∧
          last.state.table.chips.length = 1 := by
    decide +kernel
  obtain ⟨run, hturns, hends⟩ := (Option.any_eq_true ..).mp hplay
  obtain ⟨last, hlast, hends⟩ := (Option.any_eq_true ..).mp hends
  obtain ⟨hreturned, hmade, hshown⟩ := of_decide_eq_true hends
  have hquiet : ∀ call ∈ last.calls, ¬Changing call := fun call hcall h => h.2 (hreturned call hcall)
  have hb : last.state.hub.chips.length < 2 ^ 64 := by omega
  have hrun := reaches_of_playAlone hturns hlast
  exact ⟨last, hrun, hmade, hshown, (consistent_of_run hrun hb hquiet).1⟩

end GpioBridge.Core
