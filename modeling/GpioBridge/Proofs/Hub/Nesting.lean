import GpioBridge.Proofs.Hub.Order

namespace GpioBridge.Hub

namespace Stage

-- A call at this stage goes on by itself to change which chips there are.
def works : Stage → Bool
  | plain | awaiting _ _ | dispatching _ | recorded _ | failed => false
  | offering _ _ _ | scanning _ _ | concealing _ _ _ => false
  | _ => true

-- The chip a withdrawal has found and has not locked yet.
def seeks : Stage → Option ChipId
  | found id | suspending id => some id
  | _ => none

-- The chip a withdrawal keeps from taking line operations.
def stops : Stage → Option ChipId
  | scanning id _ | releasing id => some id
  | _ => none

theorem not_idle_of_works {g : Stage} (h : g.works = true) : g.idle = false := by
  cases g <;> first | rfl | cases h

theorem works_of_seeks {g : Stage} {id : ChipId} (h : g.seeks = some id) : g.works = true := by
  cases g <;> first | rfl | cases h

theorem holds_of_stops {g : Stage} {id : ChipId} (h : g.stops = some id) :
    g.holds = some id ∧ g.withdraws = some id := by
  cases g <;> first | exact ⟨h, h⟩ | cases h

end Stage

theorem Operation.idle_stage {operation : Operation} (h : operation.isLifecycle = false) :
    operation.stage.idle = true := by
  cases operation <;> first | rfl | cases h

-- The call changes which chips there are, and nothing keeps it from going on.
def AtWork (call : Operation × HubProcess Outcome) : Prop :=
  call.1.isLifecycle = true ∧ ¬call.2.Paused

instance (call : Operation × HubProcess Outcome) : Decidable (AtWork call) :=
  inferInstanceAs (Decidable (_ ∧ _))

theorem atWork_of_follows {call : Operation × HubProcess Outcome} {g : Stage}
    (h : call.2.Follows plan Ended g) (hl : call.1.isLifecycle = true) (hg : g.works = true) :
    AtWork call := by
  refine ⟨hl, ?_⟩
  rintro (⟨outcome, houtcome⟩ | ⟨demand, next, hnext⟩)
  · rw [houtcome] at h
    cases h with
    | done hended => cases hended <;> cases hg
  · rw [hnext] at h
    cases h with
    | ask onward ht _ =>
      obtain ⟨answer⟩ := exists_answer demand
      have ha := ht answer
      generalize onward answer = g' at ha
      cases ha <;> cases hg

variable {τ : Type} {answers : (demand : Demand) → τ → demand.Answer → τ → Prop}

-- A step after which at most one of the calls that change the chips goes on by itself.
structure Nested (rules : Pool.Rules Hub τ Demand Demand.Answer Operation Outcome)
    (pool next : Pool Hub τ Demand Demand.Answer Operation Outcome) : Prop where
  step : Pool.Step rules pool next
  alone : next.calls.Pairwise fun call other => ¬(AtWork call ∧ AtWork other)

-- What is known of the calls on a hub that come nested.
structure Tidy (hub : Hub) (stages : List (Operation × Stage)) : Prop where
  ordered : Ordered hub (stages.map (·.2))
  idle : ∀ stage ∈ stages, stage.1.isLifecycle = false → stage.2.idle = true
  alone : stages.Pairwise fun stage other => ¬(stage.2.works = true ∧ other.2.works = true)

theorem idle_of_advances {hub hub' : Hub} {t t' : τ} {calls calls' : List (Operation × Stage)}
    {waits : Stage → Stage → Prop}
    (h : ∀ stage ∈ calls, stage.1.isLifecycle = false → stage.2.idle = true)
    (hstep : plan.Advances answers Operation.stage waits calls hub t calls' hub' t') :
    ∀ stage ∈ calls', stage.1.isLifecycle = false → stage.2.idle = true := by
  cases hstep with
  | call operation =>
    intro stage hs hl
    rcases List.mem_append.mp hs with hs | hs
    · exact h stage hs hl
    · obtain rfl := List.mem_singleton.mp hs
      exact Operation.idle_stage hl
  | note => exact h
  | @move before after i g g' _ _ _ _ hgoes _ =>
    intro stage hs hl
    rcases List.mem_cons.mp (List.perm_middle.mem_iff.mp hs) with rfl | hs
    · have hidle := h (i, g) (by simp) hl
      cases hgoes with
      | step hstep => exact (Stage.outline_of_steps hstep hidle).2
      | ask ha _ => cases ha <;> first | rfl | cases hidle
    · exact h stage (List.perm_middle.mem_iff.mpr (List.mem_cons_of_mem _ hs)) hl

theorem Tidy.step {pool next : Pool Hub τ Demand Demand.Answer Operation Outcome}
    {stages stages' : List (Operation × Stage)} (h : Tidy pool.state stages)
    (hadvances : plan.Advances answers Operation.stage Stage.WaitsFor stages pool.state pool.around
      stages' next.state next.around)
    (hstands' : plan.Stands Ended next.calls stages')
    (halone : next.calls.Pairwise fun call other => ¬(AtWork call ∧ AtWork other)) :
    Tidy next.state stages' := by
  have hidle := idle_of_advances h.idle hadvances
  have hwork : ∀ {call : Operation × HubProcess Outcome} {stage : Operation × Stage},
      stage ∈ stages' → call.1 = stage.1 ∧ call.2.Follows plan Ended stage.2 →
      stage.2.works = true → AtWork call := by
    intro call stage hmem ⟨hsame, hfollows⟩ hworks
    refine atWork_of_follows hfollows ?_ hworks
    by_contra hl
    rw [Bool.not_eq_true, hsame] at hl
    have hnotIdle := Stage.not_idle_of_works hworks
    rw [hidle stage hmem hl] at hnotIdle
    cases hnotIdle
  refine ⟨h.ordered.advance hadvances, hidle, hstands'.pairwise halone ?_⟩
  exact fun hs hs' hc hc' hnot hboth => hnot ⟨hwork hs hc hboth.1, hwork hs' hc' hboth.2⟩

theorem tidy_empty (limit : Option Nat) (patience : UInt64) : Tidy { limit, patience } [] where
  ordered := ordered_empty limit patience
  idle _ h := by cases h
  alone := .nil

theorem tidy_of_run {limit : Option Nat} {patience : UInt64} {around : τ}
    {last : Pool Hub τ Demand Demand.Answer Operation Outcome}
    (hrun : Relation.ReflTransGen (Nested (rules answers WaitsFor))
      ⟨{ limit, patience }, around, []⟩ last) :
    ∃ stages, plan.Stands Ended last.calls stages ∧ Tidy last.state stages := by
  induction hrun with
  | refl => exact ⟨[], .nil, tidy_empty limit patience⟩
  | tail _ hnested ih =>
    obtain ⟨stages, hstands, htidy⟩ := ih
    obtain ⟨stages', hstands', hadvances⟩ :=
      Plan.advances_of_step follows_process waitsFor_of_follows hnested.step hstands
    exact ⟨stages', hstands', htidy.step hadvances hstands' hnested.alone⟩

end GpioBridge.Hub
