import GpioBridge.Proofs.Hub.Stage
import GpioBridge.Proofs.Hub.Unclaimed
import GpioBridge.Proofs.Process.Play

namespace GpioBridge

-- No counter started over on the way.
structure Counters.Grow (before after : Counters) : Prop where
  sent : before.sent ≤ after.sent
  timedOut : before.timedOut ≤ after.timedOut
  dispatched : before.dispatched ≤ after.dispatched
  dropped : before.dropped ≤ after.dropped

instance (before after : Counters) : Decidable (before.Grow after) :=
  decidable_of_iff (before.sent ≤ after.sent ∧ before.timedOut ≤ after.timedOut ∧
      before.dispatched ≤ after.dispatched ∧ before.dropped ≤ after.dropped)
    ⟨fun ⟨hs, ht, hd, hp⟩ => ⟨hs, ht, hd, hp⟩, fun ⟨hs, ht, hd, hp⟩ => ⟨hs, ht, hd, hp⟩⟩

namespace Hub

namespace Stage

-- How many signals a call at this stage has still to take.
def signals : Stage → Nat
  | awaiting _ _ => 1
  | _ => 0

-- How many messages a call at this stage has still to deliver.
def messages : Stage → Nat
  | dispatching _ => 1
  | _ => 0

-- Nothing is open at this stage.
def Square (g : Stage) : Prop := g.signals = 0 ∧ g.messages = 0

theorem square_ofEnlistment (r : Registration) (enlistment : Enlistment) :
    (ofEnlistment r enlistment).Square := by
  unfold ofEnlistment
  split <;> exact ⟨rfl, rfl⟩

theorem square_ofExposure (r : Registration) (id : ChipId) (answer : Except Fault Handle) :
    (ofExposure r id answer).Square := by
  cases answer <;> exact ⟨rfl, rfl⟩

theorem square_ofFind (found : Option ChipId) : (ofFind found).Square := by
  cases found <;> exact ⟨rfl, rfl⟩

theorem square_ofFound (id : ChipId) (registered : Bool) : (ofFound id registered).Square := by
  cases registered <;> exact ⟨rfl, rfl⟩

theorem square_ofSuspension (id : ChipId) (suspension : Suspension) :
    (ofSuspension id suspension).Square := by
  cases suspension <;> exact ⟨rfl, rfl⟩

theorem square_ofHandle (id : ChipId) (rest : List ChipId) (handle : Option Handle) :
    (ofHandle id rest handle).Square := by
  cases handle <;> exact ⟨rfl, rfl⟩

theorem square_ofList (ids : List ChipId) : (ofList ids).Square := by
  cases ids <;> exact ⟨rfl, rfl⟩

end Stage

theorem Operation.signals_stage (operation : Operation) : operation.stage.signals = 0 := by
  cases operation with
  | register r =>
    unfold Operation.stage Stage.ofRegistration
    simp only
    split <;> rfl
  | _ => rfl

theorem Operation.messages_stage (operation : Operation) :
    operation.stage.messages = if operation.isDispatch then 1 else 0 := by
  cases operation with
  | register r =>
    unfold Operation.stage Stage.ofRegistration
    simp only
    split <;> rfl
  | _ => rfl

-- What one move of a call does to the counts and to what it has still to do.
inductive Counts (g : Stage) (hub : Hub) (g' : Stage) (hub' : Hub) : Prop where
  | nothing (h : Uncounted hub hub') (hs : g'.signals = g.signals) (hm : g'.messages = g.messages)
  | sent (h : hub'.unclaimed = hub.unclaimed)
      (hc : hub'.counters = { hub.counters with sent := hub.counters.sent + 1 })
      (hs : g'.signals = g.signals + 1) (hm : g'.messages = g.messages)
  | timedOut (h : hub'.unclaimed = hub.unclaimed)
      (hc : hub'.counters = { hub.counters with timedOut := hub.counters.timedOut + 1 })
      (hs : g'.signals + 1 = g.signals) (hm : g'.messages = g.messages)
  | taken (h : hub'.unclaimed + 1 = hub.unclaimed) (hc : hub'.counters = hub.counters)
      (hs : g'.signals + 1 = g.signals) (hm : g'.messages = g.messages)
  | dropped (h : hub'.unclaimed = hub.unclaimed)
      (hc : hub'.counters = { hub.counters with dropped := hub.counters.dropped + 1 })
      (hs : g'.signals = g.signals) (hm : g'.messages + 1 = g.messages)
  | dispatched (h : hub'.unclaimed = hub.unclaimed + 1)
      (hc : hub'.counters = { hub.counters with dispatched := hub.counters.dispatched + 1 })
      (hs : g'.signals = g.signals) (hm : g'.messages + 1 = g.messages)

private theorem counts_of_square {g g' : Stage} {hub hub' : Hub} (h : Uncounted hub hub')
    (hg : g.Square) (hg' : g'.Square) : Counts g hub g' hub' :=
  .nothing h (hg'.1.trans hg.1.symm) (hg'.2.trans hg.2.symm)

theorem counts_of_steps {g g' : Stage} {change : Hub → Hub} {hub : Hub}
    (h : Stage.Steps g change hub g') (hcells : hub.NotFull) : Counts g hub g' (change hub) := by
  cases h with
  | look => exact .nothing ⟨rfl, rfl⟩ rfl rfl
  | count id pin => exact .sent rfl rfl rfl rfl
  | @collect id pin =>
    rcases collect_counts id pin hub with ⟨h, hc⟩ | ⟨h, hc⟩
    · exact .timedOut h hc rfl rfl
    · exact .taken h hc rfl rfl
  | setLevel id pin level =>
    exact .nothing (uncounted_modifyChip (by intro chip; rfl) id hub) rfl rfl
  | setLineDirection id pin direction =>
    exact .nothing (uncounted_modifyChip (by intro chip; rfl) id hub) rfl rfl
  | @deliver m =>
    rcases deliver_counts hcells m with ⟨h, hc⟩ | ⟨h, hc⟩
    · exact .dropped h hc rfl rfl
    · exact .dispatched h hc rfl rfl
  | @enlist r =>
    exact counts_of_square (uncounted_enlist r hub) ⟨rfl, rfl⟩ (Stage.square_ofEnlistment r _)
  | read => exact .nothing ⟨rfl, rfl⟩ rfl rfl
  | @confirm id handle =>
    exact .nothing (uncounted_modifyChip (by intro chip; rfl) id hub) rfl rfl
  | @unmap uid id => exact .nothing (uncounted_unmap uid id hub) rfl rfl
  | @abandon id => exact .nothing (uncounted_modifyChip (by intro chip; rfl) id hub) rfl rfl
  | find => exact counts_of_square ⟨rfl, rfl⟩ ⟨rfl, rfl⟩ (Stage.square_ofFind _)
  | @check id => exact counts_of_square ⟨rfl, rfl⟩ ⟨rfl, rfl⟩ (Stage.square_ofFound id _)
  | @suspend id =>
    exact counts_of_square (uncounted_suspend id hub) ⟨rfl, rfl⟩ (Stage.square_ofSuspension id _)
  | @resume id => exact .nothing (uncounted_modifyChip (by intro chip; rfl) id hub) rfl rfl
  | @release id => exact .nothing (uncounted_modifyChip (by intro chip; rfl) id hub) rfl rfl
  | drain => exact counts_of_square ⟨rfl, rfl⟩ ⟨rfl, rfl⟩ (Stage.square_ofList _)
  | @disable id rest =>
    exact counts_of_square (uncounted_modifyChip (by intro chip; rfl) id hub) ⟨rfl, rfl⟩
      (Stage.square_ofHandle id rest _)
  | @retire id rest =>
    exact counts_of_square (uncounted_modifyChip (by intro chip; rfl) id hub) ⟨rfl, rfl⟩
      (Stage.square_ofList rest)

theorem counts_of_asks {g g' : Stage} {demand : Demand} {answer : demand.Answer}
    (h : Stage.Asks g demand answer g') (hub : Hub) : Counts g hub g' hub := by
  cases h with
  | expose => exact counts_of_square ⟨rfl, rfl⟩ ⟨rfl, rfl⟩ (Stage.square_ofExposure _ _ _)
  | send | isHeld | withdrawn | concealed => exact .nothing ⟨rfl, rfl⟩ rfl rfl

private theorem toNat_add_one_of_le {n : UInt64} (h : n ≤ n + 1) :
    (n + 1).toNat = n.toNat + 1 := by
  have hlt := n.toNat_lt
  have hle := UInt64.le_iff_toNat_le.mp h
  rw [UInt64.toNat_add, UInt64.toNat_one] at hle ⊢
  omega

def openSignals (calls : List (Operation × Stage)) : Nat := (calls.map (·.2.signals)).sum

def openMessages (calls : List (Operation × Stage)) : Nat := (calls.map (·.2.messages)).sum

-- The counts of a hub agree with what its calls have still to do.
structure Balanced (calls : List (Operation × Stage)) (hub : Hub) : Prop where
  replies : hub.unclaimed + hub.counters.sent.toNat =
    hub.counters.dispatched.toNat + hub.counters.timedOut.toNat + openSignals calls
  waits : hub.counters.timedOut.toNat + openSignals calls ≤ hub.counters.sent.toNat
  messages : hub.counters.dispatched.toNat + hub.counters.dropped.toNat + openMessages calls =
    calls.countP (·.1.isDispatch)
  -- Only a call to dispatch a message delivers one.
  dispatches : ∀ call ∈ calls, call.1.isDispatch = false → call.2.messages = 0

theorem balanced_empty (limit : Option Nat) (patience : UInt64) :
    Balanced [] { limit, patience } where
  replies := rfl
  waits := Nat.le_refl 0
  messages := rfl
  dispatches := by simp

theorem Balanced.call {calls : List (Operation × Stage)} {hub : Hub} (h : Balanced calls hub)
    (operation : Operation) : Balanced (calls ++ [(operation, operation.stage)]) hub := by
  have hsignals : openSignals (calls ++ [(operation, operation.stage)]) = openSignals calls := by
    simp [openSignals, operation.signals_stage]
  have hmessages : openMessages (calls ++ [(operation, operation.stage)]) =
      openMessages calls + if operation.isDispatch then 1 else 0 := by
    simp [openMessages, operation.messages_stage]
  constructor
  · rw [hsignals]
    exact h.replies
  · rw [hsignals]
    exact h.waits
  · have hcount := h.messages
    simp only [hmessages, List.countP_append, List.countP_singleton]
    omega
  · intro call hcall hd
    rcases List.mem_append.mp hcall with hcall | hcall
    · exact h.dispatches call hcall hd
    · obtain rfl := List.mem_singleton.mp hcall
      simpa [hd] using operation.messages_stage

-- One move changes both sides of the balance alike.
theorem Counts.balance {g g' : Stage} {hub hub' : Hub} (h : Counts g hub g' hub')
    (hgrow : hub.counters.Grow hub'.counters) :
    hub'.unclaimed + hub'.counters.sent.toNat + (hub.counters.dispatched.toNat +
        hub.counters.timedOut.toNat + g.signals) =
      hub.unclaimed + hub.counters.sent.toNat + (hub'.counters.dispatched.toNat +
        hub'.counters.timedOut.toNat + g'.signals) ∧
    hub'.counters.timedOut.toNat + g'.signals + hub.counters.sent.toNat ≤
      hub.counters.timedOut.toNat + g.signals + hub'.counters.sent.toNat ∧
    hub'.counters.dispatched.toNat + hub'.counters.dropped.toNat + g'.messages =
      hub.counters.dispatched.toNat + hub.counters.dropped.toNat + g.messages ∧
    g'.messages ≤ g.messages := by
  obtain ⟨hsent, htimedOut, hdispatched, hdropped⟩ := hgrow
  cases h with
  | nothing hu hs hm =>
    obtain ⟨hu, hc⟩ := hu
    rw [hc]
    omega
  | sent hu hc hs hm =>
    rw [hc] at hsent ⊢
    have hadd := toNat_add_one_of_le hsent
    simp only
    omega
  | timedOut hu hc hs hm =>
    rw [hc] at htimedOut ⊢
    have hadd := toNat_add_one_of_le htimedOut
    simp only
    omega
  | taken hu hc hs hm =>
    rw [hc]
    omega
  | dropped hu hc hs hm =>
    rw [hc] at hdropped ⊢
    have hadd := toNat_add_one_of_le hdropped
    simp only
    omega
  | dispatched hu hc hs hm =>
    rw [hc] at hdispatched ⊢
    have hadd := toNat_add_one_of_le hdispatched
    simp only
    omega

theorem Balanced.move {before after : List (Operation × Stage)} {operation : Operation}
    {g g' : Stage} {hub hub' : Hub} (h : Balanced (before ++ (operation, g) :: after) hub)
    (hg : Counts g hub g' hub') (hgrow : hub.counters.Grow hub'.counters) :
    Balanced (before ++ (operation, g') :: after) hub' := by
  have hsignals : ∀ g, openSignals (before ++ (operation, g) :: after) =
      g.signals + openSignals before + openSignals after := by
    intro g
    simp only [openSignals, List.map_append, List.map_cons, List.sum_append, List.sum_cons]
    omega
  have hmessages : ∀ g, openMessages (before ++ (operation, g) :: after) =
      g.messages + openMessages before + openMessages after := by
    intro g
    simp only [openMessages, List.map_append, List.map_cons, List.sum_append, List.sum_cons]
    omega
  have hreplies := h.replies
  have hwaits := h.waits
  have hcount := h.messages
  obtain ⟨hreplies', hwaits', hcount', hless⟩ := hg.balance hgrow
  have hdispatches : ∀ call ∈ before ++ (operation, g') :: after,
      call.1.isDispatch = false → call.2.messages = 0 := by
    intro call hcall hd
    rcases List.mem_append.mp hcall with hcall | hcall
    · exact h.dispatches call (List.mem_append_left _ hcall) hd
    rcases List.mem_cons.mp hcall with rfl | hcall
    · have hzero := h.dispatches (operation, g) (by simp) hd
      simp only at hzero ⊢
      omega
    · exact h.dispatches call (List.mem_append_right _ (List.mem_cons_of_mem _ hcall)) hd
  simp only [hsignals, hmessages, List.countP_append, List.countP_cons] at hreplies hwaits hcount
  refine ⟨?_, ?_, ?_, hdispatches⟩
  · rw [hsignals]
    omega
  · rw [hsignals]
    omega
  · simp only [hmessages, List.countP_append, List.countP_cons]
    omega

variable {α τ : Type}

-- What the call does to the hub next is to look for the reply to a request that was sent.
def Awaits : HubProcess α → Prop
  | .note _ next => Awaits next
  | .step change _ => ∃ id pin, change = fun hub => (collect id pin hub).2
  | .done _ | .ask _ _ => False

theorem awaits_of_follows {p : HubProcess Outcome} {g : Stage} (h : p.Follows plan Ended g)
    (hg : g.signals ≠ 0) : Awaits p := by
  induction h with
  | done hended => cases hended <;> exact absurd rfl hg
  | note _ ih => exact ih hg
  | @step g change next onward ht _ _ =>
    have hstep := ht default
    generalize onward default = g' at hstep
    cases hstep with
    | @collect id pin => exact ⟨id, pin, rfl⟩
    | _ => exact absurd rfl hg
  | @ask g demand next onward ht _ _ =>
    obtain ⟨answer⟩ := exists_answer demand
    have hask := ht answer
    generalize onward answer = g' at hask
    cases hask with
    | _ => exact absurd rfl hg

-- The calls on a hub, whatever answers they get and however they wait for each other.
def rules (answers : (demand : Demand) → τ → demand.Answer → τ → Prop)
    (waits : HubProcess Outcome → HubProcess Outcome → Prop) :
    Pool.Rules Hub τ Demand Demand.Answer Operation Outcome :=
  { start := Operation.process, answers, waits }

-- A step at which no cell is full and no counter starts over.
structure Calm (rules : Pool.Rules Hub τ Demand Demand.Answer Operation Outcome)
    (pool next : Pool Hub τ Demand Demand.Answer Operation Outcome) : Prop where
  step : Pool.Step rules pool next
  cells : pool.state.NotFull
  counters : pool.state.counters.Grow next.state.counters

variable {answers : (demand : Demand) → τ → demand.Answer → τ → Prop}
  {waits : HubProcess Outcome → HubProcess Outcome → Prop}

theorem Balanced.advance {stageWaits : Stage → Stage → Prop} {calls calls' : List (Operation × Stage)}
    {hub hub' : Hub} {t t' : τ} (h : Balanced calls hub)
    (hstep : plan.Advances answers Operation.stage stageWaits calls hub t calls' hub' t')
    (hcells : hub.NotFull) (hgrow : hub.counters.Grow hub'.counters) : Balanced calls' hub' := by
  cases hstep with
  | call operation => exact h.call operation
  | note => exact h
  | move hgoes _ =>
    refine h.move ?_ hgrow
    cases hgoes with
    | step hs => exact counts_of_steps hs hcells
    | ask ha _ => exact counts_of_asks ha hub

theorem balanced_of_run {limit : Option Nat} {patience : UInt64} {around : τ}
    {last : Pool Hub τ Demand Demand.Answer Operation Outcome}
    (hrun : Relation.ReflTransGen (Calm (rules answers waits)) ⟨{ limit, patience }, around, []⟩
      last) :
    ∃ stages, plan.Stands Ended last.calls stages ∧ Balanced stages last.state := by
  induction hrun with
  | refl => exact ⟨[], .nil, balanced_empty limit patience⟩
  | tail _ hcalm ih =>
    obtain ⟨stages, hstands, hbalanced⟩ := ih
    obtain ⟨hstep, hcells, hgrow⟩ := hcalm
    obtain ⟨stages', hstands', hadvances⟩ := Plan.advances_of_step (w := fun _ _ => False)
      follows_process (fun _ _ h _ _ => h.elim) hstep hstands
    exact ⟨stages', hstands', hbalanced.advance hadvances hcells hgrow⟩

-- While no call waits for a reply, the replies that were dispatched are those that were taken, one
-- for each request that was sent and not given up, and those still to be found in a cell. Every
-- message given to dispatch was either dispatched or dropped.
theorem replies_conserved {limit : Option Nat} {patience : UInt64} {around : τ}
    {last : Pool Hub τ Demand Demand.Answer Operation Outcome}
    (hrun : Relation.ReflTransGen (Calm (rules answers waits)) ⟨{ limit, patience }, around, []⟩
      last)
    (hquiet : ∀ call ∈ last.calls, ¬Awaits call.2) :
    let counters := last.state.counters
    counters.timedOut ≤ counters.sent ∧
    counters.sent.toNat - counters.timedOut.toNat ≤ counters.dispatched.toNat ∧
    last.state.unclaimed =
      counters.dispatched.toNat - (counters.sent.toNat - counters.timedOut.toNat) ∧
    ((∀ call ∈ last.calls, call.1.isDispatch → call.2.Returned) →
      counters.dispatched.toNat + counters.dropped.toNat =
        last.calls.countP (·.1.isDispatch)) := by
  obtain ⟨stages, hstands, hbalanced⟩ := balanced_of_run hrun
  have hsignals : openSignals stages = 0 := by
    refine List.sum_eq_zero fun n hn => ?_
    obtain ⟨stage, hstage, rfl⟩ := List.mem_map.mp hn
    obtain ⟨call, hcall, -, hfollows⟩ := hstands.exists_call hstage
    by_contra hne
    exact hquiet call hcall (awaits_of_follows hfollows hne)
  have hreplies := hbalanced.replies
  have hwaits := hbalanced.waits
  have hcount := hbalanced.messages
  refine ⟨UInt64.le_iff_toNat_le.mpr (by omega), by omega, by omega, fun hreturned => ?_⟩
  have hmessages : openMessages stages = 0 := by
    refine List.sum_eq_zero fun n hn => ?_
    obtain ⟨stage, hstage, rfl⟩ := List.mem_map.mp hn
    obtain ⟨call, hcall, hsame, hfollows⟩ := hstands.exists_call hstage
    by_cases hd : stage.1.isDispatch = true
    · rw [← hsame] at hd
      obtain ⟨outcome, hended⟩ := ended_of_returned hfollows (hreturned call hcall hd)
      generalize stage.2 = g at hended ⊢
      cases hended <;> rfl
    · exact hbalanced.dispatches stage hstage (by simpa using hd)
  have hsame : last.calls.countP (·.1.isDispatch) = stages.countP (·.1.isDispatch) := by
    have hmap := congrArg (List.countP Operation.isDispatch) hstands.map_fst
    rwa [List.countP_map, List.countP_map] at hmap
  omega

-- Surroundings in which a bridge listens and every chip can be exposed.
def obliging : (demand : Demand) → Unit → demand.Answer × Unit
  | .send _, _ => ((.ok () : Except TransportFault Unit), ())
  | .expose _ _, _ => ((.ok ⟨0⟩ : Except Fault Handle), ())
  | .conceal _, _ => ((), ())
  | .isHeld _ _, _ => (false, ())

-- A level is set while its reply comes twice, once before the request is even counted as sent, and
-- a third reply comes when the chip is gone.
def repeatedReply : List (Pool.Turn Operation) :=
  List.flatten [
    .call (.register ⟨5, "relay", 1, ["coil"]⟩) :: List.replicate 9 (.move 0),
    .call (.setValue ⟨0⟩ 0 true) :: List.replicate 3 (.move 1),
    .call (.dispatch (.setValueReply 5 0 0)) :: List.replicate 9 (.move 2),
    List.replicate 9 (.move 1),
    .call (.dispatch (.setValueReply 5 0 0)) :: List.replicate 9 (.move 3),
    .call .teardown :: List.replicate 9 (.move 4),
    .call (.dispatch (.setValueReply 5 0 0)) :: List.replicate 9 (.move 5)]

theorem replies_conserved_repeatedReply :
    ∃ last : Pool Hub Unit Demand Demand.Answer Operation Outcome,
      Relation.ReflTransGen (Calm (rules (fun _ _ _ _ => True) fun _ _ => False)) ⟨{}, (), []⟩ last ∧
      (∀ call ∈ last.calls, call.2.Returned) ∧
      last.state.counters = { sent := 1, timedOut := 0, dispatched := 2, dropped := 1 } ∧
      last.state.unclaimed = 1 := by
  have hplay : (Pool.play ⟨Operation.process, obliging, fun _ _ => false⟩
      (fun pool next => pool.state.NotFull ∧ pool.state.counters.Grow next.state.counters)
      repeatedReply ⟨{}, (), []⟩).any fun run => run.getLast?.any fun last =>
        (∀ call ∈ last.calls, call.2.Returned) ∧
          last.state.counters = { sent := 1, timedOut := 0, dispatched := 2, dropped := 1 } := by
    decide +kernel
  obtain ⟨run, hturns, hends⟩ := (Option.any_eq_true ..).mp hplay
  obtain ⟨last, hlast, hends⟩ := (Option.any_eq_true ..).mp hends
  have hrun : Relation.ReflTransGen (Calm (rules (fun _ _ _ _ => True) fun _ _ => False))
      ⟨{}, (), []⟩ last := by
    refine Pool.reaches_of_play (fun turn pool next hturn hcheck => ?_) hturns hlast
    obtain ⟨hcells, hgrow⟩ := of_decide_eq_true hcheck
    exact ⟨Pool.step_of_turn? rfl (fun _ _ => trivial) (fun _ _ _ => not_false) hturn, hcells, hgrow⟩
  obtain ⟨hreturned, hcounters⟩ := of_decide_eq_true hends
  have hquiet : ∀ call ∈ last.calls, ¬Awaits call.2 := by
    intro call hcall hawaits
    obtain ⟨result, hresult⟩ := hreturned call hcall
    simp [hresult, Awaits] at hawaits
  obtain ⟨-, -, hunclaimed, -⟩ := replies_conserved hrun hquiet
  refine ⟨last, hrun, hreturned, hcounters, ?_⟩
  rw [hunclaimed, hcounters]
  rfl

end Hub

end GpioBridge
