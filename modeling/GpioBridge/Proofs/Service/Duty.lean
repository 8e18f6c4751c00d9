import GpioBridge.Proofs.Process.Play
import GpioBridge.Proofs.Process.Serve
import GpioBridge.Service.Basic

namespace GpioBridge.Service

open Process

-- A demand on the surroundings of a service and how it was answered.
abbrev Exchanged := (demand : ServiceDemand) × demand.Answer

-- A service that receives, its worker, and a record of how their demands were answered.
structure Duty where
  service : Service
  past : List Exchanged := []
  receiver : ServiceProcess (Except TransportFault Unit)
  worker : WorkerProcess Unit

namespace Duty

-- The queue is made and a worker is set to it before anything is received. No poll brings more than
-- one message, so the worker may have them all and still be told that no more will come.
def start (service : Service) (polls : Nat) : Duty where
  service := service.openQueue
  receiver := loop polls
  worker := working (polls + 1)

-- Whoever runs a service makes the queue and then does this.
example (polls : Nat) : run polls = .step openQueue fun _ => loop polls := rfl

-- Any answer may be given, but waiting for the worker is over only when the worker has ended.
def Answers (duty : Duty) (demand : ServiceDemand) (past : List Exchanged)
    (answer : demand.Answer) (past' : List Exchanged) : Prop :=
  past' = past ++ [⟨demand, answer⟩] ∧ (demand = .awaitWorker → duty.worker = .done ())

-- How the worker is answered. A queue gives what was put in first. An empty one says that no more
-- will come if it is closed, and nothing as long as it is open.
inductive Serves (isOpen : Bool) : (demand : WorkerDemand) → List Message × List Exchanged →
    demand.Answer → List Message × List Exchanged → Prop where
  | hub {demand answer queue past} :
      Serves isOpen (.hub demand) (queue, past) answer (queue, past ++ [⟨.hub demand, answer⟩])
  | next {m rest past} : Serves isOpen .next (m :: rest, past) (some m) (rest, past)
  | noMore {past} (hclosed : isOpen = false) : Serves isOpen .next ([], past) none ([], past)

-- The service may be told to stop at any moment, and the receiver and the worker move in any order.
inductive Step : Duty → Duty → Prop where
  | stop {duty : Duty} : Step duty { duty with service.running := false }
  | receive {duty : Duty} {service' past' receiver'}
      (h : duty.receiver.Moves duty.Answers duty.service duty.past receiver' service' past') :
      Step duty { duty with service := service', past := past', receiver := receiver' }
  | work {duty : Duty} {hub' queue' past' worker'}
      (h : duty.worker.Moves (Serves duty.service.queueOpen) duty.service.hub
        (duty.service.queue, duty.past) worker' hub' (queue', past')) :
      Step duty { duty with
        service := { duty.service with hub := hub', queue := queue' }
        past := past'
        worker := worker' }

section Course

variable {α β : Type} (reply : (demand : ServiceDemand) → List Exchanged → demand.Answer)
  (receiver : ServiceProcess (Except TransportFault Unit))

-- Surroundings that answer from what they were asked before, and do nothing else.
def recording : Surroundings Service (List Exchanged) ServiceDemand ServiceDemand.Answer where
  answer demand service past :=
    (reply demand past, service, past ++ [⟨demand, reply demand past⟩])
  hear _ past := past

def recordingHub : Surroundings Hub (List Exchanged) Demand Demand.Answer where
  answer demand hub past :=
    (reply (.hub demand) past, hub, past ++ [⟨.hub demand, reply (.hub demand) past⟩])
  hear _ past := past

-- What the worker has come to when it has carried something out.
theorem reaches_carryOut (p : HubProcess α) (f : α → WorkerProcess Unit) (service : Service)
    (past : List Exchanged) :
    Relation.ReflTransGen Step ⟨service, past, receiver, (carryOut p).bind f⟩
      ⟨{ service with hub := (p.run (recordingHub reply) service.hub past).2.1 },
        (p.run (recordingHub reply) service.hub past).2.2, receiver,
        f (p.run (recordingHub reply) service.hub past).1⟩ := by
  induction p generalizing service past with
  | done a => exact .refl
  | step change next ih => exact .head (.work .step) (ih service.hub _ past)
  | note event next ih => exact .head (.work .note) (ih service past)
  | ask demand next ih => exact .head (.work (.ask .hub)) (ih _ service _)

-- And what a service has come to that lets it do so.
theorem run_carryOut (p : HubProcess α) (f : α → WorkerProcess β) (service : Service)
    (past : List Exchanged) :
    (onQueue ((carryOut p).bind f)).run (recording reply) service past =
      (onQueue (f (p.run (recordingHub reply) service.hub past).1)).run (recording reply)
        { service with hub := (p.run (recordingHub reply) service.hub past).2.1 }
        (p.run (recordingHub reply) service.hub past).2.2 := by
  induction p generalizing service past with
  | done a => rfl
  | step change next ih => exact ih service.hub _ past
  | note event next ih => exact ih service past
  | ask demand next ih => exact ih _ service _

-- By induction on what is queued: whether the worker goes on alone or the service lets it, the
-- queue is worked off to the same end.
theorem exists_workedOff (queue : List Message) (service : Service) (past : List Exchanged) :
    ∃ hub' past', ∀ more,
      Relation.ReflTransGen Step
        ⟨{ service with queue }, past, receiver, working (queue.length + more)⟩
        ⟨{ service with hub := hub', queue := [] }, past', receiver, working more⟩ ∧
      (onQueue (working (queue.length + more))).run (recording reply) { service with queue } past =
        (onQueue (working more)).run (recording reply)
          { service with hub := hub', queue := [] } past' := by
  induction queue generalizing service past with
  | nil =>
    refine ⟨service.hub, past, fun more => ?_⟩
    rw [List.length_nil, Nat.zero_add]
    exact ⟨.refl, rfl⟩
  | cons m rest ih =>
    let carried := (Hub.answerControl m).run (recordingHub reply) service.hub past
    obtain ⟨hub', past', hrest⟩ := ih { service with hub := carried.2.1 } carried.2.2
    refine ⟨hub', past', fun more => ?_⟩
    obtain ⟨hreach, hrun⟩ := hrest more
    rw [List.length_cons, Nat.add_right_comm]
    have hcarried := reaches_carryOut reply receiver (Hub.answerControl m)
      (fun _ => working (rest.length + more)) { service with queue := rest } past
    have hlet := run_carryOut reply (Hub.answerControl m)
      (fun _ => working (rest.length + more)) { service with queue := rest } past
    exact ⟨.head (.work (.ask .next)) (hcarried.trans hreach), hlet.trans hrun⟩

-- What is worked off in one go is worked off as the worker may do it by itself.
theorem reaches_workOff (service : Service) (past : List Exchanged) (more : Nat) :
    Relation.ReflTransGen Step ⟨service, past, receiver, working (service.queue.length + more)⟩
      ⟨(workOff.run (recording reply) service past).2.1,
        (workOff.run (recording reply) service past).2.2, receiver, working more⟩ := by
  obtain ⟨hub', past', hworked⟩ := exists_workedOff reply receiver service.queue service past
  have hrun : workOff.run (recording reply) service past =
      ((), { service with hub := hub', queue := [] }, past') := (hworked 0).2
  rw [hrun]
  exact (hworked more).1

-- When the queue has been closed, the worker comes to its end and nothing is left there.
theorem reaches_finishWork {service : Service} (hclosed : service.queueOpen = false)
    (past : List Exchanged) {count : Nat} (hcount : service.queue.length < count) :
    (finishWork.run (recording reply) service past).2.1.queue = [] ∧
      Relation.ReflTransGen Step ⟨service, past, receiver, working count⟩
        ⟨(finishWork.run (recording reply) service past).2.1,
          (finishWork.run (recording reply) service past).2.2, receiver, .done ()⟩ := by
  obtain ⟨hub', past', hworked⟩ := exists_workedOff reply receiver service.queue service past
  have hrun : finishWork.run (recording reply) service past =
      ((), { service with hub := hub', queue := [] }, past') := (hworked 1).2
  obtain ⟨more, rfl⟩ := Nat.exists_eq_add_of_lt hcount
  rw [hrun]
  refine ⟨rfl, ?_⟩
  have hended : Relation.ReflTransGen Step
      ⟨{ service with hub := hub', queue := [] }, past', receiver, working (more + 1)⟩
      ⟨{ service with hub := hub', queue := [] }, past', receiver, .done ()⟩ :=
    .head (.work (.ask (.noMore hclosed))) (.single (.work .note))
  exact (hworked (more + 1)).1.trans hended

end Course

end Duty

end GpioBridge.Service
