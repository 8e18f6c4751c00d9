import GpioBridge.Proofs.Process.Plan
import GpioBridge.Proofs.Service.Upkeep

namespace GpioBridge.Service

inductive Stage where
  -- Reports are looked after, and so many polls are left.
  | tending (left : Nat)
  | polling (left : Nat)
  -- A message has come in that has to be passed on.
  | routing (m : Message) (left : Nat)
  | leaving (result : Except TransportFault Unit)
  -- Nothing is queued any more, and the worker has still to end.
  | waiting (result : Except TransportFault Unit)
  | gone (result : Except TransportFault Unit)

-- Somebody has to do something about the message.
def Concerns (m : Message) : Prop := m.isLineReply = true ∨ m.isControl = true

instance (m : Message) : Decidable (Concerns m) := inferInstanceAs (Decidable (_ ∨ _))

namespace Stage

-- What receiving comes to. Only that the transport is closed ends it.
def ofReceipt (left : Nat) : Except TransportFault (Option Message) → Stage
  | .ok (some m) => if Concerns m then routing m left else tending left
  | .error .closed => leaving (.error .closed)
  | .ok none | .error _ => tending left

def ofLook (left : Nat) (running : Bool) : Stage :=
  if running then polling left else leaving (.ok ())

inductive Steps : Stage → (Service → Service) → Service → Stage → Prop where
  | tend {left change service} (h : ∃ reporter, change service = { service with reporter }) :
      Steps (tending left) change service (tending left)
  | look {left service} : Steps (tending (left + 1)) id service (ofLook left service.running)
  | dispatch {m left service} (h : m.isLineReply = true) :
      Steps (routing m left)
        (fun service => { service with hub := (Hub.deliver m service.hub).2 }) service (tending left)
  | enqueue {m left service} (h : m.isControl = true) :
      Steps (routing m left) (enqueue m) service (tending left)
  | leave {result service} : Steps (leaving result) closeQueue service (waiting result)
  -- All polls were made.
  | retire {service} : Steps (tending 0) closeQueue service (waiting (.ok ()))
  | count {result service} : Steps (gone result) id service (gone result)

inductive Asks : Stage → (demand : ServiceDemand) → demand.Answer → Stage → Prop where
  | tend {left demand answer} (h : demand.isClerical = true) :
      Asks (tending left) demand answer (tending left)
  | receive {left} {answer : Except TransportFault (Option Message)} :
      Asks (polling left) .receive answer (ofReceipt left answer)
  | join {result answer} : Asks (waiting result) .awaitWorker answer (gone result)

end Stage

def plan : Plan Service ServiceDemand ServiceDemand.Answer Stage := ⟨Stage.Steps, Stage.Asks⟩

section Follows

open Process Stage

variable {α : Type}

theorem Clerical.follows {p : ServiceProcess α} (hp : Clerical p) (left : Nat) :
    p.Follows plan (fun _ g => g = tending left) (tending left) := by
  induction p with
  | done => exact .done rfl
  | step change next ih =>
    exact .step (fun _ => tending left) (fun service => .tend (hp.1 service)) fun service =>
      ih service (hp.2 service)
  | note event next ih => exact .note (ih hp)
  | ask demand next ih =>
    exact .ask (fun _ => tending left) (fun _ => .tend hp.1) fun answer => ih answer (hp.2 answer)

-- A message is passed on to where it belongs, or it is nobody's.
theorem follows_route (m : Message) (left : Nat) :
    (route m).Follows plan (fun _ g => g = tending left) (ofReceipt left (.ok (some m))) := by
  change (route m).Follows plan _ (if Concerns m then routing m left else tending left)
  unfold route
  by_cases hreply : m.isLineReply = true
  · rw [if_pos hreply, if_pos (.inl hreply)]
    simp only [Hub.dispatch, onHub, bind_eq, pure_eq, update_bind, log_bind, Process.lift]
    refine .step (fun _ => tending left) (fun _ => .dispatch hreply) fun service => ?_
    dsimp only
    cases (Hub.deliver m service.hub).1 <;> exact .note (.done rfl)
  rw [if_neg hreply]
  by_cases hcontrol : m.isControl = true
  · rw [if_pos hcontrol, if_pos (.inr hcontrol)]
    exact .step (fun _ => tending left) (fun _ => .enqueue hcontrol) fun _ => .done rfl
  · have hnone : ¬Concerns m := not_or.mpr ⟨hreply, hcontrol⟩
    rw [if_neg hcontrol, if_neg hnone]
    exact .note (.done rfl)

-- Receiving ends where the service is about to leave, or all polls were made.
def Departs (result : Except TransportFault Unit) (g : Stage) : Prop :=
  g = leaving result ∨ (g = tending 0 ∧ result = .ok ())

theorem follows_receiving (polls : Nat) :
    (receiving polls).Follows plan Departs (tending polls) := by
  induction polls with
  | zero => exact .done (.inr ⟨rfl, rfl⟩)
  | succ left ih =>
    have hagain : ((tolerate refresh).bind fun _ => receiving left).Follows plan Departs
        (tending left) := by
      refine ((clerical_tolerate clerical_refresh).follows left).bind ?_
      rintro _ _ rfl
      exact ih
    simp only [receiving, say, bind_eq, pure_eq, get_bind, ask_bind, done_bind, log_bind]
    refine .step (fun service => ofLook left service.running) (fun _ => .look) fun service => ?_
    cases service.running with
    | false => exact .done (.inl rfl)
    | true =>
      refine .ask (ofReceipt left) (fun _ => .receive)
        fun (answer : Except TransportFault (Option Message)) => ?_
      rcases answer with fault | _ | m
      · cases fault
        case closed => exact .note (.done (.inl rfl))
        all_goals exact .note hagain
      · exact hagain
      · refine (follows_route m left).bind ?_
        rintro _ _ rfl
        exact hagain

-- What a service that has returned left behind.
def Ended (result : Except TransportFault Unit) (g : Stage) : Prop := g = gone result

theorem follows_loop (polls : Nat) : (loop polls).Follows plan Ended (tending polls) := by
  have hbegin : Clerical begin := by
    simp only [begin, say, bind_eq, get_bind, log_bind, modify_bind]
    exact clerical_look fun _ => ⟨fun service => ⟨_, rfl⟩, fun _ =>
      clerical_tolerate clerical_publish⟩
  have hwait : ∀ (event : Service → Event) (result : Except TransportFault Unit),
      (Process.ask .awaitWorker fun _ =>
        step id fun service => note (event service) (done result) :
        ServiceProcess (Except TransportFault Unit)).Follows plan Ended (waiting result) :=
    fun _ result => .ask (fun _ => gone result) (fun _ => .join) fun _ =>
      .step (fun _ => gone result) (fun _ => .count) fun _ => .note (.done rfl)
  refine (hbegin.follows polls).bind ?_
  rintro _ _ rfl
  refine (follows_receiving polls).bind ?_
  simp only [finish, say, bind_eq, pure_eq, get_bind, modify_bind]
  rintro result _ (rfl | ⟨rfl, rfl⟩)
  · exact .step (fun _ => waiting result) (fun _ => .leave) fun _ => hwait _ result
  · exact .step (fun _ => waiting (.ok ())) (fun _ => .retire) fun _ => hwait _ (.ok ())

end Follows

end GpioBridge.Service
