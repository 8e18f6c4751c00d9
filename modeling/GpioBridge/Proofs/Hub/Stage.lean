import GpioBridge.Proofs.Hub.Lifecycle
import GpioBridge.Proofs.Hub.Operation
import GpioBridge.Proofs.Process.Plan

namespace GpioBridge.Hub

inductive Stage where
  -- Nothing is left to do but what concerns lines: their cached state, and requests about them.
  | plain
  -- A request has been counted as sent and its caller waits for the reply.
  | awaiting (id : ChipId) (pin : UInt32)
  | dispatching (m : Message)
  | registering (r : Registration)
  -- A chip has been enlisted and is being exposed.
  | exposing (r : Registration) (id : ChipId)
  | offering (r : Registration) (id : ChipId) (descriptor : Descriptor)
  -- The chip is exposed, and that has to be recorded.
  | confirming (id : ChipId) (handle : Handle)
  | recorded (id : ChipId)
  -- The chip could not be exposed.
  | refused (uid : UInt64) (id : ChipId)
  | abandoning (id : ChipId)
  | failed
  | withdrawing (uid : UInt64)
  -- A chip has been found, and whether it is exposed is still to be seen.
  | found (id : ChipId)
  | suspending (id : ChipId)
  -- The chip is suspended, and its lines are looked at.
  | scanning (id : ChipId) (handle : Handle)
  -- The chip is concealed, and that has to be recorded.
  | releasing (id : ChipId)
  | tearingDown
  -- These chips are still to be retired.
  | retiring (id : ChipId) (rest : List ChipId)
  | concealing (id : ChipId) (handle : Handle) (rest : List ChipId)
  | finishing (id : ChipId) (rest : List ChipId)

namespace Stage

-- A registration that breaks the rules does nothing.
def ofRegistration (r : Registration) : Stage :=
  match r.check with
  | .ok () => registering r
  | .error _ => plain

def ofEnlistment (r : Registration) (enlistment : Enlistment) : Stage :=
  match enlistment.outcome with
  | .ok id => exposing r id
  | .error _ => plain

def ofExposure (r : Registration) (id : ChipId) : Except Fault Handle → Stage
  | .ok handle => confirming id handle
  | .error _ => refused r.uid id

def ofFind : Option ChipId → Stage
  | some id => found id
  | none => plain

def ofFound (id : ChipId) (registered : Bool) : Stage := if registered then suspending id else plain

def ofSuspension (id : ChipId) : Suspension → Stage
  | .exposed handle _ => scanning id handle
  | .settled | .unexposed => plain

def ofHandle (id : ChipId) (rest : List ChipId) : Option Handle → Stage
  | some handle => concealing id handle rest
  | none => finishing id rest

def ofList : List ChipId → Stage
  | [] => plain
  | id :: rest => retiring id rest

-- Which changes may come at a stage.
inductive Steps : Stage → (Hub → Hub) → Hub → Stage → Prop where
  | look {hub} : Steps plain id hub plain
  | count (id : ChipId) (pin : UInt32) {hub} : Steps plain countSent hub (awaiting id pin)
  | collect {id pin hub} : Steps (awaiting id pin) (fun hub => (Hub.collect id pin hub).2) hub plain
  | setLevel (id : ChipId) (pin : UInt32) (level : Bool) {hub} :
      Steps plain (Hub.setLevel id pin level) hub plain
  | setLineDirection (id : ChipId) (pin : UInt32) (direction : Direction) {hub} :
      Steps plain (Hub.setLineDirection id pin direction) hub plain
  | deliver {m hub} : Steps (dispatching m) (fun hub => (Hub.deliver m hub).2) hub plain
  | enlist {r hub} : Steps (registering r) (fun hub => (Hub.enlist r hub).2) hub
      (ofEnlistment r (Hub.enlist r hub).1)
  | read {r made} {hub : Hub} :
      Steps (exposing r made) id hub (offering r made (hub.chip made).descriptor)
  | confirm {id handle hub} : Steps (confirming id handle) (Hub.confirm id handle) hub (recorded id)
  | unmap {uid id hub} : Steps (refused uid id) (Hub.unmap uid id) hub (abandoning id)
  | abandon {id hub} : Steps (abandoning id) (Hub.abandon id) hub failed
  | find {uid} {hub : Hub} : Steps (withdrawing uid) id hub (ofFind (hub.find? uid))
  | check {chip} {hub : Hub} : Steps (found chip) id hub (ofFound chip (hub.chip chip).registered)
  | suspend {id hub} : Steps (suspending id) (fun hub => (Hub.suspend id hub).2) hub
      (ofSuspension id (Hub.suspend id hub).1)
  | resume {id handle hub} : Steps (scanning id handle) (Hub.resume id) hub plain
  | release {id hub} : Steps (releasing id) (Hub.release id) hub plain
  | drain {hub} : Steps tearingDown (fun hub => hub.drain.2) hub (ofList hub.drain.1)
  | disable {id rest hub} : Steps (retiring id rest) (fun hub => (Hub.disable id hub).2) hub
      (ofHandle id rest (Hub.disable id hub).1)
  | retire {id rest hub} : Steps (finishing id rest) (Hub.retire id) hub (ofList rest)

-- Which demands may be made at a stage.
inductive Asks : Stage → (demand : Demand) → demand.Answer → Stage → Prop where
  | send {m answer} : Asks plain (.send m) answer plain
  | expose {r id descriptor} {answer : Except Fault Handle} :
      Asks (offering r id descriptor) (.expose descriptor id) answer (ofExposure r id answer)
  | isHeld {id handle pin answer} : Asks (scanning id handle) (.isHeld handle pin) answer
      (scanning id handle)
  | withdrawn {id handle answer} : Asks (scanning id handle) (.conceal handle) answer (releasing id)
  | concealed {id handle rest answer} :
      Asks (concealing id handle rest) (.conceal handle) answer (finishing id rest)

end Stage

-- Whatever is asked there is some answer to.
theorem exists_answer (demand : Demand) : Nonempty demand.Answer := by
  cases demand with
  | send m => exact ⟨(.ok () : Except TransportFault Unit)⟩
  | expose descriptor id => exact ⟨(.error .busy : Except Fault Handle)⟩
  | conceal handle => exact ⟨()⟩
  | isHeld handle pin => exact ⟨false⟩

def plan : Plan Hub Demand Demand.Answer Stage := ⟨Stage.Steps, Stage.Asks⟩

-- The stage an operation begins at.
def Operation.stage : Operation → Stage
  | .register r => .ofRegistration r
  | .withdraw uid => .withdrawing uid
  | .teardown => .tearingDown
  | .dispatch m => .dispatching m
  | _ => .plain

section Follows

open Process

variable {α : Type}

-- A part of an operation that ends has nothing left to do.
def Plainly (_ : α) (g : Stage) : Prop := g = .plain

theorem follows_get {next : Hub → HubProcess α}
    (h : ∀ hub, (next hub).Follows plan Plainly .plain) :
    (step id next).Follows plan Plainly .plain :=
  .step (fun _ => .plain) (fun _ => .look) h

-- Waiting for a reply is counted first.
theorem follows_wait (id : ChipId) (pin : UInt32) {next : Hub → HubProcess α}
    (h : ∀ hub, (next hub).Follows plan Plainly .plain) :
    (step countSent fun _ => step (fun hub => (collect id pin hub).2) next).Follows plan
      Plainly .plain :=
  .step (fun _ => .awaiting id pin) (fun _ => .count id pin) fun _ =>
    .step (fun _ => .plain) (fun _ => .collect) h

theorem follows_call (id : ChipId) (pin : UInt32) (request : Request) :
    (call id pin request).Follows plan Plainly .plain := by
  simp only [call, bind_eq, pure_eq, get_bind, HubProcess.send_bind, modify_bind, update_bind,
    log_bind]
  refine follows_get fun hub => ?_
  split
  · exact .done rfl
  refine .ask (fun _ => .plain) (fun _ => .send) fun (answer : Except TransportFault Unit) => ?_
  split
  · refine follows_wait id pin fun hub => ?_
    split
    · exact follows_get fun _ => .note (.done rfl)
    · exact .done rfl
  · refine .note (follows_wait id pin fun hub => ?_)
    split
    · exact follows_get fun _ => .note (.done rfl)
    · exact .done rfl
  · exact .done rfl

theorem follows_writeLevel (id : ChipId) (pin : UInt32) (level : Bool) :
    (writeLevel id pin level).Follows plan Plainly .plain := by
  refine (follows_call id pin (.setValue level)).bind ?_
  rintro (fault | reply) _ rfl
  · exact .done rfl
  · exact .step (fun _ => .plain) (fun _ => .setLevel id pin level) fun _ => .done rfl

theorem follows_writeDirection (id : ChipId) (pin : UInt32) (direction : Direction) :
    (writeDirection id pin direction).Follows plan Plainly .plain := by
  refine (follows_call id pin (.setDirection direction)).bind ?_
  rintro (fault | reply) _ rfl
  · exact .done rfl
  · exact .step (fun _ => .plain) (fun _ => .setLineDirection id pin direction) fun _ => .done rfl

-- An operation on a line begins by looking whether it may.
theorem follows_ready (made : ChipId) (pin : UInt32) {go : HubProcess (Except Fault α)}
    (h : go.Follows plan Plainly .plain) :
    (step id fun hub => match hub.ready made pin with
      | .error fault => done (.error fault)
      | .ok () => go : HubProcess (Except Fault α)).Follows plan Plainly .plain := by
  refine follows_get fun hub => ?_
  split
  · exact .done rfl
  · exact h

theorem follows_getValue (id : ChipId) (pin : UInt32) :
    (getValue id pin).Follows plan Plainly .plain := by
  refine follows_ready id pin ((follows_call id pin .getValue).bind ?_)
  rintro (fault | reply | level) _ rfl
  · exact .done rfl
  · exact .done rfl
  · exact .step (fun _ => .plain) (fun _ => .setLevel id pin level) fun _ => .done rfl

theorem follows_setValue (id : ChipId) (pin : UInt32) (level : Bool) :
    (setValue id pin level).Follows plan Plainly .plain :=
  follows_ready id pin (follows_writeLevel id pin level)

theorem follows_setConfig (id : ChipId) (pin : UInt32) (setting : PinSetting) :
    (setConfig id pin setting).Follows plan Plainly .plain := by
  refine follows_ready id pin ?_
  cases setting.wiring? with
  | error fault => exact .done rfl
  | ok wiring =>
    cases wiring with
    | none => exact follows_get fun _ => .note (.done rfl)
    | some wiring =>
      refine (follows_call id pin (.setConfig wiring)).bind ?_
      rintro (fault | reply) _ rfl
      · exact .done rfl
      · exact .done rfl

theorem follows_setDirection (id : ChipId) (pin : UInt32) (mode : LineMode) :
    (setDirection id pin mode).Follows plan Plainly .plain := by
  refine follows_ready id pin ?_
  cases mode with
  | input => exact follows_writeDirection id pin .input
  | disabled => exact follows_writeDirection id pin .disabled
  | output level =>
    refine (follows_writeDirection id pin .output).bind ?_
    rintro (fault | _) _ rfl
    · exact .done rfl
    · exact follows_writeLevel id pin level

theorem follows_getDirection (id : ChipId) (pin : UInt32) :
    (getDirection id pin).Follows plan Plainly .plain := by
  simp only [getDirection, bind_eq, pure_eq, get_bind]
  refine follows_get fun hub => ?_
  split <;> exact .done rfl

theorem follows_dispatch (m : Message) :
    (dispatch m).Follows plan Plainly (.dispatching m) := by
  simp only [dispatch, bind_eq, pure_eq, update_bind, log_bind]
  refine .step (fun _ => .plain) (fun _ => .deliver) fun hub => ?_
  split <;> exact .note (.done rfl)

-- Whether an eviction is logged makes no difference to what comes next.
private theorem follows_logged {last : α → Stage → Prop} {event : Event} {next : HubProcess α}
    {g : Stage} (h : next.Follows plan last g) (logged : Bool) :
    (if logged = true then note event next else next).Follows plan last g := by
  split
  · exact .note h
  · exact h

-- The framework's refusal is the only way to its fault, and once a chip is recorded the
-- registration has succeeded.
inductive Registered : Except Fault ChipId → Stage → Prop where
  | refused {result} (h : ∀ detail, result ≠ .error (.framework detail)) : Registered result .plain
  | failed {result} : Registered result .failed
  | recorded {id} : Registered (.ok id) (.recorded id)

theorem follows_register (r : Registration) :
    (register r).Follows plan Registered (.ofRegistration r) := by
  simp only [register, bind_eq, pure_eq, get_bind, update_bind, log_bind, modify_bind,
    HubProcess.expose_bind]
  unfold Stage.ofRegistration
  cases hc : r.check with
  | error fault =>
    exact .done (.refused fun detail h => check_ne_framework r detail (by simp_all))
  | ok _ =>
    refine .step (fun hub => .ofEnlistment r (enlist r hub).1) (fun _ => .enlist) fun hub => ?_
    refine follows_logged ?_ _
    unfold Stage.ofEnlistment
    cases ho : (enlist r hub).1.outcome with
    | error fault =>
      exact .done (.refused fun detail h => enlist_ne_framework r hub detail (by simp_all))
    | ok id =>
      refine .step (fun hub => .offering r id (hub.chip id).descriptor) (fun _ => .read)
        fun hub => ?_
      refine .ask (Stage.ofExposure r id) (fun _ => .expose)
        fun (answer : Except Fault Handle) => ?_
      cases answer with
      | ok handle =>
        exact .step (fun _ => .recorded id) (fun _ => .confirm) fun _ => .note (.done .recorded)
      | error fault =>
        exact .note (.step (fun _ => .abandoning id) (fun _ => .unmap) fun _ =>
          .step (fun _ => .failed) (fun _ => .abandon) fun _ => .done .failed)

theorem follows_firstHeld (id : ChipId) (handle : Handle) (pins : List UInt32) :
    (firstHeld handle pins).Follows plan (fun _ g => g = .scanning id handle)
      (.scanning id handle) := by
  induction pins with
  | nil => exact .done rfl
  | cons pin rest ih =>
    refine .ask (fun _ => .scanning id handle) (fun _ => .isHeld) fun (held : Bool) => ?_
    cases held with
    | true => exact .done rfl
    | false => exact ih

theorem follows_withdraw (uid : UInt64) :
    (withdraw uid).Follows plan Plainly (.withdrawing uid) := by
  simp only [withdraw, bind_eq, pure_eq, get_bind, update_bind, log_bind, modify_bind,
    HubProcess.conceal_bind]
  refine .step (fun hub => .ofFind (hub.find? uid)) (fun _ => .find) fun hub => ?_
  cases hub.find? uid with
  | none => exact .note (.done rfl)
  | some id =>
    refine .step (fun hub => .ofFound id (hub.chip id).registered) (fun _ => .check) fun hub => ?_
    cases (hub.chip id).registered with
    | false => exact .note (.done rfl)
    | true =>
      refine .step (fun hub => .ofSuspension id (suspend id hub).1) (fun _ => .suspend)
        fun hub => ?_
      cases (suspend id hub).1 with
      | settled => exact .done rfl
      | unexposed => exact .done rfl
      | exposed handle lineCount =>
        refine (follows_firstHeld id handle (pins lineCount)).bind ?_
        rintro (_ | pin) _ rfl
        · refine .ask (fun _ => .releasing id) (fun _ => .withdrawn) fun _ => ?_
          exact .step (fun _ => .plain) (fun _ => .release) fun _ => .note (.done rfl)
        · exact .step (fun _ => .plain) (fun _ => .resume) fun _ => .note (.done rfl)

theorem follows_retireAll (ids : List ChipId) :
    (retireAll ids).Follows plan Plainly (.ofList ids) := by
  induction ids with
  | nil => exact .done rfl
  | cons id rest ih =>
    simp only [retireAll, bind_eq, update_bind, modify_bind, HubProcess.conceal_bind]
    refine .step (fun hub => .ofHandle id rest (disable id hub).1) (fun _ => .disable)
      fun hub => ?_
    have hretire : Follows plan Plainly (.finishing id rest)
        (step (retire id) fun _ => retireAll rest) :=
      .step (fun _ => .ofList rest) (fun _ => .retire) fun _ => ih
    cases (disable id hub).1 with
    | none => exact hretire
    | some handle =>
      exact .ask (fun _ => .finishing id rest) (fun _ => .concealed) fun _ => hretire

theorem follows_teardown : teardown.Follows plan Plainly .tearingDown := by
  simp only [teardown, bind_eq, pure_eq, update_bind, log_bind]
  refine .step (fun hub => .ofList hub.drain.1) (fun _ => .drain) fun hub => ?_
  refine (follows_retireAll hub.drain.1).bind ?_
  rintro _ _ rfl
  split
  · exact .note (.done rfl)
  · exact .done rfl

-- What a call that has returned left behind: a chip that is exposed, one that could not be, or
-- nothing.
inductive Ended : Outcome → Stage → Prop where
  | plain {outcome} (h : ∀ detail, outcome ≠ .chip (.error (.framework detail))) :
      Ended outcome .plain
  | failed {outcome} : Ended outcome .failed
  | recorded {id} : Ended (.chip (.ok id)) (.recorded id)

-- Every operation follows the plan of the stages.
theorem follows_process (operation : Operation) :
    operation.process.Follows plan Ended operation.stage := by
  have hlast {α : Type} {p : HubProcess α} {g : Stage} (wrap : α → Outcome)
      (hwrap : ∀ a result, wrap a ≠ .chip result) (h : p.Follows plan Plainly g) :
      (p.bind fun result => done (wrap result) : HubProcess Outcome).Follows plan Ended g :=
    h.bind fun a _ hplain => .done (by
      obtain rfl : _ = Stage.plain := hplain
      exact .plain fun _ => hwrap a _)
  cases operation with
  | register r =>
    refine (follows_register r).bind fun result g h => .done ?_
    cases h with
    | refused hne => exact .plain fun detail heq => hne detail (Outcome.chip.inj heq)
    | failed => exact .failed
    | recorded => exact .recorded
  | withdraw uid => exact hlast .unit (by simp) (follows_withdraw uid)
  | teardown => exact hlast .count (by simp) follows_teardown
  | dispatch m => exact hlast .delivered (by simp) (follows_dispatch m)
  | call id pin request => exact hlast .reply (by simp) (follows_call id pin request)
  | getValue id pin => exact hlast .level (by simp) (follows_getValue id pin)
  | setValue id pin level => exact hlast .unit (by simp) (follows_setValue id pin level)
  | setConfig id pin setting => exact hlast .unit (by simp) (follows_setConfig id pin setting)
  | setDirection id pin mode => exact hlast .unit (by simp) (follows_setDirection id pin mode)
  | getDirection id pin => exact hlast .direction (by simp) (follows_getDirection id pin)
  | free id pin => exact hlast .unit (by simp) (follows_setDirection id pin .disabled)

theorem ended_of_returned {p : HubProcess Outcome} {g : Stage} (h : p.Follows plan Ended g)
    (hp : p.Returned) : ∃ outcome, Ended outcome g := by
  obtain ⟨outcome, rfl⟩ := hp
  cases h with
  | done hended => exact ⟨outcome, hended⟩

end Follows

end GpioBridge.Hub
