import GpioBridge.Hub.Basic

namespace GpioBridge

inductive Request where
  | getValue
  | setValue (level : Bool)
  | setConfig (wiring : Wiring)
  | setDirection (direction : Direction)
  deriving DecidableEq, Repr

-- What a bridge's success means: the level it read, or that the request was carried out.
inductive Reply where
  | done
  | level (level : Bool)
  deriving DecidableEq, Repr

def levelWord (level : Bool) : UInt32 := if level then 1 else 0

namespace Request

def message (uid : UInt64) (pin : UInt32) : Request → Message
  | getValue => .getValue uid pin
  | setValue level => .setValue uid pin (levelWord level)
  | setConfig wiring => .setConfig uid pin wiring.code
  | setDirection direction => .setDirection uid pin direction.code

def result (request : Request) (uid : UInt64) (pin : UInt32) (outcome : Outcome) :
    Except Fault Reply :=
  match outcome.status.toResult with
  | .error fault => .error fault
  | .ok () =>
    match request with
    | getValue =>
      match outcome.level with
      | some level => .ok (.level level)
      | none => .error (.violation s!"get-value reply for uid {uid} pin {pin} carried no value")
    | setValue _ | setConfig _ | setDirection _ => .ok .done

end Request

namespace Hub

def countSent (hub : Hub) : Hub :=
  { hub with counters.sent := hub.counters.sent + 1 }

def countTimedOut (hub : Hub) : Hub :=
  { hub with counters.timedOut := hub.counters.timedOut + 1 }

-- The end of a caller's wait: takes a signal of the line, or counts a request without reply.
-- Nothing ties a signal to a request but the line, so it may be one that an earlier request left
-- behind.
def collect (id : ChipId) (pin : UInt32) (hub : Hub) : Option Outcome × Hub :=
  match (hub.chip id).cell? pin with
  | none => (none, hub.countTimedOut)
  | some cell =>
    match cell.take? with
    | none => (none, hub.countTimedOut)
    | some (outcome, cell) =>
      (some outcome, hub.modifyChip id fun chip => chip.modifyCell pin fun _ => cell)

-- Sends a request about a line and waits for a reply. That nobody listens is found out only by
-- waiting in vain; any other failure to send ends the call at once.
def call (id : ChipId) (pin : UInt32) (request : Request) : HubProcess (Except Fault Reply) := do
  let chip := (← .get).chip id
  if (chip.cell? pin).isNone then
    return .error (chip.noSuchLine pin)
  let m := request.message chip.uid pin
  let place := [("uid", toString chip.uid), ("pin", toString pin)]
  match ← HubProcess.send m with
  | .ok () => pure ()
  | .error .noSubscribers =>
    .log ⟨.debug, .requests, s!"no bridge subscribed, {m.kind} will time out", place⟩
  | .error fault => return .error (.sendFailed fault.message)
  .modify countSent
  match ← .update (collect id pin) with
  | none =>
    let patience := (← .get).patience
    .log ⟨.warn, .requests, s!"no reply to {m.kind} within {Duration.text patience}", place⟩
    return .error .unresponsive
  | some outcome => return request.result chip.uid pin outcome

end Hub

end GpioBridge
