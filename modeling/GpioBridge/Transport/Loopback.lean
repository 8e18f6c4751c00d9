import GpioBridge.Event
import GpioBridge.Wire.Frame

namespace GpioBridge

-- A port is listed together with what it still has to receive, so nothing is ever sent to one that
-- can no longer receive, and no port has to be struck off for that.
structure Port where
  id : Nat
  queue : List (List UInt8) := []
  deriving DecidableEq, Repr

structure LoopbackBus where
  -- Ids do not run out here; counted in a machine word they would, after 2 ^ 64 ports.
  nextId : Nat := 0
  ports : List Port := []
  deriving DecidableEq, Repr, Inhabited

namespace LoopbackBus

def port? (bus : LoopbackBus) (id : Nat) : Option Port := bus.ports.find? (·.id == id)

def attach (bus : LoopbackBus) : Nat × LoopbackBus :=
  (bus.nextId, { nextId := bus.nextId + 1, ports := bus.ports ++ [{ id := bus.nextId }] })

-- Detaches a port; what waited at it is lost.
def detach (id : Nat) (bus : LoopbackBus) : LoopbackBus :=
  { bus with ports := bus.ports.filter (·.id != id) }

def listeners (bus : LoopbackBus) (id : Nat) : Nat := bus.ports.countP (·.id != id)

def deliver (id : Nat) (frame : List UInt8) (bus : LoopbackBus) : LoopbackBus :=
  { bus with
    ports := bus.ports.map fun port =>
      if port.id = id then port else { port with queue := port.queue ++ [frame] } }

def send (id : Nat) (m : Message) (bus : LoopbackBus) :
    Except TransportFault Unit × LoopbackBus :=
  match Frame.encode m with
  | .error fault => (.error (.frame fault), bus)
  | .ok frame =>
    let result := if bus.listeners id = 0 then .error .noSubscribers else .ok ()
    (result, bus.deliver id frame)

def sendEvent (id : Nat) (m : Message) (bus : LoopbackBus) : Event :=
  ⟨.trace, .loopback, "loopback send",
    [("port", toString id), ("delivered", toString (bus.listeners id)), ("kind", s!"\"{m.kind}\"")]⟩

-- Receives the oldest message waiting at a port, if one is. A detached port is closed.
def receive (id : Nat) (bus : LoopbackBus) :
    Except TransportFault (Option Message) × LoopbackBus :=
  match bus.port? id with
  | none => (.error .closed, bus)
  | some port =>
    match port.queue with
    | [] => (.ok none, bus)
    | frame :: rest =>
      let bus := { bus with
        ports := bus.ports.map fun port =>
          if port.id = id then { port with queue := rest } else port }
      match Frame.decode frame with
      | .ok m => (.ok (some m), bus)
      | .error fault => (.error (.frame fault), bus)

end LoopbackBus

end GpioBridge
