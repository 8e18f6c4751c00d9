import GpioBridge.Simulation.Echo

namespace GpioBridge

inductive RequestKind where
  | getValue
  | setValue
  | setConfig
  | setDirection
  deriving DecidableEq, Repr

def Message.asked? : Message → Option (RequestKind × UInt64 × UInt32)
  | getValue uid pin => some (.getValue, uid, pin)
  | setValue uid pin _ => some (.setValue, uid, pin)
  | setConfig uid pin _ => some (.setConfig, uid, pin)
  | setDirection uid pin _ => some (.setDirection, uid, pin)
  | _ => none

-- The reply that belongs to a kind of request; only the one to a read has room for a level.
def RequestKind.reply (kind : RequestKind) (uid : UInt64) (pin status : UInt32)
    (level : Option UInt32) : Message :=
  match kind with
  | getValue => .getValueReply uid pin status level
  | setValue => .setValueReply uid pin status
  | setConfig => .setConfigReply uid pin status
  | setDirection => .setDirectionReply uid pin status

-- An answer that does not depend on the state of a line. What is left open is taken from the
-- request.
structure FixedAnswer where
  status : UInt32
  level : Option UInt32 := none
  kind : Option RequestKind := none
  uid : Option UInt64 := none
  pin : Option UInt32 := none
  deriving DecidableEq, Repr

def FixedAnswer.reply? (answer : FixedAnswer) (m : Message) : Option Message :=
  m.asked?.map fun (kind, uid, pin) =>
    (answer.kind.getD kind).reply (answer.uid.getD uid) (answer.pin.getD pin) answer.status
      answer.level

namespace Responder

def silent : Responder := fun _ lines => (none, lines)

def fixed (answer : FixedAnswer) : Responder := fun m lines => (answer.reply? m, lines)

-- Answers one kind of message in a way of its own, and echoes the others.
def only (kind : String) (responder : Responder) : Responder := fun m lines =>
  if m.kind = kind then responder m lines else SimLine.echo m lines

end Responder

end GpioBridge
