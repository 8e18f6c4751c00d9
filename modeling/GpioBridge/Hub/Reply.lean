import GpioBridge.Hub.Basic

namespace GpioBridge

inductive DropReason where
  | notReply
  | missingLevel (uid : UInt64) (pin : UInt32)
  | unknownChip
  | retiredChip
  | noSuchLine
  deriving DecidableEq, Repr

def DropReason.text : DropReason → String
  | notReply => "not a line reply"
  | missingLevel uid pin => (Message.missingLevelFault uid pin).message
  | unknownChip => "unknown chip"
  | retiredChip => "chip retired"
  | noSuchLine => "line out of range"

namespace Hub

def recipient (hub : Hub) (m : Message) : Except DropReason (ChipId × LineReply) :=
  match m.reading with
  | .notReply => .error .notReply
  | .missingLevel uid pin => .error (.missingLevel uid pin)
  | .reply reply =>
    match hub.find? reply.uid with
    | none => .error .unknownChip
    | some id =>
      let chip := hub.chip id
      if chip.retired then .error .retiredChip
      else if (chip.cell? reply.pin).isNone then .error .noSuchLine
      else .ok (id, reply)

def countDispatched (hub : Hub) : Hub :=
  { hub with counters.dispatched := hub.counters.dispatched + 1 }

def countDropped (hub : Hub) : Hub :=
  { hub with counters.dropped := hub.counters.dropped + 1 }

def deliver (m : Message) (hub : Hub) : Except DropReason LineReply × Hub :=
  match hub.recipient m with
  | .ok (id, reply) =>
    (.ok reply,
      (hub.modifyChip id fun chip => chip.post reply.pin reply.status reply.level).countDispatched)
  | .error reason => (.error reason, hub.countDropped)

-- Delivers a message as a reply and says whether it was one anybody can be waiting for.
def dispatch (m : Message) : HubProcess Bool := do
  match ← .update (deliver m) with
  | .ok reply =>
    .log ⟨.trace, .requests, "reply dispatched",
      [("uid", toString reply.uid), ("pin", toString reply.pin), ("status", reply.status.name)]⟩
    return true
  | .error reason =>
    .log ⟨.warn, .requests, s!"dropping {m.kind}: {reason.text}", [("uid", toString m.uid)]⟩
    return false

end Hub

end GpioBridge
