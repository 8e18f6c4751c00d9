import GpioBridge.Hub.Request

namespace GpioBridge

structure SimLine where
  level : Bool := false
  direction : Direction := .disabled
  wiring : Wiring := .biasDisable
  deriving DecidableEq, Repr, Inhabited

-- What a bridge answers to a message, given its lines, and its lines afterwards.
abbrev Responder := Message → List SimLine → Option Message × List SimLine

namespace SimLine

def fresh (count : Nat) : List SimLine := List.replicate count {}

-- Applies a change to a line that is there; a line that is not there is a protocol error, and a
-- change no code stands for is not supported.
def apply (lines : List SimLine) (pin : UInt32) (change : Option (SimLine → SimLine)) :
    Status × List SimLine :=
  if pin.toNat < lines.length then
    match change with
    | some f => (.ok, lines.modify pin.toNat f)
    | none => (.notSupported, lines)
  else (.protocolError, lines)

-- Carries out every line request and says how it went; other messages are not answered.
def echo : Responder
  | .getValue uid pin, lines =>
    match lines[pin.toNat]? with
    | some line =>
      (some (.getValueReply uid pin Status.ok.code (some (levelWord line.level))), lines)
    | none => (some (.getValueReply uid pin Status.protocolError.code none), lines)
  | .setValue uid pin value, lines =>
    let (status, lines) := apply lines pin (some fun line => { line with level := value != 0 })
    (some (.setValueReply uid pin status.code), lines)
  | .setConfig uid pin config, lines =>
    let change := (Wiring.ofCode? config).map fun wiring (line : SimLine) => { line with wiring }
    let (status, lines) := apply lines pin change
    (some (.setConfigReply uid pin status.code), lines)
  | .setDirection uid pin direction, lines =>
    let change := (Direction.ofCode? direction).map fun direction (line : SimLine) =>
      { line with direction }
    let (status, lines) := apply lines pin change
    (some (.setDirectionReply uid pin status.code), lines)
  | _, lines => (none, lines)

def drive (pin : UInt32) (level : Bool) (lines : List SimLine) : List SimLine :=
  lines.modify pin.toNat fun line => { line with level }

end SimLine

end GpioBridge
