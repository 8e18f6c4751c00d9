import GpioBridge.Wire.Message

namespace GpioBridge

inductive FrameFault where
  | unwritable (detail : String)
  | unreadable (detail : String)
  -- The sender writes frames of another version.
  | version (expected found : UInt8)
  deriving DecidableEq, Repr

def FrameFault.name : FrameFault → String
  | unwritable _ => "Encode"
  | unreadable _ => "Decode"
  | version _ _ => "Version"

def FrameFault.message : FrameFault → String
  | unwritable detail => s!"failed to encode frame: {detail}"
  | unreadable detail => s!"failed to decode frame: {detail}"
  | version expected found => s!"protocol version mismatch: expected {expected}, found {found}"

inductive TransportFault where
  -- Nobody was listening; whoever waits for an answer will wait in vain.
  | noSubscribers
  | closed
  | io (detail : String)
  | frame (fault : FrameFault)
  deriving DecidableEq, Repr

def TransportFault.name : TransportFault → String
  | noSubscribers => "NoSubscribers"
  | closed => "Closed"
  | io _ => "Io"
  | frame _ => "Codec"

def TransportFault.message : TransportFault → String
  | noSubscribers => "no subscribers"
  | closed => "transport closed"
  | io detail => s!"I/O error: {detail}"
  | frame fault => fault.message

inductive Fault where
  -- The chip is being withdrawn, or was.
  | notReady
  -- A line is held, or the chip is between two states.
  | busy
  | uidInUse (uid : UInt64)
  | unresponsive
  | unsupported
  -- The bridge lost its hardware.
  | brokenPipe
  | violation (detail : String)
  | sendFailed (detail : String)
  | unknown
  | noSuchLine (pin lineCount : UInt32)
  | chipLimit (limit : Nat)
  | framework (detail : String)
  deriving DecidableEq, Repr

namespace Fault

def message : Fault → String
  | notReady => "chip is not ready"
  | busy => "chip is busy"
  | uidInUse uid => s!"chip uid {uid} is already in use"
  | unresponsive => "bridge is unresponsive"
  | unsupported => "operation not supported"
  | brokenPipe => "bridge reported a broken pipe"
  | violation detail => s!"protocol violation: {detail}"
  | sendFailed detail => s!"transport failure: {detail}"
  | unknown => "bridge reported an unknown error"
  | noSuchLine pin lineCount => s!"line {pin} out of range (chip has {lineCount} lines)"
  | chipLimit limit => s!"chip limit of {limit} reached"
  | framework detail => s!"line framework error: {detail}"

def name : Fault → String
  | notReady => "NotReady"
  | busy => "Busy"
  | uidInUse _ => "AlreadyInUse"
  | unresponsive => "Unresponsive"
  | unsupported => "Unsupported"
  | brokenPipe => "BrokenPipe"
  | violation _ => "ProtocolViolation"
  | sendFailed _ => "TransportFailure"
  | unknown => "Unknown"
  | noSuchLine _ _ => "InvalidLine"
  | chipLimit _ => "ChipLimit"
  | framework _ => "Framework"

def errno : Fault → UInt32
  | notReady => 19
  | busy => 16
  | uidInUse _ => 17
  | unresponsive => 110
  | unsupported => 95
  | brokenPipe => 32
  | violation _ | noSuchLine _ _ => 22
  | chipLimit _ => 1
  | sendFailed _ | unknown | framework _ => 5

theorem errno_ne_zero (fault : Fault) : fault.errno ≠ 0 := by
  cases fault <;> simp [errno]

end Fault

-- The fault of a successful read that carries no level.
def Message.missingLevelFault (uid : UInt64) (pin : UInt32) : Fault :=
  .violation s!"get-value-reply for uid {uid} pin {pin} has no value"

def Status.toResult : Status → Except Fault Unit
  | .ok => .ok ()
  | .notSupported => .error .unsupported
  | .brokenPipe => .error .brokenPipe
  | .protocolError => .error (.violation "bridge reported a protocol error")
  | .unknown => .error .unknown

-- The status of an acknowledgement: zero for success, else the error number.
def ackStatus : Except Fault α → UInt32
  | .ok _ => 0
  | .error fault => fault.errno

theorem ackStatus_eq_zero_iff (result : Except Fault α) :
    ackStatus result = 0 ↔ ∃ value, result = .ok value := by
  cases result with
  | ok value => simp [ackStatus]
  | error fault => simp [ackStatus, Fault.errno_ne_zero]

end GpioBridge
