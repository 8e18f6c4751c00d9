import GpioBridge.Wire.Code

namespace GpioBridge

-- One message. Numbers are kept as they travel, so that an unlisted code survives reading. Requests
-- have no number, so a reply belongs to whoever waits on the line it names.
inductive Message where
  | init (uid : UInt64) (lineCount : UInt32) (label : String) (names : List String)
  -- The outcome of `init`: zero or an error number.
  | initAck (uid : UInt64) (status : UInt32)
  | deinit (uid : UInt64)
  | deinitAck (uid : UInt64) (status : UInt32) (version : ApiVersion)
  | getValue (uid : UInt64) (pin : UInt32)
  -- The answer to `getValue`; a successful one has to carry its level.
  | getValueReply (uid : UInt64) (pin : UInt32) (status : UInt32) (value : Option UInt32)
  | setValue (uid : UInt64) (pin : UInt32) (value : UInt32)
  | setValueReply (uid : UInt64) (pin : UInt32) (status : UInt32)
  | setConfig (uid : UInt64) (pin : UInt32) (config : UInt32)
  | setConfigReply (uid : UInt64) (pin : UInt32) (status : UInt32)
  | setDirection (uid : UInt64) (pin : UInt32) (direction : UInt32)
  | setDirectionReply (uid : UInt64) (pin : UInt32) (status : UInt32)
  | exit (uid : UInt64) (message : String)
  deriving DecidableEq, Repr

-- The uid that addresses every bridge at once and is never a chip's.
def broadcastUid : UInt64 := 0

structure LineReply where
  uid : UInt64
  pin : UInt32
  status : Status
  level : Option Bool
  deriving DecidableEq, Repr

namespace Message

def uid : Message → UInt64
  | init u _ _ _ | initAck u _ | deinit u | deinitAck u _ _
  | getValue u _ | getValueReply u _ _ _ | setValue u _ _ | setValueReply u _ _
  | setConfig u _ _ | setConfigReply u _ _ | setDirection u _ _ | setDirectionReply u _ _
  | exit u _ => u

def kind : Message → String
  | init .. => "init"
  | initAck .. => "init-ack"
  | deinit .. => "deinit"
  | deinitAck .. => "deinit-ack"
  | getValue .. => "get-value"
  | getValueReply .. => "get-value-reply"
  | setValue .. => "set-value"
  | setValueReply .. => "set-value-reply"
  | setConfig .. => "set-config"
  | setConfigReply .. => "set-config-reply"
  | setDirection .. => "set-direction"
  | setDirectionReply .. => "set-direction-reply"
  | exit .. => "exit"

def isControl : Message → Bool
  | init .. | deinit .. => true
  | _ => false

def isLineRequest : Message → Bool
  | getValue .. | setValue .. | setConfig .. | setDirection .. => true
  | _ => false

def isLineReply : Message → Bool
  | getValueReply .. | setValueReply .. | setConfigReply .. | setDirectionReply .. => true
  | _ => false

inductive Reading where
  | notReply
  | missingLevel (uid : UInt64) (pin : UInt32)
  | reply (reply : LineReply)
  deriving DecidableEq, Repr

-- A level is high for every word but zero, and only a successful read has one.
def reading : Message → Reading
  | getValueReply uid pin status value =>
    match Status.ofCode status, value with
    | .ok, some word => .reply ⟨uid, pin, .ok, some (word != 0)⟩
    | .ok, none => .missingLevel uid pin
    | other, _ => .reply ⟨uid, pin, other, none⟩
  | setValueReply uid pin status
  | setConfigReply uid pin status
  | setDirectionReply uid pin status => .reply ⟨uid, pin, Status.ofCode status, none⟩
  | _ => .notReply

def goodbye : Message := exit broadcastUid "vgpio core is no longer running"

end Message

end GpioBridge
