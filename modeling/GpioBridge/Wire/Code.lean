namespace GpioBridge

inductive Status where
  | ok
  | notSupported
  | brokenPipe
  | protocolError
  | unknown
  deriving DecidableEq, Repr, Inhabited

namespace Status

-- The word a status is written as; the largest word stands for everything unlisted.
def code : Status → UInt32
  | ok => 0
  | notSupported => 1
  | brokenPipe => 2
  | protocolError => 3
  | unknown => 0xFFFFFFFF

-- Every word is read as some status.
def ofCode (word : UInt32) : Status :=
  if word = 0 then ok
  else if word = 1 then notSupported
  else if word = 2 then brokenPipe
  else if word = 3 then protocolError
  else unknown

def isOk (status : Status) : Bool := status == ok

def name : Status → String
  | ok => "Ok"
  | notSupported => "NotSupported"
  | brokenPipe => "BrokenPipe"
  | protocolError => "ProtocolError"
  | unknown => "Unknown"

theorem ofCode_code (status : Status) : ofCode status.code = status := by
  cases status <;> rfl

end Status

inductive Direction where
  | output
  | input
  | disabled
  deriving DecidableEq, Repr

-- A line nobody has set is sampled, not driven.
instance : Inhabited Direction := ⟨.input⟩

namespace Direction

def code : Direction → UInt32
  | output => 0
  | input => 1
  | disabled => 2

def ofCode? (word : UInt32) : Option Direction :=
  if word = 0 then some output
  else if word = 1 then some input
  else if word = 2 then some disabled
  else none

def text : Direction → String
  | output => "output"
  | input => "input"
  | disabled => "disabled"

theorem ofCode?_code (direction : Direction) : ofCode? direction.code = some direction := by
  cases direction <;> rfl

end Direction

inductive Wiring where
  | biasDisable
  | biasPullDown
  | biasPullUp
  | driveOpenDrain
  | driveOpenSource
  | drivePushPull
  deriving DecidableEq, Repr

namespace Wiring

-- The generic pin parameter numbers; the gaps are parameters a bridge is never asked for.
def code : Wiring → UInt32
  | biasDisable => 1
  | biasPullDown => 3
  | biasPullUp => 5
  | driveOpenDrain => 6
  | driveOpenSource => 7
  | drivePushPull => 8

def ofCode? (word : UInt32) : Option Wiring :=
  if word = 1 then some biasDisable
  else if word = 3 then some biasPullDown
  else if word = 5 then some biasPullUp
  else if word = 6 then some driveOpenDrain
  else if word = 7 then some driveOpenSource
  else if word = 8 then some drivePushPull
  else none

theorem ofCode?_code (wiring : Wiring) : ofCode? wiring.code = some wiring := by
  cases wiring <;> rfl

end Wiring

structure ApiVersion where
  major : UInt8
  minor : UInt8
  patch : UInt8
  deriving DecidableEq, Repr

namespace ApiVersion

-- Two sides can talk when their major versions agree.
def compatible (a b : ApiVersion) : Bool := a.major == b.major

def text (v : ApiVersion) : String := s!"{v.major}.{v.minor}.{v.patch}"

def current : ApiVersion := ⟨1, 0, 0⟩

end ApiVersion

end GpioBridge
