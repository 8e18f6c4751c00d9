import GpioBridge.Hub.Request

namespace GpioBridge

inductive LineMode where
  | input
  | output (level : Bool)
  | disabled
  deriving DecidableEq, Repr

inductive PinSetting where
  | biasDisable
  | biasBusHold
  | biasPullDown
  | biasPullUp
  | driveOpenDrain
  | driveOpenSource
  | drivePushPull
  | driveStrength (milliamperes : UInt32)
  | inputDebounce (microseconds : UInt32)
  | inputSchmittTrigger (on : Bool)
  | persistState (on : Bool)
  deriving DecidableEq, Repr

namespace PinSetting

-- What a bridge is asked for: nothing where the setting is dealt with here, and a refusal for the
-- settings no bridge knows.
def wiring? : PinSetting → Except Fault (Option Wiring)
  | biasDisable => .ok (some .biasDisable)
  | biasPullDown => .ok (some .biasPullDown)
  | biasPullUp => .ok (some .biasPullUp)
  | driveOpenDrain => .ok (some .driveOpenDrain)
  | driveOpenSource => .ok (some .driveOpenSource)
  | drivePushPull => .ok (some .drivePushPull)
  | persistState _ => .ok none
  | biasBusHold | driveStrength _ | inputDebounce _ | inputSchmittTrigger _ => .error .unsupported

def text : PinSetting → String
  | biasDisable => "BiasDisable"
  | biasBusHold => "BiasBusHold"
  | biasPullDown => "BiasPullDown"
  | biasPullUp => "BiasPullUp"
  | driveOpenDrain => "DriveOpenDrain"
  | driveOpenSource => "DriveOpenSource"
  | drivePushPull => "DrivePushPull"
  | driveStrength milliamperes => s!"DriveStrength({milliamperes})"
  | inputDebounce microseconds => s!"InputDebounce({microseconds})"
  | inputSchmittTrigger on => s!"InputSchmittTrigger({on})"
  | persistState on => s!"PersistState({on})"

end PinSetting

namespace Hub

-- What every operation but asking for the direction looks at first.
def ready (hub : Hub) (id : ChipId) (pin : UInt32) : Except Fault Unit :=
  let chip := hub.chip id
  if chip.initialized then chip.checkPin pin else .error .notReady

def setLevel (id : ChipId) (pin : UInt32) (level : Bool) : Hub → Hub :=
  modifyChip id fun chip => chip.modifyMemory pin fun memory => { memory with level }

def setLineDirection (id : ChipId) (pin : UInt32) (direction : Direction) : Hub → Hub :=
  modifyChip id fun chip => chip.modifyMemory pin fun memory => { memory with direction }

-- Has the bridge drive a level, and remembers it.
def writeLevel (id : ChipId) (pin : UInt32) (level : Bool) : HubProcess (Except Fault Unit) := do
  match ← call id pin (.setValue level) with
  | .error fault => return .error fault
  | .ok _ =>
    .modify (setLevel id pin level)
    return .ok ()

def writeDirection (id : ChipId) (pin : UInt32) (direction : Direction) :
    HubProcess (Except Fault Unit) := do
  match ← call id pin (.setDirection direction) with
  | .error fault => return .error fault
  | .ok _ =>
    .modify (setLineDirection id pin direction)
    return .ok ()

def getValue (id : ChipId) (pin : UInt32) : HubProcess (Except Fault Bool) := do
  match (← .get).ready id pin with
  | .error fault => return .error fault
  | .ok () =>
    match ← call id pin .getValue with
    | .error fault => return .error fault
    | .ok .done => return .error (.violation "get-value answered without a level")
    | .ok (.level level) =>
      .modify (setLevel id pin level)
      return .ok level

def setValue (id : ChipId) (pin : UInt32) (level : Bool) : HubProcess (Except Fault Unit) := do
  match (← .get).ready id pin with
  | .error fault => return .error fault
  | .ok () => writeLevel id pin level

def setConfig (id : ChipId) (pin : UInt32) (setting : PinSetting) :
    HubProcess (Except Fault Unit) := do
  match (← .get).ready id pin with
  | .error fault => return .error fault
  | .ok () =>
    match setting.wiring? with
    | .error fault => return .error fault
    | .ok none =>
      let uid := ((← .get).chip id).uid
      .log ⟨.debug, .operations, s!"{setting.text} handled locally",
        [("uid", toString uid), ("pin", toString pin)]⟩
      return .ok ()
    | .ok (some wiring) =>
      match ← call id pin (.setConfig wiring) with
      | .error fault => return .error fault
      | .ok _ => return .ok ()

-- Changes the direction. A line that is to be driven gets its level in a second request, which is
-- made only if the first succeeded.
def setDirection (id : ChipId) (pin : UInt32) (mode : LineMode) :
    HubProcess (Except Fault Unit) := do
  match (← .get).ready id pin with
  | .error fault => return .error fault
  | .ok () =>
    match mode with
    | .input => writeDirection id pin .input
    | .disabled => writeDirection id pin .disabled
    | .output level =>
      match ← writeDirection id pin .output with
      | .error fault => return .error fault
      | .ok () => writeLevel id pin level

-- The direction last confirmed; the bridge is not asked.
def getDirection (id : ChipId) (pin : UInt32) : HubProcess (Except Fault Direction) := do
  let chip := (← .get).chip id
  match chip.memory? pin with
  | some memory => return .ok memory.direction
  | none => return .error (chip.noSuchLine pin)

def free (id : ChipId) (pin : UInt32) : HubProcess (Except Fault Unit) :=
  setDirection id pin .disabled

end Hub

end GpioBridge
