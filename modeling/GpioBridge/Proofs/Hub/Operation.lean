import GpioBridge.Hub.Consumer
import GpioBridge.Hub.Lifecycle
import GpioBridge.Hub.Reply

namespace GpioBridge.Hub

inductive Operation where
  | register (r : Registration)
  | withdraw (uid : UInt64)
  | teardown
  | dispatch (m : Message)
  | call (id : ChipId) (pin : UInt32) (request : Request)
  | getValue (id : ChipId) (pin : UInt32)
  | setValue (id : ChipId) (pin : UInt32) (level : Bool)
  | setConfig (id : ChipId) (pin : UInt32) (setting : PinSetting)
  | setDirection (id : ChipId) (pin : UInt32) (mode : LineMode)
  | getDirection (id : ChipId) (pin : UInt32)
  | free (id : ChipId) (pin : UInt32)

inductive Outcome where
  | chip (result : Except Fault ChipId)
  | unit (result : Except Fault Unit)
  | count (chips : Nat)
  | delivered (yes : Bool)
  | reply (result : Except Fault Reply)
  | level (result : Except Fault Bool)
  | direction (result : Except Fault Direction)

namespace Operation

def process : Operation → HubProcess Outcome
  | .register r => (Hub.register r).bind fun result => .done (.chip result)
  | .withdraw uid => (Hub.withdraw uid).bind fun result => .done (.unit result)
  | .teardown => Hub.teardown.bind fun chips => .done (.count chips)
  | .dispatch m => (Hub.dispatch m).bind fun yes => .done (.delivered yes)
  | .call id pin request => (Hub.call id pin request).bind fun result => .done (.reply result)
  | .getValue id pin => (Hub.getValue id pin).bind fun result => .done (.level result)
  | .setValue id pin level => (Hub.setValue id pin level).bind fun result => .done (.unit result)
  | .setConfig id pin setting =>
      (Hub.setConfig id pin setting).bind fun result => .done (.unit result)
  | .setDirection id pin mode =>
      (Hub.setDirection id pin mode).bind fun result => .done (.unit result)
  | .getDirection id pin => (Hub.getDirection id pin).bind fun result => .done (.direction result)
  | .free id pin => (Hub.free id pin).bind fun result => .done (.unit result)

-- Registering, withdrawing and tearing down change which chips there are.
def isLifecycle : Operation → Bool
  | .register _ | .withdraw _ | .teardown => true
  | _ => false

def isDispatch : Operation → Bool
  | .dispatch _ => true
  | _ => false

end Operation

end GpioBridge.Hub
