import GpioBridge.Proofs.Core.Basic
import GpioBridge.Proofs.Hub.Memory
import GpioBridge.Simulation.Responder

namespace GpioBridge

variable {β : Type}

-- What a bridge says to a request about a line: a status word, and a value if it has one.
structure Answer where
  status : UInt32
  value : Option UInt32 := none

-- How a bridge answers a request, and what becomes of its state.
abbrev Bridge (β : Type) := Message → β → Answer × β

-- The state of a bridge and the requests it has seen, the latest last.
structure Exchange (β : Type) where
  state : β
  seen : List Message := []

def Exchange.ask (bridge : Bridge β) (m : Message) (exchange : Exchange β) : Answer × Exchange β :=
  ((bridge m exchange.state).1, ⟨(bridge m exchange.state).2, exchange.seen ++ [m]⟩)

-- What consumers do with a line.
inductive Action where
  | getValue
  | setValue (level : Bool)
  | setConfig (setting : PinSetting)
  | setDirection (mode : LineMode)
  | getDirection
  | free

def Action.operation (id : ChipId) (pin : UInt32) : Action → Hub.Operation
  | getValue => .getValue id pin
  | setValue level => .setValue id pin level
  | setConfig setting => .setConfig id pin setting
  | setDirection mode => .setDirection id pin mode
  | getDirection => .getDirection id pin
  | free => .free id pin

namespace Core

-- Surroundings in which nobody listens.
def deaf {τ : Type} : Process.Surroundings Core τ Message fun _ => Except TransportFault Unit where
  answer _ core t := (.error .noSubscribers, core, t)
  hear _ t := t

-- A transport to a bridge that answers.
def answering (bridge : Bridge β) :
    Process.Surroundings Core (Exchange β) Message fun _ => Except TransportFault Unit where
  answer m core exchange :=
    match m.asked? with
    | none => (.ok (), core, exchange)
    | some (kind, uid, pin) =>
      let (answer, exchange) := exchange.ask bridge m
      let reply := kind.reply uid pin answer.status answer.value
      let (_, core, exchange) := (Operation.hub (.dispatch reply)).process.run deaf core exchange
      (.ok (), core, exchange)
  hear _ exchange := exchange

-- Runs operations one after the other and gives what each of them returned.
def perform {τ : Type}
    (transport : Process.Surroundings Core τ Message fun _ => Except TransportFault Unit) :
    List Operation → Core → τ → List Outcome × Core × τ
  | [], core, t => ([], core, t)
  | operation :: rest, core, t =>
    let (outcome, core, t) := operation.process.run transport core t
    let (outcomes, core, t) := perform transport rest core t
    (outcome :: outcomes, core, t)

end Core

-- Consumers who ask a bridge themselves: the bridge, and what is remembered of each line.
structure Direct (β : Type) where
  exchange : Exchange β
  memory : UInt64 → UInt32 → Line.Memory

-- What a status word says about a request.
def verdict (status : UInt32) : Except Fault Unit :=
  if status = 0 then .ok ()
  else if status = 1 then .error .unsupported
  else if status = 2 then .error .brokenPipe
  else if status = 3 then .error (.violation "bridge reported a protocol error")
  else .error .unknown

namespace Direct

def ask (bridge : Bridge β) (m : Message) (direct : Direct β) :
    Except Fault (Option UInt32) × Direct β :=
  let (answer, exchange) := direct.exchange.ask bridge m
  ((verdict answer.status).map fun _ => answer.value, { direct with exchange })

def remember (uid : UInt64) (pin : UInt32) (f : Line.Memory → Line.Memory) (direct : Direct β) :
    Direct β :=
  { direct with
    memory := fun other place =>
      if other = uid ∧ place = pin then f (direct.memory other place)
      else direct.memory other place }

-- A bridge that says yes to a read has to say the level too.
def read (bridge : Bridge β) (uid : UInt64) (pin : UInt32) (direct : Direct β) :
    Except Fault Bool × Direct β :=
  match direct.ask bridge (.getValue uid pin) with
  | (.error fault, direct) => (.error fault, direct)
  | (.ok none, direct) => (.error .unresponsive, direct)
  | (.ok (some word), direct) =>
    (.ok (word != 0), direct.remember uid pin fun line => { line with level := word != 0 })

def drive (bridge : Bridge β) (uid : UInt64) (pin : UInt32) (level : Bool) (direct : Direct β) :
    Except Fault Unit × Direct β :=
  match direct.ask bridge (.setValue uid pin (if level then 1 else 0)) with
  | (.error fault, direct) => (.error fault, direct)
  | (.ok _, direct) => (.ok (), direct.remember uid pin fun line => { line with level })

def turn (bridge : Bridge β) (uid : UInt64) (pin : UInt32) (direction : Direction)
    (direct : Direct β) : Except Fault Unit × Direct β :=
  match direct.ask bridge (.setDirection uid pin direction.code) with
  | (.error fault, direct) => (.error fault, direct)
  | (.ok _, direct) => (.ok (), direct.remember uid pin fun line => { line with direction })

-- Some settings no bridge knows, and one is none of its business.
def configure (bridge : Bridge β) (uid : UInt64) (pin : UInt32) (setting : PinSetting)
    (direct : Direct β) : Except Fault Unit × Direct β :=
  match setting.wiring? with
  | .error fault => (.error fault, direct)
  | .ok none => (.ok (), direct)
  | .ok (some wiring) =>
    match direct.ask bridge (.setConfig uid pin wiring.code) with
    | (.error fault, direct) => (.error fault, direct)
    | (.ok _, direct) => (.ok (), direct)

-- A line that is to be driven gets its level after its direction, if the bridge agreed to that.
def setMode (bridge : Bridge β) (uid : UInt64) (pin : UInt32) (mode : LineMode)
    (direct : Direct β) : Except Fault Unit × Direct β :=
  match mode with
  | .input => direct.turn bridge uid pin .input
  | .disabled => direct.turn bridge uid pin .disabled
  | .output level =>
    match direct.turn bridge uid pin .output with
    | (.error fault, direct) => (.error fault, direct)
    | (.ok (), direct) => direct.drive bridge uid pin level

def act (bridge : Bridge β) (uid : UInt64) (pin : UInt32) (action : Action) (direct : Direct β) :
    Core.Outcome × Direct β :=
  match action with
  | .getValue =>
    let (result, direct) := direct.read bridge uid pin
    (.hub (.level result), direct)
  | .setValue level =>
    let (result, direct) := direct.drive bridge uid pin level
    (.hub (.unit result), direct)
  | .setConfig setting =>
    let (result, direct) := direct.configure bridge uid pin setting
    (.hub (.unit result), direct)
  | .setDirection mode =>
    let (result, direct) := direct.setMode bridge uid pin mode
    (.hub (.unit result), direct)
  | .getDirection => (.hub (.direction (.ok (direct.memory uid pin).direction)), direct)
  | .free =>
    let (result, direct) := direct.turn bridge uid pin .disabled
    (.hub (.unit result), direct)

end Direct

-- Something a consumer does with the line a uid and a pin name.
structure Use where
  uid : UInt64
  pin : UInt32
  action : Action

-- What becomes of it in a core: the uid names a chip of the hub.
def Use.operation (hub : Hub) (use : Use) : Core.Operation :=
  .hub (use.action.operation ((hub.find? use.uid).getD default) use.pin)

-- Does things one after the other and gives what came of each of them.
def Direct.perform (bridge : Bridge β) : List Use → Direct β → List Core.Outcome × Direct β
  | [], direct => ([], direct)
  | ⟨uid, pin, action⟩ :: rest, direct =>
    let (outcome, direct) := direct.act bridge uid pin action
    let (outcomes, direct) := direct.perform bridge rest
    (outcome :: outcomes, direct)

end GpioBridge
