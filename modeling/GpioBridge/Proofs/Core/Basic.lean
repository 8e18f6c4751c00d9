import GpioBridge.LineTable
import GpioBridge.Proofs.Hub.Operation
import GpioBridge.Proofs.Process.Pool
import GpioBridge.Proofs.Process.Serve

namespace GpioBridge

structure Core where
  hub : Hub := {}
  table : LineTable ChipId := {}
  deriving Repr, Inhabited

-- An operation on a core asks for messages to be sent.
abbrev CoreProcess := Process Core Message fun _ => Except TransportFault Unit

namespace Core

-- Lets an operation on the table work on the core.
def onTable {α : Type} (free : FreeDemand ChipId → CoreProcess (Except Fault Unit)) :
    TableProcess ChipId α → CoreProcess α :=
  Process.serve table (fun table core => { core with table }) free

-- What the hub asks for. Neither exposing nor concealing a chip frees a line.
def serve : (demand : Demand) → CoreProcess demand.Answer
  | .send m => .ask m .done
  | .expose descriptor chip => onTable (fun _ => .done (.ok ())) (LineTable.expose descriptor chip)
  | .conceal handle => onTable (fun _ => .done (.ok ())) (LineTable.conceal handle)
  | .isHeld handle pin => Process.get.bind fun core => .done (core.table.isHeld handle pin)

-- Lets an operation on the hub work on the core.
def onHub {α : Type} : HubProcess α → CoreProcess α :=
  Process.serve hub (fun hub core => { core with hub }) serve

section Lemmas

variable {α γ : Type}

@[simp]
theorem onHub_done (a : α) : onHub (.done a) = .done a := rfl

@[simp]
theorem onHub_step (change : Hub → Hub) (next : Hub → HubProcess α) :
    onHub (.step change next) =
      .step (fun core => { core with hub := change core.hub }) fun core => onHub (next core.hub) :=
  rfl

@[simp]
theorem onHub_send (m : Message) (next : Except TransportFault Unit → HubProcess α) :
    onHub (.ask (.send m) next) = .ask m fun a => onHub (next a) := rfl

theorem onHub_bind (p : HubProcess α) (f : α → HubProcess γ) :
    onHub (p.bind f) = (onHub p).bind fun a => onHub (f a) :=
  Process.serve_bind p f

end Lemmas

inductive Operation where
  | hub (operation : Hub.Operation)
  -- Consumers take lines and give them back.
  | request (uid : UInt64) (pin : UInt32) (consumer : String)
  | release (uid : UInt64) (pin : UInt32)

inductive Outcome where
  | hub (outcome : Hub.Outcome)
  | requested (result : Except Fault ChipId)
  | released (result : Except Fault Unit)

namespace Operation

def process : Operation → CoreProcess Outcome
  | .hub operation => (onHub operation.process).bind fun outcome => .done (.hub outcome)
  | .request uid pin consumer =>
    (onTable (fun demand => onHub (Hub.free demand.ops demand.pin))
      (LineTable.request uid pin consumer)).bind fun result => .done (.requested result)
  | .release uid pin =>
    (onTable (fun demand => onHub (Hub.free demand.ops demand.pin))
      (LineTable.release uid pin)).bind fun result => .done (.released result)

def isLifecycle : Operation → Bool
  | .hub operation => operation.isLifecycle
  | _ => false

end Operation

-- A message is delivered in one step, and the log is told. Nothing is sent.
theorem run_delivered {τ : Type}
    (around : Process.Surroundings Core τ Message fun _ => Except TransportFault Unit) (m : Message)
    (core : Core) (t : τ) :
    ∃ event, (Operation.hub (.dispatch m)).process.run around core t =
      (.hub (.delivered (Hub.deliver m core.hub).1.isOk),
        { core with hub := (Hub.deliver m core.hub).2 }, around.hear event t) := by
  simp only [Operation.process, Hub.Operation.process, Hub.dispatch, Process.bind_eq,
    Process.pure_eq, Process.update_bind, Process.log_bind, Process.bind, onHub_step, Process.run]
  cases (Hub.deliver m core.hub).1 <;> exact ⟨_, rfl⟩

abbrev Calls (τ : Type) :=
  Pool Core τ Message (fun _ => Except TransportFault Unit) Operation Outcome

-- The calls on a core, whatever the transport answers and however they wait for each other.
def rules {τ : Type} (answers : Message → τ → Except TransportFault Unit → τ → Prop)
    (waits : CoreProcess Outcome → CoreProcess Outcome → Prop) :
    Pool.Rules Core τ Message (fun _ => Except TransportFault Unit) Operation Outcome :=
  { start := Operation.process, answers, waits }

end Core

end GpioBridge
