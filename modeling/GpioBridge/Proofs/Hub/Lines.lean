import GpioBridge.Hub.Consumer
import GpioBridge.Proofs.Process.Maintains

namespace GpioBridge

def Demand.isSend : Demand → Bool
  | send _ => true
  | _ => false

namespace Hub

open Process

-- No step of the process takes this from the hub, and all it asks for is that messages are sent.
def Messaging {α : Type} (P : Hub → Prop) : HubProcess α → Prop
  | .done _ => True
  | .step change next => (∀ hub, P hub → P (change hub)) ∧ ∀ hub, Messaging P (next hub)
  | .note _ next => Messaging P next
  | .ask demand next => demand.isSend = true ∧ ∀ answer, Messaging P (next answer)

section Messaging

variable {α β : Type} {P : Hub → Prop}

theorem messaging_step {change : Hub → Hub} {next : Hub → HubProcess α}
    (hchange : ∀ hub, P hub → P (change hub)) (hnext : ∀ hub, Messaging P (next hub)) :
    Messaging P (.step change next) :=
  ⟨hchange, hnext⟩

theorem messaging_get {next : Hub → HubProcess α} (hnext : ∀ hub, Messaging P (next hub)) :
    Messaging P (.step id next) :=
  ⟨fun _ h => h, hnext⟩

theorem messaging_send {m : Message} {next : Except TransportFault Unit → HubProcess α}
    (hnext : ∀ answer, Messaging P (next answer)) : Messaging P (.ask (.send m) next) :=
  ⟨rfl, hnext⟩

theorem Messaging.bind {p : HubProcess α} {f : α → HubProcess β} (hp : Messaging P p)
    (hf : ∀ a, Messaging P (f a)) : Messaging P (p.bind f) := by
  induction p with
  | done a => exact hf a
  | step change next ih => exact ⟨hp.1, fun hub => ih hub (hp.2 hub)⟩
  | note event next ih => exact ih hp
  | ask demand next ih => exact ⟨hp.1, fun answer => ih answer (hp.2 answer)⟩

theorem Messaging.maintains {p : HubProcess α} (hp : Messaging P p) : p.Maintains P := by
  induction p with
  | done => trivial
  | step change next ih => exact ⟨hp.1, fun hub => ih hub (hp.2 hub)⟩
  | note event next ih => exact ih hp
  | ask demand next ih => exact fun answer => ih answer (hp.2 answer)

end Messaging

structure KeptByLines (id : ChipId) (P : Hub → Prop) : Prop where
  count : ∀ hub counters, P hub → P { hub with counters }
  collect : ∀ hub pin, P hub → P (collect id pin hub).2
  setLevel : ∀ hub pin level, P hub → P (setLevel id pin level hub)

-- Directions may change too.
structure KeptByTurns (id : ChipId) (P : Hub → Prop) : Prop extends KeptByLines id P where
  setLineDirection : ∀ hub pin direction, P hub → P (setLineDirection id pin direction hub)

section Lines

variable {id : ChipId} {P : Hub → Prop} {pin : UInt32}

-- A call remembers nothing by itself.
theorem messaging_call (hcount : ∀ hub counters, P hub → P { hub with counters })
    (hcollect : ∀ hub, P hub → P (Hub.collect id pin hub).2) (request : Request) :
    Messaging P (call id pin request) := by
  simp only [Hub.call, bind_eq, pure_eq, get_bind, HubProcess.send_bind, modify_bind, update_bind,
    log_bind]
  refine messaging_get fun hub => ?_
  have hwait {next : Hub → HubProcess (Except Fault Reply)}
      (hnext : ∀ hub, Messaging P (next hub)) :
      Messaging P (.step countSent fun _ => .step (fun hub => (Hub.collect id pin hub).2) next) :=
    messaging_step (fun _ hP => hcount _ _ hP) fun _ => messaging_step hcollect hnext
  split
  · trivial
  refine messaging_send fun (answer : Except TransportFault Unit) => ?_
  split
  · refine hwait fun hub => ?_
    split
    · exact messaging_get fun _ => trivial
    · trivial
  · refine hwait fun hub => ?_
    split
    · exact messaging_get fun _ => trivial
    · trivial
  · trivial

theorem KeptByLines.call (h : KeptByLines id P) (request : Request) :
    Messaging P (call id pin request) :=
  messaging_call h.count (fun _ hP => h.collect _ pin hP) request

theorem KeptByLines.writeLevel (h : KeptByLines id P) (level : Bool) :
    Messaging P (writeLevel id pin level) := by
  refine (h.call (.setValue level)).bind fun result => ?_
  cases result with
  | error fault => trivial
  | ok reply => exact messaging_step (fun _ hP => h.setLevel _ pin level hP) fun _ => trivial

theorem KeptByTurns.writeDirection (h : KeptByTurns id P) (direction : Direction) :
    Messaging P (writeDirection id pin direction) := by
  refine (h.call (.setDirection direction)).bind fun result => ?_
  cases result with
  | error fault => trivial
  | ok reply =>
    exact messaging_step (fun _ hP => h.setLineDirection _ pin direction hP) fun _ => trivial

theorem messaging_ready {α : Type} {go : HubProcess (Except Fault α)} (h : Messaging P go) :
    Messaging P (.step (fun hub => hub) fun hub => match hub.ready id pin with
      | .error fault => .done (.error fault)
      | .ok () => go) := by
  refine messaging_step (fun _ h => h) fun hub => ?_
  split
  · trivial
  · exact h

theorem KeptByLines.getValue (h : KeptByLines id P) : Messaging P (getValue id pin) := by
  refine messaging_ready ((h.call .getValue).bind fun result => ?_)
  rcases result with fault | (_ | level)
  · trivial
  · trivial
  · exact messaging_step (fun _ hP => h.setLevel _ pin level hP) fun _ => trivial

theorem KeptByLines.setConfig (h : KeptByLines id P) (setting : PinSetting) :
    Messaging P (setConfig id pin setting) := by
  refine messaging_ready ?_
  cases setting.wiring? with
  | error fault => trivial
  | ok wiring? =>
    cases wiring? with
    | none => exact messaging_get fun _ => trivial
    | some wiring =>
      refine (h.call (.setConfig wiring)).bind fun result => ?_
      cases result <;> trivial

theorem KeptByTurns.setDirection (h : KeptByTurns id P) (mode : LineMode) :
    Messaging P (setDirection id pin mode) := by
  refine messaging_ready ?_
  cases mode with
  | input => exact h.writeDirection .input
  | disabled => exact h.writeDirection .disabled
  | output level =>
    refine (h.writeDirection .output).bind fun result => ?_
    cases result with
    | error fault => trivial
    | ok => exact h.writeLevel level

-- Asking for the direction changes nothing.
theorem messaging_getDirection (id : ChipId) (pin : UInt32) :
    Messaging P (getDirection id pin) := by
  simp only [getDirection, bind_eq, pure_eq, get_bind]
  refine messaging_get fun hub => ?_
  split <;> trivial

end Lines

end Hub

end GpioBridge
