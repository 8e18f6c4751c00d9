import GpioBridge.Proofs.Hub.Balance
import GpioBridge.Proofs.Hub.Call
import GpioBridge.Proofs.Hub.Lines

namespace GpioBridge

def Demand.message? : Demand → Option Message
  | send m => some m
  | _ => none

namespace Hub

-- What comes in at each time, and how a demand that is made then is answered.
structure World where
  heard : Nat → List Message
  answer : Nat → (demand : Demand) → demand.Answer

-- A hub, and what it has heard and sent until now.
structure Scene where
  hub : Hub
  time : Nat := 0
  heard : List Message := []
  sent : List Message := []

-- Nothing has happened but that messages came in.
structure Scene.Idles (scene last : Scene) : Prop where
  hub : ∃ messages, last.heard = scene.heard ++ messages ∧ last.hub = deliverAll messages scene.hub
  sent : last.sent = scene.sent

namespace World

-- The time is over: what came in has been delivered.
def pass (world : World) (scene : Scene) : Scene where
  hub := deliverAll (world.heard scene.time) scene.hub
  time := scene.time + 1
  heard := scene.heard ++ world.heard scene.time
  sent := scene.sent

-- Carries out an operation from beginning to end.
def attend {α : Type} (world : World) : HubProcess α → Scene → α × Scene
  | .done result, scene => (result, scene)
  | .step change next, scene =>
    let passed := world.pass scene
    world.attend (next passed.hub) { passed with hub := change passed.hub }
  | .note _ next, scene => world.attend next (world.pass scene)
  | .ask demand next, scene =>
    let passed := world.pass scene
    world.attend (next (world.answer scene.time demand))
      { passed with sent := passed.sent ++ demand.message?.toList }

section Attend

variable {α β : Type} {world : World} {scene : Scene} {P : Hub → Prop}

theorem attend_step (world : World) (change : Hub → Hub) (next : Hub → HubProcess α)
    (scene : Scene) :
    world.attend (.step change next) scene = world.attend (next (world.pass scene).hub)
      { world.pass scene with hub := change (world.pass scene).hub } := rfl

theorem attend_send (world : World) (m : Message)
    (next : Except TransportFault Unit → HubProcess α) (scene : Scene) :
    world.attend (.ask (.send m) next) scene =
      world.attend (next (world.answer scene.time (.send m)))
        { world.pass scene with sent := scene.sent ++ [m] } := rfl

theorem attend_bind (p : HubProcess α) (f : α → HubProcess β) (scene : Scene) :
    world.attend (p.bind f) scene =
      world.attend (f (world.attend p scene).1) (world.attend p scene).2 := by
  induction p generalizing scene with
  | done => rfl
  | step change next ih => exact ih _ _
  | note event next ih => exact ih _
  | ask demand next ih => exact ih _ _

theorem keeps_deliverAll (hdeliver : ∀ m hub, P hub → P (deliver m hub).2) (messages : List Message)
    {hub : Hub} (h : P hub) : P (deliverAll messages hub) := by
  induction messages generalizing hub with
  | nil => exact h
  | cons m rest ih => exact ih (hdeliver m hub h)

-- What neither the steps of an operation take from the hub nor what comes in, the operation leaves
-- it.
theorem keeps_attend {p : HubProcess α} (hp : Messaging P p)
    (hdeliver : ∀ m hub, P hub → P (deliver m hub).2) (h : P scene.hub) :
    P (world.attend p scene).2.hub := by
  have hpass : ∀ {scene : Scene}, P scene.hub → P (world.pass scene).hub :=
    keeps_deliverAll hdeliver _
  induction p generalizing scene with
  | done => exact h
  | step change next ih => exact ih _ (hp.2 _) (hp.1 _ (hpass h))
  | note event next ih => exact ih hp (hpass h)
  | ask demand next ih => exact ih _ (hp.2 _) (hpass h)

theorem resembles_attend_call (world : World) (id : ChipId) (pin : UInt32) (request : Request)
    (scene : Scene) : scene.hub.Resembles (world.attend (call id pin request) scene).2.hub :=
  keeps_attend
    (messaging_call (fun _ counters h => h.trans (resembles_counters _ counters))
      (fun _ h => h.trans (resembles_collect id pin _)) request)
    (fun m _ h => h.trans (resembles_deliver m _)) (resembles_refl _)

end Attend

end World

namespace Scene.Idles

variable {scene mid last : Scene}

theorem of_pass (world : World) (scene : Scene) : scene.Idles (world.pass scene) :=
  ⟨⟨_, rfl, rfl⟩, rfl⟩

theorem trans (h : scene.Idles mid) (h' : mid.Idles last) : scene.Idles last := by
  obtain ⟨⟨messages, hheard, hhub⟩, hsent⟩ := h
  obtain ⟨⟨messages', hheard', hhub'⟩, hsent'⟩ := h'
  refine ⟨⟨messages ++ messages', ?_, ?_⟩, hsent'.trans hsent⟩
  · rw [hheard', hheard, List.append_assoc]
  · rw [hhub', hhub, deliverAll, deliverAll, deliverAll, List.foldl_append]

theorem resembles (h : scene.Idles last) : scene.hub.Resembles last.hub := by
  obtain ⟨⟨messages, -, hhub⟩, -⟩ := h
  rw [hhub]
  exact World.keeps_deliverAll (P := scene.hub.Resembles)
    (fun m _ h => h.trans (resembles_deliver m _)) messages (resembles_refl _)

end Scene.Idles

-- The process asks for nothing any more, and what it comes to is like this.
def Concludes {α : Type} (P : α → Prop) : HubProcess α → Prop
  | .done result => P result
  | .step _ next => ∀ hub, Concludes P (next hub)
  | .note _ next => Concludes P next
  | .ask _ _ => False

theorem Concludes.attend {α : Type} {P : α → Prop} {p : HubProcess α} (h : Concludes P p)
    (world : World) (scene : Scene) :
    P (world.attend p scene).1 ∧ (world.attend p scene).2.sent = scene.sent := by
  induction p generalizing scene with
  | done => exact ⟨h, rfl⟩
  | step change next ih => exact ih _ (h _) _
  | note event next ih => exact ih h _
  | ask demand next ih => exact h.elim

-- A successful read tells a level.
def Admits (request : Request) (result : Except Fault Reply) : Prop :=
  request = .getValue → result ≠ .ok .done

theorem admits_result (request : Request) (uid : UInt64) (pin : UInt32)
    (outcome : GpioBridge.Outcome) : Admits request (request.result uid pin outcome) := by
  rintro rfl
  exact (Request.tells_result .getValue uid pin rfl fun _ => rfl).notDone rfl

theorem admits_error (request : Request) (fault : Fault) : Admits request (.error fault) :=
  fun _ => nofun

-- A call about a line of the chip sends its message and nothing else.
theorem exists_call {hub : Hub} {id : ChipId} {pin : UInt32}
    (hpin : pin.toNat < (hub.chip id).names.length) (request : Request) :
    ∃ (rest : Hub → HubProcess (Except Fault Reply))
      (next : Except TransportFault Unit → HubProcess (Except Fault Reply)),
      call id pin request = .step (fun hub => hub) rest ∧
        rest hub = .ask (.send (request.message (hub.chip id).uid pin)) next ∧
        ∀ answer, Concludes (Admits request) (next answer) := by
  have hcell : (hub.chip id).cell? pin ≠ none := mt Chip.cell?_eq_none_iff.mp (by omega)
  simp only [call, HubProcess.send_bind, Process.bind_eq, Process.pure_eq, Process.get_bind,
    Process.modify_bind, Process.update_bind, Process.log_bind]
  refine ⟨_, _, rfl, if_neg (by simpa using hcell), fun answer => ?_⟩
  -- Both that the message went out and that nobody listens lead to the wait.
  rcases answer with fault | _
  · cases fault with
    | noSubscribers =>
      intro _ hub
      dsimp only
      cases (collect id pin hub).1 with
      | none => exact fun _ => admits_error request _
      | some outcome => exact admits_result request _ pin outcome
    | _ => exact admits_error request _
  · intro _ hub
    dsimp only
    cases (collect id pin hub).1 with
    | none => exact fun _ => admits_error request _
    | some outcome => exact admits_result request _ pin outcome

theorem attend_call {scene : Scene} {id : ChipId} {pin : UInt32}
    (hpin : pin.toNat < (scene.hub.chip id).names.length) (world : World) (request : Request) :
    (world.attend (call id pin request) scene).2.sent =
        scene.sent ++ [request.message (scene.hub.chip id).uid pin] ∧
      Admits request (world.attend (call id pin request) scene).1 := by
  have hpassed := (Scene.Idles.of_pass world scene).resembles
  rw [← names_of_outline hpassed.outline] at hpin
  obtain ⟨rest, next, hcall, hsend, hconcludes⟩ := exists_call hpin request
  rw [← uid_of_outline hpassed.outline, hcall, World.attend_step, hsend, World.attend_send]
  obtain ⟨hresult, hsent⟩ := (hconcludes _).attend world _
  exact ⟨hsent, hresult⟩

end Hub

end GpioBridge
