import GpioBridge.Proofs.Core.Proxy
import GpioBridge.Proofs.Hub.World

namespace GpioBridge

-- The requests an action comes to.
def Action.requests : Action → List Request
  | getValue => [.getValue]
  | setValue level => [.setValue level]
  | setConfig setting =>
    match setting.wiring? with
    | .ok (some wiring) => [.setConfig wiring]
    | _ => []
  | setDirection .input => [.setDirection .input]
  | setDirection (.output level) => [.setDirection .output, .setValue level]
  | setDirection .disabled | free => [.setDirection .disabled]
  | getDirection => []

-- A request, and what its caller was told.
abbrev Answered := Request × Except Fault Reply

def faultOf {α : Type} : Except Fault α → Option Fault
  | .error fault => some fault
  | .ok _ => none

-- The first failure.
def failure? (answers : List Answered) : Option Fault := answers.findSome? fun answer => faultOf answer.2

-- A failure changes nothing of what is remembered, and a success what it was about.
def Line.Memory.learn (memory : Line.Memory) : Answered → Line.Memory
  | (.getValue, .ok (.level level)) | (.setValue level, .ok _) => { memory with level }
  | (.setDirection direction, .ok _) => { memory with direction }
  | _ => memory

theorem Line.Memory.learn_error (memory : Line.Memory) (request : Request) (fault : Fault) :
    memory.learn (request, .error fault) = memory := by
  cases request <;> rfl

namespace Hub

def Outcome.failure? : Outcome → Option Fault
  | .chip result => faultOf result
  | .unit result => faultOf result
  | .reply result => faultOf result
  | .level result => faultOf result
  | .direction result => faultOf result
  | .count _ | .delivered _ => none

-- What a caller does when its request succeeded.
def keep (id : ChipId) (pin : UInt32) : Request → Reply → HubProcess Unit
  | .getValue, .level level | .setValue level, _ => .modify (setLevel id pin level)
  | .setDirection direction, _ => .modify (setLineDirection id pin direction)
  | _, _ => .done ()

-- Requests about a line are made one after the other until one fails.
inductive World.Consults (world : World) (id : ChipId) (pin : UInt32) :
    List Request → Scene → List Answered → Scene → Prop where
  | done {scene} : Consults world id pin [] scene [] scene
  | failed {request rest scene fault last}
      (hcall : world.attend (call id pin request) scene = (.error fault, last)) :
      Consults world id pin (request :: rest) scene [(request, .error fault)] last
  | confirmed {request rest scene reply mid answers last}
      (hcall : world.attend (call id pin request) scene = (.ok reply, mid))
      (hrest : Consults world id pin rest (world.attend (keep id pin request reply) mid).2 answers
        last) :
      Consults world id pin (request :: rest) scene ((request, .ok reply) :: answers) last

-- What is remembered of one line follows what callers were told, and nothing else changes but
-- counters and cells.
structure Learns (hub hub' : Hub) (id : ChipId) (pin : UInt32) (answers : List Answered) : Prop where
  outline : hub'.outline = hub.outline
  memory : hub'.memoryOf? id pin = (hub.memoryOf? id pin).map (answers.foldl Line.Memory.learn)
  others : ∀ other place, ¬(other = id ∧ place = pin) →
    hub'.memoryOf? other place = hub.memoryOf? other place

section Learns

variable {hub mid hub' : Hub} {id : ChipId} {pin : UInt32} {answers later : List Answered}

theorem Resembles.learns (h : hub.Resembles hub') (id : ChipId) (pin : UInt32)
    (hsame : ∀ memory, answers.foldl Line.Memory.learn memory = memory) :
    Learns hub hub' id pin answers where
  outline := h.outline
  memory := by
    rw [h.memoryOf?, funext hsame]
    exact Option.map_id'.symm
  others other place _ := h.memoryOf? other place

theorem Learns.trans (h : Learns hub mid id pin answers) (h' : Learns mid hub' id pin later) :
    Learns hub hub' id pin (answers ++ later) where
  outline := h'.outline.trans h.outline
  memory := by
    rw [h'.memory, h.memory, Option.map_map]
    congr 1
    funext memory
    exact List.foldl_append.symm
  others other place hne := (h'.others other place hne).trans (h.others other place hne)

theorem learns_modifyMemory {f : Line.Memory → Line.Memory} {answer : Answered}
    (hf : ∀ memory, f memory = memory.learn answer) (hub : Hub) (id : ChipId) (pin : UInt32) :
    Learns hub (hub.modifyChip id fun chip => chip.modifyMemory pin f) id pin [answer] where
  outline := outline_modifyChip (by intro chip; rfl) id hub
  memory := by
    rw [memoryOf?_modifyMemory, if_pos ⟨rfl, rfl⟩, funext hf]
    rfl
  others other place hne := by rw [memoryOf?_modifyMemory, if_neg hne]

variable {world : World} {scene last : Scene} {request : Request} {requests : List Request}

theorem learns_keep {reply : Reply} (h : Admits request (.ok reply)) (world : World) (id : ChipId)
    (pin : UInt32) (scene : Scene) :
    (world.attend (keep id pin request reply) scene).2.sent = scene.sent ∧
      Learns scene.hub (world.attend (keep id pin request reply) scene).2.hub id pin
        [(request, .ok reply)] := by
  have hpassed : Learns scene.hub (world.pass scene).hub id pin [] :=
    (Scene.Idles.of_pass world scene).resembles.learns id pin fun _ => rfl
  cases request with
  | getValue =>
    cases reply with
    | done => exact absurd rfl (h rfl)
    | level =>
      exact ⟨rfl, hpassed.trans (learns_modifyMemory (by intro memory; rfl) _ id pin)⟩
  | setValue | setDirection =>
    exact ⟨rfl, hpassed.trans (learns_modifyMemory (by intro memory; rfl) _ id pin)⟩
  | setConfig => exact ⟨rfl, (resembles_refl scene.hub).learns id pin fun _ => rfl⟩

-- By induction on the requests: what is remembered between two of them leaves the chip as long as
-- it was and its uid what it was.
theorem World.Consults.learns (h : world.Consults id pin requests scene answers last)
    (hpin : pin.toNat < (scene.hub.chip id).names.length) :
    last.sent = scene.sent ++
        answers.map (fun answer => answer.1.message (scene.hub.chip id).uid pin) ∧
      Learns scene.hub last.hub id pin answers := by
  induction h with
  | done => exact ⟨(List.append_nil _).symm, (resembles_refl _).learns id pin fun _ => rfl⟩
  | @failed request rest scene fault last hcall =>
    have hresembles := resembles_attend_call world id pin request scene
    obtain ⟨hsent, -⟩ := attend_call hpin world request
    rw [hcall] at hresembles hsent
    exact ⟨hsent, hresembles.learns id pin fun memory => memory.learn_error request fault⟩
  | @confirmed request rest scene reply mid answers last hcall hrest ih =>
    have hresembles := resembles_attend_call world id pin request scene
    obtain ⟨hsent, hadmits⟩ := attend_call hpin world request
    rw [hcall] at hresembles hsent hadmits
    obtain ⟨hkept, hlearns⟩ := learns_keep hadmits world id pin mid
    have hcalled : Learns scene.hub mid.hub id pin [] := hresembles.learns id pin fun _ => rfl
    have hconfirmed := hcalled.trans hlearns
    obtain ⟨hlater, hrest⟩ := ih (by rwa [names_of_outline hconfirmed.outline])
    refine ⟨?_, hconfirmed.trans hrest⟩
    rw [hlater, hkept, hsent, uid_of_outline hconfirmed.outline, List.map_cons, List.append_assoc,
      List.singleton_append]

end Learns

-- What the outcome of an action says of its requests.
structure Tells (answers : List Answered) (outcome : Outcome) : Prop where
  failure : outcome.failure? = failure? answers
  level : ∀ level, outcome = .level (.ok level) → answers = [(.getValue, .ok (.level level))]

theorem tells_unit {answers : List Answered} {result : Except Fault Unit}
    (h : faultOf result = failure? answers) : Tells answers (.unit result) where
  failure := h
  level _ hlevel := by cases hlevel

section Actions

variable {α : Type} {world : World} {scene : Scene} {id : ChipId} {pin : UInt32} {request : Request}
  {rest requests : List Request} {R : List Answered → Except Fault α → Prop}

-- A process makes these requests, and its result fits what it was told.
def Comes (world : World) (id : ChipId) (pin : UInt32) (requests : List Request) (scene : Scene)
    (p : HubProcess (Except Fault α)) (R : List Answered → Except Fault α → Prop) : Prop :=
  ∃ answers, world.Consults id pin requests scene answers (world.attend p scene).2 ∧
    R answers (world.attend p scene).1

theorem comes_done {result : Except Fault α} (h : R [] result) :
    Comes world id pin [] scene (.done result) R :=
  ⟨[], .done, h⟩

-- A process that makes a request, ends if it fails, and else keeps what the success says and goes
-- on.
theorem comes_call {f : Except Fault Reply → HubProcess (Except Fault α)}
    (hpin : pin.toNat < (scene.hub.chip id).names.length)
    (hfailed : ∀ fault, f (.error fault) = .done (.error fault) ∧
      R [(request, .error fault)] (.error fault))
    (hconfirmed : ∀ reply, Admits request (.ok reply) → ∃ next,
      f (.ok reply) = (keep id pin request reply).bind (fun _ => next) ∧
        ∀ later : Scene, pin.toNat < (later.hub.chip id).names.length →
          Comes world id pin rest later next fun answers => R ((request, .ok reply) :: answers)) :
    Comes world id pin (request :: rest) scene ((call id pin request).bind f) R := by
  have hresembles := World.resembles_attend_call world id pin request scene
  obtain ⟨-, hadmits⟩ := attend_call hpin world request
  unfold Comes
  rw [World.attend_bind]
  cases hcall : world.attend (call id pin request) scene with
  | mk result mid =>
    rw [hcall] at hresembles hadmits
    cases result with
    | error fault =>
      obtain ⟨hdone, htold⟩ := hfailed fault
      rw [hdone]
      exact ⟨_, .failed hcall, htold⟩
    | ok reply =>
      obtain ⟨next, hkeep, hcomes⟩ := hconfirmed reply hadmits
      obtain ⟨-, hlearns⟩ := learns_keep hadmits world id pin mid
      rw [← names_of_outline hresembles.outline, ← names_of_outline hlearns.outline]
        at hpin
      obtain ⟨answers, hconsults, htold⟩ := hcomes _ hpin
      rw [hkeep, World.attend_bind]
      exact ⟨_, .confirmed hcall hconsults, htold⟩

theorem comes_writeLevel (hpin : pin.toNat < (scene.hub.chip id).names.length) (level : Bool)
    {R : List Answered → Except Fault Unit → Prop}
    (hfailed : ∀ fault, R [(.setValue level, .error fault)] (.error fault))
    (hconfirmed : ∀ reply, R [(.setValue level, .ok reply)] (.ok ())) :
    Comes world id pin [.setValue level] scene (writeLevel id pin level) R :=
  comes_call hpin (fun fault => ⟨rfl, hfailed fault⟩) fun reply _ =>
    ⟨.done (.ok ()), rfl, fun _ _ => comes_done (hconfirmed reply)⟩

theorem comes_writeDirection (hpin : pin.toNat < (scene.hub.chip id).names.length)
    (direction : Direction) :
    Comes world id pin [.setDirection direction] scene (writeDirection id pin direction)
      fun answers result => Tells answers (.unit result) :=
  comes_call hpin (fun _ => ⟨rfl, tells_unit rfl⟩) fun _ _ =>
    ⟨.done (.ok ()), rfl, fun _ _ => comes_done (tells_unit rfl)⟩

-- The second request is made only if the first succeeded.
theorem comes_writeBoth (hpin : pin.toNat < (scene.hub.chip id).names.length) (level : Bool)
    {f : Except Fault Unit → HubProcess (Except Fault Unit)}
    (hfailed : ∀ fault, f (.error fault) = .done (.error fault))
    (hturned : f (.ok ()) = writeLevel id pin level) :
    Comes world id pin [.setDirection .output, .setValue level] scene
      ((writeDirection id pin .output).bind f)
      fun answers result => Tells answers (.unit result) := by
  rw [writeDirection, Process.bind_eq, Process.bind_assoc]
  refine comes_call hpin (fun fault => ⟨hfailed fault, tells_unit rfl⟩) fun _ _ =>
    ⟨f (.ok ()), rfl, fun _ hpin => ?_⟩
  rw [hturned]
  exact comes_writeLevel hpin level (fun _ => tells_unit rfl) fun _ => tells_unit rfl

theorem ready_of_outline {hub hub' : Hub} (h : hub'.outline = hub.outline) (id : ChipId)
    (pin : UInt32) : hub'.ready id pin = hub.ready id pin := by
  simp only [ready, Chip.checkPin, Chip.noSuchLine, initialized_of_outline h, lineCount_of_outline h]

-- Goes on only if the line can be used.
def checked (id : ChipId) (pin : UInt32) (p : HubProcess (Except Fault α)) :
    HubProcess (Except Fault α) :=
  Process.get.bind fun hub => match hub.ready id pin with
    | .error fault => .done (.error fault)
    | .ok () => p

-- Replies that come in before that is looked at make no difference to it.
theorem attend_checked (world : World) (scene : Scene) (id : ChipId) (pin : UInt32)
    (p : HubProcess (Except Fault α)) :
    world.attend (checked id pin p) scene =
      match scene.hub.ready id pin with
      | .error fault => (.error fault, world.pass scene)
      | .ok () => world.attend p (world.pass scene) := by
  rw [← ready_of_outline (Scene.Idles.of_pass world scene).resembles.outline id pin, checked,
    Process.get_bind, World.attend_step]
  cases (world.pass scene).hub.ready id pin <;> rfl

theorem Comes.action {p : HubProcess (Except Fault α)} {wrap : Except Fault α → Outcome}
    (hready : scene.hub.ready id pin = .ok ())
    (h : Comes world id pin requests (world.pass scene) p fun answers result =>
      Tells answers (wrap result)) :
    let done := world.attend ((checked id pin p).bind fun result => .done (wrap result)) scene
    ∃ answers, world.Consults id pin requests (world.pass scene) answers done.2 ∧
      Tells answers done.1 := by
  rw [World.attend_bind, attend_checked, hready]
  exact h

-- On a line that can be used an action makes the requests it comes to.
theorem comes_action (hready : scene.hub.ready id pin = .ok ())
    (hpin : pin.toNat < (scene.hub.chip id).names.length) (action : Action)
    (hasks : action.requests ≠ []) :
    let done := world.attend (action.operation id pin).process scene
    ∃ answers, world.Consults id pin action.requests (world.pass scene) answers done.2 ∧
      Tells answers done.1 := by
  have hpassed := (Scene.Idles.of_pass world scene).resembles
  rw [← names_of_outline hpassed.outline] at hpin
  cases action with
  | getValue =>
    have hfailed (fault : Fault) :
        Tells [(.getValue, .error fault)] (.level (.error fault)) :=
      ⟨rfl, fun _ h => by cases h⟩
    refine Comes.action hready (comes_call hpin (fun fault => ⟨rfl, hfailed fault⟩)
      fun reply hadmits => ?_)
    cases reply with
    | done => exact absurd rfl (hadmits rfl)
    | level level =>
      refine ⟨.done (.ok level), rfl, fun _ _ => comes_done ⟨rfl, ?_⟩⟩
      rintro _ ⟨⟩
      rfl
  | setValue level =>
    exact Comes.action hready
      (comes_writeLevel hpin level (fun _ => tells_unit rfl) fun _ => tells_unit rfl)
  | setConfig setting =>
    obtain ⟨wiring, hwiring⟩ : ∃ wiring, setting.wiring? = .ok (some wiring) := by
      rcases hwiring : setting.wiring? with fault | (_ | wiring)
      · simp [Action.requests, hwiring] at hasks
      · simp [Action.requests, hwiring] at hasks
      · exact ⟨wiring, rfl⟩
    rw [Action.requests, hwiring]
    refine Comes.action hready ?_
    rw [hwiring]
    exact comes_call hpin (fun _ => ⟨rfl, tells_unit rfl⟩) fun _ _ =>
      ⟨.done (.ok ()), rfl, fun _ _ => comes_done (tells_unit rfl)⟩
  | setDirection mode =>
    cases mode with
    | input => exact Comes.action hready (comes_writeDirection hpin .input)
    | disabled => exact Comes.action hready (comes_writeDirection hpin .disabled)
    | output level => exact Comes.action hready (comes_writeBoth hpin level (fun _ => rfl) rfl)
  | getDirection => exact absurd rfl hasks
  | free => exact Comes.action hready (comes_writeDirection hpin .disabled)

theorem idles_checked {p : HubProcess (Except Fault α)} (wrap : Except Fault α → Outcome)
    (h : scene.hub.ready id pin = .ok () →
      (world.pass scene).Idles (world.attend p (world.pass scene)).2) :
    scene.Idles (world.attend ((checked id pin p).bind fun result => .done (wrap result))
      scene).2 := by
  have hpassed := Scene.Idles.of_pass world scene
  rw [World.attend_bind, attend_checked]
  cases hready : scene.hub.ready id pin with
  | error fault => exact hpassed
  | ok => exact hpassed.trans (h hready)

-- An action that cannot use the line does nothing, nor does one that comes to no requests.
theorem idles_action (world : World) (action : Action)
    (h : scene.hub.ready id pin = .ok () → action.requests = []) :
    scene.Idles (world.attend (action.operation id pin).process scene).2 := by
  have hpassed := Scene.Idles.of_pass world
  have hnever {request : Request} {rest : List Request}
      (hrequests : action.requests = request :: rest) : scene.hub.ready id pin ≠ .ok () :=
    fun hready => List.cons_ne_nil request rest (hrequests.symm.trans (h hready))
  cases action with
  | getValue => exact idles_checked .level fun hready => absurd hready (hnever rfl)
  | setValue => exact idles_checked .unit fun hready => absurd hready (hnever rfl)
  | setConfig setting =>
    refine idles_checked .unit fun hready => ?_
    have hnone := h hready
    rw [Action.requests] at hnone
    rcases hwiring : setting.wiring? with fault | (_ | wiring) <;> rw [hwiring] at hnone
    · exact ⟨⟨[], (List.append_nil _).symm, rfl⟩, rfl⟩
    · exact (hpassed _).trans (hpassed _)
    · cases hnone
  | setDirection mode =>
    refine idles_checked .unit fun hready => ?_
    cases mode with
    | input | disabled | output => exact absurd hready (hnever rfl)
  | getDirection =>
    change scene.Idles (world.attend ((getDirection id pin).bind _) scene).2
    rw [World.attend_bind, getDirection, Process.bind_eq, Process.get_bind, World.attend_step]
    dsimp only
    cases ((world.pass scene).hub.chip id).memory? pin <;> exact hpassed scene
  | free => exact idles_checked .unit fun hready => absurd hready (hnever rfl)

theorem ready_eq_ok_iff {hub : Hub} : hub.ready id pin = .ok () ↔
    (hub.chip id).initialized = true ∧ pin < (hub.chip id).lineCount := by
  by_cases hready : (hub.chip id).initialized = true
  · by_cases hpin : pin < (hub.chip id).lineCount <;> simp [ready, Chip.checkPin, hready, hpin]
  · simp [ready, hready]

variable {last : Scene} {answers : List Answered} {fault : Fault}

theorem World.Consults.eq_of_failure (h : world.Consults id pin [request] scene answers last)
    (hfailed : failure? answers = some fault) : answers = [(request, .error fault)] := by
  cases h with
  | failed =>
    cases hfailed
    rfl
  | confirmed _ hrest =>
    cases hrest
    cases hfailed

-- An action fails in its only request, or in one of two.
theorem answers_of_failure {action : Action}
    (h : world.Consults id pin action.requests scene answers last)
    (hfailed : failure? answers = some fault) :
    (∃ request, answers = [(request, .error fault)]) ∨
      ∃ level reply, action = .setDirection (.output level) ∧
        answers = [(.setDirection .output, .ok reply), (.setValue level, .error fault)] := by
  rcases hrequests : action.requests with _ | ⟨request, _ | ⟨second, rest⟩⟩
  · rw [hrequests] at h
    cases h
    cases hfailed
  · rw [hrequests] at h
    exact .inl ⟨request, h.eq_of_failure hfailed⟩
  · obtain ⟨level, rfl⟩ : ∃ level, action = .setDirection (.output level) := by
      cases action with
      | setDirection mode =>
        cases mode with
        | output level => exact ⟨level, rfl⟩
        | _ => cases hrequests
      | setConfig setting =>
        rw [Action.requests] at hrequests
        split at hrequests <;> cases hrequests
      | _ => cases hrequests
    cases h with
    | failed =>
      cases hfailed
      exact .inl ⟨_, rfl⟩
    | confirmed _ hrest =>
      rw [hrest.eq_of_failure hfailed]
      exact .inr ⟨level, _, rfl, rfl⟩

end Actions

end Hub

namespace Action

-- An action asks the bridge for something.
structure Asks (action : Action) (hub : Hub) (id : ChipId) (pin : UInt32) : Prop where
  ready : (hub.chip id).initialized = true
  onChip : pin < (hub.chip id).lineCount
  requests : action.requests ≠ []

open Hub (World Scene Tells)

-- An action was carried out, and these are its requests with what was said to each. One that failed
-- leaves the line as it was, unless it failed after its first request of two.
structure CarriedOut (action : Action) (world : World) (id : ChipId) (pin : UInt32)
    (scene last : Scene) (outcome : Hub.Outcome) (answers : List Answered) : Prop where
  consults : world.Consults id pin action.requests (world.pass scene) answers last
  sent : last.sent = scene.sent ++
    answers.map (fun answer => answer.1.message (scene.hub.chip id).uid pin)
  memory : last.hub.memoryOf? id pin =
    (scene.hub.memoryOf? id pin).map (answers.foldl Line.Memory.learn)
  tells : Tells answers outcome
  failed : ∀ fault, outcome.failure? = some fault →
    last.hub.memoryOf? id pin = scene.hub.memoryOf? id pin ∨
    ∃ level reply, action = .setDirection (.output level) ∧
      answers = [(.setDirection .output, .ok reply), (.setValue level, .error fault)] ∧
      last.hub.memoryOf? id pin = (scene.hub.memoryOf? id pin).map fun memory =>
        { memory with direction := .output }

-- An action asks for what it comes to and for nothing else, and of all that is remembered only what
-- the bridge has confirmed changes: whatever the transport does, whichever replies were waiting,
-- and whichever come in at any time.
theorem changes_only_confirmed (world : World) (id : ChipId) (pin : UInt32) (action : Action)
    (scene : Scene) :
    ∃ outcome last, world.attend (action.operation id pin).process scene = (outcome, last) ∧
      last.hub.outline = scene.hub.outline ∧
      (∀ other place, ¬(other = id ∧ place = pin) →
        last.hub.memoryOf? other place = scene.hub.memoryOf? other place) ∧
      (¬action.Asks scene.hub id pin →
        scene.Idles last ∧ last.hub.memoryOf? id pin = scene.hub.memoryOf? id pin) ∧
      (action.Asks scene.hub id pin →
        ∃ answers, action.CarriedOut world id pin scene last outcome answers) := by
  refine ⟨_, _, rfl, ?_⟩
  by_cases hasks : action.Asks scene.hub id pin
  · have hready := Hub.ready_eq_ok_iff.mpr ⟨hasks.ready, hasks.onChip⟩
    have hpin := Hub.toNat_lt_of_lt_lineCount hasks.onChip
    have hpassed : Hub.Learns scene.hub (world.pass scene).hub id pin [] :=
      (Scene.Idles.of_pass world scene).resembles.learns id pin fun _ => rfl
    obtain ⟨answers, hconsults, htells⟩ := Hub.comes_action hready hpin action hasks.requests
    obtain ⟨hsent, hlearned⟩ := hconsults.learns (by
      rwa [Hub.names_of_outline hpassed.outline])
    rw [Hub.uid_of_outline hpassed.outline] at hsent
    have hlearns := hpassed.trans hlearned
    have hmemory := hlearns.memory
    refine ⟨hlearns.outline, hlearns.others, (absurd hasks ·), fun _ =>
      ⟨answers, hconsults, hsent, hmemory, htells, fun fault hfailed => ?_⟩⟩
    rw [htells.failure] at hfailed
    rcases Hub.answers_of_failure hconsults hfailed with
      ⟨request, hanswers⟩ | ⟨level, reply, haction, hanswers⟩
    · left
      rw [hmemory, hanswers]
      cases scene.hub.memoryOf? id pin with
      | none => rfl
      | some memory => exact congrArg some (memory.learn_error request fault)
    · right
      refine ⟨level, reply, haction, hanswers, ?_⟩
      rw [hmemory, hanswers]
      rfl
  · have hidles := Hub.idles_action world action fun hready => by
      by_contra hrequests
      obtain ⟨hinitialized, hpin⟩ := Hub.ready_eq_ok_iff.mp hready
      exact hasks ⟨hinitialized, hpin, hrequests⟩
    have hresembles := hidles.resembles
    exact ⟨hresembles.outline, fun other place _ => hresembles.memoryOf? other place, fun _ =>
      ⟨hidles, hresembles.memoryOf? id pin⟩, (absurd · hasks)⟩

-- A world in which nobody listens and from which nothing comes in.
def silentWorld : World where
  heard _ := []
  answer _
    | .send _ => (.error .noSubscribers : Except TransportFault Unit)
    | .expose _ _ => (.error .busy : Except Fault Handle)
    | .conceal _ => ()
    | .isHeld _ _ => false

-- The first of two requests is confirmed by an old reply though nobody has heard it, and the second
-- is not: so the line is turned but keeps its level.
example :
    let (outcome, last) := silentWorld.attend
      ((setDirection (.output true)).operation ⟨0⟩ 0).process { hub := Hub.strayed }
    outcome.failure? = some .unresponsive ∧
      last.sent = [.setDirection 5 0 0, .setValue 5 0 1] ∧
      last.hub.memoryOf? ⟨0⟩ 0 = some { level := false, direction := .output } := by
  decide

end Action

end GpioBridge
