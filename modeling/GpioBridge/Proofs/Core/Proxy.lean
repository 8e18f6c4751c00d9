import GpioBridge.Proofs.Core.Bridge
import GpioBridge.Proofs.Core.Readiness

namespace GpioBridge

variable {β : Type}

namespace Request

def kind : Request → RequestKind
  | getValue => .getValue
  | setValue _ => .setValue
  | setConfig _ => .setConfig
  | setDirection _ => .setDirection

theorem asked?_message (request : Request) (uid : UInt64) (pin : UInt32) :
    (request.message uid pin).asked? = some (request.kind, uid, pin) := by
  cases request <;> rfl

-- What a request comes to when the bridge answers like this.
def comesTo (request : Request) (answer : Except Fault (Option UInt32)) : Except Fault Reply :=
  match answer with
  | .error fault => .error fault
  | .ok value =>
    match request with
    | getValue =>
      match value with
      | none => .error .unresponsive
      | some word => .ok (.level (word != 0))
    | setValue _ | setConfig _ | setDirection _ => .ok .done

theorem verdict_eq (status : UInt32) : verdict status = (Status.ofCode status).toResult := by
  unfold verdict Status.ofCode
  repeat' split
  all_goals rfl

-- A reply is read as what its bridge said, unless it is a successful read without a level.
theorem reading_reply (request : Request) (uid : UInt64) (pin : UInt32) (answer : Answer) :
    (∃ level, (request.kind.reply uid pin answer.status answer.value).reading =
        .reply ⟨uid, pin, Status.ofCode answer.status, level⟩ ∧
      ∀ old, request.result uid pin ⟨Status.ofCode answer.status,
          if (Status.ofCode answer.status).isOk then level else old⟩ =
        request.comesTo ((verdict answer.status).map fun _ => answer.value)) ∨
    ((request.kind.reply uid pin answer.status answer.value).reading = .missingLevel uid pin ∧
      request.comesTo ((verdict answer.status).map fun _ => answer.value) =
        .error .unresponsive) := by
  obtain ⟨word, value⟩ := answer
  rw [verdict_eq]
  simp only
  cases request with
  | getValue =>
    dsimp only [kind, RequestKind.reply, Message.reading]
    cases Status.ofCode word with
    | ok =>
      cases value with
      | none => exact .inr ⟨rfl, rfl⟩
      | some level => exact .inl ⟨some (level != 0), rfl, fun _ => rfl⟩
    | _ => exact .inl ⟨none, rfl, fun _ => rfl⟩
  | setValue | setConfig | setDirection =>
    left
    refine ⟨none, rfl, fun _ => ?_⟩
    cases Status.ofCode word <;> rfl

end Request

namespace Hub

-- A line of a chip that can be used.
structure Serves (hub : Hub) (uid : UInt64) (pin : UInt32) (id : ChipId) : Prop where
  keyed : hub.Keyed
  mapped : hub.find? uid = some id
  present : (hub.chip id).retired = false
  ready : (hub.chip id).initialized = true
  inRange : pin < (hub.chip id).lineCount

variable {hub hub' : Hub} {uid : UInt64} {pin : UInt32} {id : ChipId}

theorem lineCount_of_outline (h : hub'.outline = hub.outline) (id : ChipId) :
    (hub'.chip id).lineCount = (hub.chip id).lineCount :=
  congrArg Descriptor.lineCount (descriptor_of_outline h id)

theorem keyed_of_outline (h : hub'.outline = hub.outline) (hkeyed : hub.Keyed) : hub'.Keyed := by
  intro other id hf
  rw [find?_of_outline h] at hf
  rw [uid_of_outline h, hkeyed hf]

theorem Serves.of_outline (hs : hub.Serves uid pin id) (h : hub'.outline = hub.outline) :
    hub'.Serves uid pin id where
  keyed := keyed_of_outline h hs.keyed
  mapped := (find?_of_outline h uid).trans hs.mapped
  present := (retired_of_outline h id).trans hs.present
  ready := (initialized_of_outline h id).trans hs.ready
  inRange := by
    rw [lineCount_of_outline h]
    exact hs.inRange

theorem toNat_lt_of_lt_lineCount {chip : Chip} (h : pin < chip.lineCount) :
    pin.toNat < chip.names.length := by
  have hlt := UInt32.lt_iff_toNat_lt.mp h
  rw [Chip.lineCount, UInt32.toNat_ofNat'] at hlt
  exact hlt.trans_le (Nat.mod_le _ _)

theorem Serves.exists_cell (hs : hub.Serves uid pin id) :
    ∃ cell, (hub.chip id).cell? pin = some cell :=
  Chip.exists_cell_iff.mpr (toNat_lt_of_lt_lineCount hs.inRange)

theorem Serves.exists_memory (hs : hub.Serves uid pin id) :
    ∃ memory, hub.memoryOf? id pin = some memory :=
  Chip.exists_memory_iff.mpr (toNat_lt_of_lt_lineCount hs.inRange)

theorem Serves.ready_eq (hs : hub.Serves uid pin id) : hub.ready id pin = .ok () := by
  simp [Hub.ready, hs.ready, Chip.checkPin, hs.inRange]

-- What the caller finds after the bridge has answered is what the answer comes to.
theorem collect_of_answer (hs : hub.Serves uid pin id) (hidle : hub.unclaimed = 0)
    (request : Request) (answer : Answer) :
    ∃ outcome hub', collect id pin
        (deliver (request.kind.reply uid pin answer.status answer.value) hub).2.countSent =
          (outcome, hub') ∧ Settles hub hub' ∧
      outcome.elim (.error .unresponsive) (request.result uid pin) =
        request.comesTo ((verdict answer.status).map fun _ => answer.value) := by
  obtain ⟨cell, hcell⟩ := hs.exists_cell
  have hempty := (unclaimed_eq_zero_iff.mp hidle).of_cell? hcell
  rcases request.reading_reply uid pin answer with ⟨level, hreading, hresult⟩ | ⟨hreading, hresult⟩
  · obtain ⟨hub', hcollect, hsettles⟩ :=
      collect_of_reply hs.mapped hs.present hcell hempty hreading
    exact ⟨_, hub', hcollect, hsettles, hresult cell.level⟩
  · have hdropped : hub.recipient (request.kind.reply uid pin answer.status answer.value) =
        .error (.missingLevel uid pin) := by
      rw [recipient, hreading]
    obtain ⟨hub', hcollect, hsettles⟩ := collect_of_dropped hcell hempty hdropped
    exact ⟨none, hub', hcollect, hsettles, hresult.symm⟩

end Hub

namespace Core

-- A core that talks to a bridge and consumers who do so directly have come to the same.
structure Mirrors (base : Hub) (core : Core) (exchange : Exchange β) (direct : Direct β) :
    Prop where
  outline : core.hub.outline = base.outline
  memory : core.hub.memory = direct.memory
  exchange : exchange = direct.exchange
  idle : core.hub.unclaimed = 0

-- An operation comes to the same in a core as its result and its effect say for the bridge itself.
def Matches {α : Type} (bridge : Bridge β) (base : Hub) (p : CoreProcess α) (core : Core)
    (exchange : Exchange β) (direct : α × Direct β) : Prop :=
  ∃ core' exchange', p.run (answering bridge) core exchange = (direct.1, core', exchange') ∧
    Mirrors base core' exchange' direct.2

section Operations

variable {base : Hub} {core : Core} {exchange : Exchange β} {direct : Direct β} {uid : UInt64}
  {pin : UInt32} {id : ChipId} {bridge : Bridge β}

theorem run_dispatch {τ : Type} (m : Message) (core : Core) (t : τ) :
    ((Operation.hub (.dispatch m)).process.run deaf core t).2 =
      ({ core with hub := (Hub.deliver m core.hub).2 }, t) := by
  obtain ⟨event, hrun⟩ := run_delivered deaf m core t
  rw [hrun]
  rfl

theorem answer_request (bridge : Bridge β) (request : Request) (uid : UInt64) (pin : UInt32)
    (core : Core) (exchange : Exchange β) :
    (answering bridge).answer (request.message uid pin) core exchange =
      (.ok (), { core with hub := (Hub.deliver (request.kind.reply uid pin
          (exchange.ask bridge (request.message uid pin)).1.status
          (exchange.ask bridge (request.message uid pin)).1.value) core.hub).2 },
        (exchange.ask bridge (request.message uid pin)).2) := by
  simp only [answering, request.asked?_message, run_dispatch]

-- A request comes to what the bridge said, and leaves nothing behind.
theorem matches_call (bridge : Bridge β) (h : Mirrors base core exchange direct)
    (hs : base.Serves uid pin id) (request : Request) :
    Matches bridge base (onHub (Hub.call id pin request)) core exchange
      (request.comesTo (direct.ask bridge (request.message uid pin)).1,
        (direct.ask bridge (request.message uid pin)).2) := by
  have hserves := hs.of_outline h.outline
  have huid : (core.hub.chip id).uid = uid := hserves.keyed hserves.mapped
  obtain ⟨cell, hcell⟩ := hserves.exists_cell
  obtain ⟨outcome, hub', hcollect, hsettles, hresult⟩ := Hub.collect_of_answer hserves h.idle
    request (exchange.ask bridge (request.message uid pin)).1
  have hmirrors : Mirrors base { core with hub := hub' }
      (exchange.ask bridge (request.message uid pin)).2
      (direct.ask bridge (request.message uid pin)).2 := by
    refine ⟨hsettles.outline.trans h.outline, hsettles.memory.trans h.memory, ?_,
      hsettles.unclaimed.trans h.idle⟩
    rw [h.exchange]
    rfl
  have hask : (direct.ask bridge (request.message uid pin)).1 =
      (verdict (exchange.ask bridge (request.message uid pin)).1.status).map fun _ =>
        (exchange.ask bridge (request.message uid pin)).1.value := by
    rw [h.exchange]
    rfl
  refine ⟨_, _, ?_, hmirrors⟩
  dsimp only
  rw [hask, ← hresult]
  simp only [Hub.call, HubProcess.send_bind, Process.bind_eq, Process.pure_eq, Process.get_bind,
    Process.modify_bind, Process.update_bind, Process.log_bind, onHub_step, Process.run, id_eq, hcell,
    Option.isNone_some, Bool.false_eq_true, if_false, huid, onHub_send, answer_request, hcollect]
  cases outcome <;> rfl

theorem matches_done {α : Type} (h : Mirrors base core exchange direct) (a : α) :
    Matches bridge base (.done a) core exchange (a, direct) :=
  ⟨core, exchange, rfl, h⟩

theorem Matches.bind {α γ : Type} {p : CoreProcess α} {f : α → CoreProcess γ}
    {middle : α × Direct β} {last : γ × Direct β} (hp : Matches bridge base p core exchange middle)
    (hf : ∀ {core' exchange'}, Mirrors base core' exchange' middle.2 →
      Matches bridge base (f middle.1) core' exchange' last) :
    Matches bridge base (p.bind f) core exchange last := by
  obtain ⟨core', exchange', hrun, hmirrors⟩ := hp
  obtain ⟨core'', exchange'', hrun', hmirrors'⟩ := hf hmirrors
  refine ⟨core'', exchange'', ?_, hmirrors'⟩
  rw [Process.run_bind, hrun, hrun']

-- What a core keeps of a line consumers who ask the bridge directly keep too.
theorem Mirrors.remember (f : Line.Memory → Line.Memory) (h : Mirrors base core exchange direct)
    (hs : base.Serves uid pin id) :
    Mirrors base { core with hub := core.hub.modifyChip id fun chip => chip.modifyMemory pin f }
      exchange (direct.remember uid pin f) := by
  have hserves := hs.of_outline h.outline
  obtain ⟨memory, hmemory⟩ := hserves.exists_memory
  refine ⟨(Hub.outline_modifyChip (by intro chip; rfl) id core.hub).trans h.outline, ?_,
    h.exchange, ?_⟩
  · funext other place
    simp only [Hub.memory_modifyMemory hserves.keyed hserves.mapped hmemory, Direct.remember,
      ← h.memory]
    split
    · next hsame => rw [hsame.1, hsame.2, Hub.memory_of_memoryOf? hserves.mapped hmemory]
    · rfl
  · exact (Hub.unclaimed_modifyChip_of_eq (by intro chip; rfl) id core.hub).trans h.idle

theorem Mirrors.setLevel (h : Mirrors base core exchange direct) (hs : base.Serves uid pin id)
    (level : Bool) :
    Mirrors base { core with hub := Hub.setLevel id pin level core.hub } exchange
      (direct.remember uid pin fun line => { line with level }) :=
  h.remember _ hs

theorem Mirrors.setLineDirection (h : Mirrors base core exchange direct)
    (hs : base.Serves uid pin id) (direction : Direction) :
    Mirrors base { core with hub := Hub.setLineDirection id pin direction core.hub } exchange
      (direct.remember uid pin fun line => { line with direction }) :=
  h.remember _ hs

theorem matches_writeLevel (bridge : Bridge β) (h : Mirrors base core exchange direct)
    (hs : base.Serves uid pin id) (level : Bool) :
    Matches bridge base (onHub (Hub.writeLevel id pin level)) core exchange
      (direct.drive bridge uid pin level) := by
  have hcall := matches_call bridge h hs (.setValue level)
  rw [Hub.writeLevel, Process.bind_eq, onHub_bind, Direct.drive]
  rw [Request.message, levelWord] at hcall
  generalize direct.ask bridge (.setValue uid pin (if level then 1 else 0)) = asked at hcall ⊢
  obtain ⟨answer, direct'⟩ := asked
  refine hcall.bind fun h' => ?_
  cases answer with
  | error fault => exact matches_done h' _
  | ok value => exact ⟨_, _, rfl, h'.setLevel hs level⟩

theorem matches_writeDirection (bridge : Bridge β) (h : Mirrors base core exchange direct)
    (hs : base.Serves uid pin id) (direction : Direction) :
    Matches bridge base (onHub (Hub.writeDirection id pin direction)) core exchange
      (direct.turn bridge uid pin direction) := by
  have hcall := matches_call bridge h hs (.setDirection direction)
  rw [Hub.writeDirection, Process.bind_eq, onHub_bind, Direct.turn]
  rw [Request.message] at hcall
  generalize direct.ask bridge (.setDirection uid pin direction.code) = asked at hcall ⊢
  obtain ⟨answer, direct'⟩ := asked
  refine hcall.bind fun h' => ?_
  cases answer with
  | error fault => exact matches_done h' _
  | ok value => exact ⟨_, _, rfl, h'.setLineDirection hs direction⟩

-- What an operation does once it has found the chip ready and the pin on it.
theorem Matches.of_ready {α : Type} {rest : HubProcess (Except Fault α)}
    {last : Except Fault α × Direct β} (h : Mirrors base core exchange direct)
    (hs : base.Serves uid pin id) (hrest : Matches bridge base (onHub rest) core exchange last) :
    Matches bridge base (onHub (Process.get.bind fun hub =>
      match hub.ready id pin with
      | .error fault => .done (.error fault)
      | .ok () => rest)) core exchange last := by
  obtain ⟨core', exchange', hrun, h'⟩ := hrest
  refine ⟨core', exchange', ?_, h'⟩
  simp only [Process.get_bind, onHub_step, Process.run, id_eq, (hs.of_outline h.outline).ready_eq,
    hrun]

theorem matches_getValue (h : Mirrors base core exchange direct) (hs : base.Serves uid pin id) :
    Matches bridge base (onHub (Hub.getValue id pin)) core exchange
      (direct.read bridge uid pin) := by
  have hcall := matches_call bridge h hs .getValue
  rw [Direct.read]
  rw [Request.message] at hcall
  generalize direct.ask bridge (.getValue uid pin) = asked at hcall ⊢
  obtain ⟨answer, direct'⟩ := asked
  refine Matches.of_ready h hs ?_
  rw [Process.bind_eq, onHub_bind]
  refine hcall.bind fun h' => ?_
  cases answer with
  | error fault => exact matches_done h' _
  | ok value =>
    cases value with
    | none => exact matches_done h' _
    | some word => exact ⟨_, _, rfl, h'.setLevel hs (word != 0)⟩

theorem matches_setValue (h : Mirrors base core exchange direct) (hs : base.Serves uid pin id)
    (level : Bool) :
    Matches bridge base (onHub (Hub.setValue id pin level)) core exchange
      (direct.drive bridge uid pin level) :=
  Matches.of_ready h hs (matches_writeLevel bridge h hs level)

theorem matches_setConfig (h : Mirrors base core exchange direct) (hs : base.Serves uid pin id)
    (setting : PinSetting) :
    Matches bridge base (onHub (Hub.setConfig id pin setting)) core exchange
      (direct.configure bridge uid pin setting) := by
  refine Matches.of_ready h hs ?_
  unfold Direct.configure
  cases setting.wiring? with
  | error fault => exact matches_done h _
  | ok wiring =>
    cases wiring with
    | none => exact ⟨core, exchange, rfl, h⟩
    | some wiring =>
      have hcall := matches_call bridge h hs (.setConfig wiring)
      rw [Request.message] at hcall
      simp only
      generalize direct.ask bridge (.setConfig uid pin wiring.code) = asked at hcall ⊢
      obtain ⟨answer, direct'⟩ := asked
      rw [Process.bind_eq, onHub_bind]
      refine hcall.bind fun h' => ?_
      cases answer <;> exact matches_done h' _

theorem matches_setDirection (h : Mirrors base core exchange direct) (hs : base.Serves uid pin id)
    (mode : LineMode) :
    Matches bridge base (onHub (Hub.setDirection id pin mode)) core exchange
      (direct.setMode bridge uid pin mode) := by
  refine Matches.of_ready h hs ?_
  cases mode with
  | input => exact matches_writeDirection bridge h hs .input
  | disabled => exact matches_writeDirection bridge h hs .disabled
  | output level =>
    have hturn := matches_writeDirection bridge h hs .output
    simp only [Direct.setMode]
    generalize direct.turn bridge uid pin .output = turned at hturn ⊢
    obtain ⟨result, direct'⟩ := turned
    rw [Process.bind_eq, onHub_bind]
    refine hturn.bind fun h' => ?_
    cases result with
    | error fault => exact matches_done h' _
    | ok => exact matches_writeLevel bridge h' hs level

theorem matches_getDirection (h : Mirrors base core exchange direct) (hs : base.Serves uid pin id) :
    Matches bridge base (onHub (Hub.getDirection id pin)) core exchange
      (.ok (direct.memory uid pin).direction, direct) := by
  have hserves := hs.of_outline h.outline
  obtain ⟨memory, hmemory⟩ := hserves.exists_memory
  have hdirection : (direct.memory uid pin).direction = memory.direction := by
    rw [← h.memory, Hub.memory_of_memoryOf? hserves.mapped hmemory]
  rw [Hub.memoryOf?] at hmemory
  refine ⟨core, exchange, ?_, h⟩
  simp only [Hub.getDirection, Process.bind_eq, Process.pure_eq, Process.get_bind, onHub_step,
    onHub_done, Process.run, id_eq, hmemory, hdirection]

-- What an operation on the hub comes to is what the core returns.
theorem Matches.outcome {α : Type} {p : HubProcess α} {last : α × Direct β}
    (hp : Matches bridge base (onHub p) core exchange last) (f : α → Hub.Outcome) :
    Matches bridge base ((onHub (p.bind fun result => .done (f result))).bind fun outcome =>
      .done (Outcome.hub outcome)) core exchange (Outcome.hub (f last.1), last.2) := by
  have hresult : Matches bridge base ((onHub p).bind fun result => onHub (.done (f result))) core
      exchange (f last.1, last.2) :=
    hp.bind fun h => matches_done h (f last.1)
  rw [onHub_bind]
  exact hresult.bind fun h => matches_done h (Outcome.hub (f last.1))

-- Whatever a consumer does with a line comes to what it comes to for the bridge itself.
theorem matches_act (bridge : Bridge β) (h : Mirrors base core exchange direct)
    (hs : base.Serves uid pin id) (action : Action) :
    Matches bridge base (Operation.hub (action.operation id pin)).process core exchange
      (direct.act bridge uid pin action) := by
  cases action with
  | getValue => exact (matches_getValue h hs).outcome .level
  | setValue level => exact (matches_setValue h hs level).outcome .unit
  | setConfig setting => exact (matches_setConfig h hs setting).outcome .unit
  | setDirection mode => exact (matches_setDirection h hs mode).outcome .unit
  | getDirection => exact (matches_getDirection h hs).outcome .direction
  | free => exact (matches_setDirection h hs .disabled).outcome .unit

-- Whatever consumers do one after the other does too.
theorem mirrors_perform (bridge : Bridge β) (h : Mirrors base core exchange direct)
    {uses : List Use} (hs : ∀ use ∈ uses, ∃ id, base.Serves use.uid use.pin id) :
    ∃ core' exchange', perform (answering bridge) (uses.map (Use.operation base)) core exchange =
        ((direct.perform bridge uses).1, core', exchange') ∧
      Mirrors base core' exchange' (direct.perform bridge uses).2 := by
  induction uses generalizing core exchange direct with
  | nil => exact ⟨core, exchange, rfl, h⟩
  | cons use rest ih =>
    obtain ⟨uid, pin, action⟩ := use
    obtain ⟨id, hserves⟩ := hs _ List.mem_cons_self
    have hoperation : Use.operation base ⟨uid, pin, action⟩ = .hub (action.operation id pin) := by
      rw [Use.operation, hserves.mapped, Option.getD_some]
    obtain ⟨core', exchange', hrun, h'⟩ := matches_act bridge h hserves action
    obtain ⟨core'', exchange'', hrest, h''⟩ :=
      ih h' fun use huse => hs use (List.mem_cons_of_mem _ huse)
    refine ⟨core'', exchange'', ?_, h''⟩
    simp only [List.map_cons, hoperation, perform, hrun, hrest, Direct.perform]

end Operations

section Run

variable {τ : Type} {answers : Message → τ → Except TransportFault Unit → τ → Prop}
  {limit : Option Nat} {patience : UInt64} {around : τ} {last : Calls τ}

-- For consumers of registered chips a core with nothing pending is as good as the bridge behind it:
-- each of them is told what the bridge itself would have told, the bridge is asked the same in the
-- same order, the same is remembered of each line, and nothing is pending afterwards. Uses may end
-- anywhere, so this holds after each of them, and nothing is left over for the next.
theorem transparent_of_run
    (hrun : Relation.ReflTransGen (Pool.Step (rules answers WaitsFor))
      ⟨{ hub := { limit, patience } }, around, []⟩ last)
    (hrest : last.AtRest) (hidle : last.state.hub.Idle) (bridge : Bridge β) (state : β)
    {uses : List Use}
    (huses : ∀ use ∈ uses, ∃ id, last.state.hub.find? use.uid = some id ∧
      (last.state.hub.chip id).registered = true ∧
      use.pin < (last.state.hub.chip id).lineCount) :
    ∃ outcomes core' exchange' memory',
      Direct.perform bridge uses ⟨⟨state, []⟩, last.state.hub.memory⟩ =
        (outcomes, ⟨exchange', memory'⟩) ∧
      perform (answering bridge) (uses.map (Use.operation last.state.hub)) last.state ⟨state, []⟩ =
        (outcomes, core', exchange') ∧
      core'.hub.memory = memory' ∧ core'.hub.Idle := by
  have hserves : ∀ use ∈ uses, ∃ id, last.state.hub.Serves use.uid use.pin id := by
    intro use huse
    obtain ⟨id, hf, hr, hpin⟩ := huses use huse
    obtain ⟨-, hpresent, hready⟩ := ready_of_run hrun hrest hf
    exact ⟨id, fun hf => (ready_of_run hrun hrest hf).1, hf, hpresent, hready hr, hpin⟩
  have hstart : Mirrors last.state.hub last.state ⟨state, []⟩
      ⟨⟨state, []⟩, last.state.hub.memory⟩ :=
    ⟨rfl, rfl, rfl, Hub.unclaimed_eq_zero_iff.mpr hidle⟩
  obtain ⟨core', exchange', hperform, hmirrors⟩ := mirrors_perform bridge hstart hserves
  refine ⟨_, core', exchange', core'.hub.memory, ?_, hperform, rfl,
    Hub.unclaimed_eq_zero_iff.mp hmirrors.idle⟩
  rw [hmirrors.exchange, hmirrors.memory]

-- Computes a run of calls that each wait until no other is under way.
def playInTurn (turns : List (Pool.Turn Operation)) : Option (List (Calls Unit)) :=
  Pool.play ⟨Operation.process, fun _ _ => (.error .noSubscribers, ()), fun _ q => !q.isDone⟩
    (fun _ _ => true) turns ⟨{}, (), []⟩

theorem reaches_of_playInTurn {turns : List (Pool.Turn Operation)} {run : List (Calls Unit)}
    {last : Calls Unit} (h : playInTurn turns = some run) (hlast : run.getLast? = some last) :
    Relation.ReflTransGen (Pool.Step (rules (fun _ _ _ _ => True) WaitsFor)) ⟨{}, (), []⟩
      last := by
  have hfree : ∀ p q : CoreProcess Outcome, (!q.isDone) = false → ¬WaitsFor p q := fun p q hq =>
    not_waitsFor_of_returned (Process.returned_of_isDone ((Bool.not_eq_false' ..).mp hq))
  exact Pool.reaches_of_play (fun turn pool next hturn _ =>
    Pool.step_of_turn? rfl (fun _ _ => trivial) hfree hturn) h hlast

-- Two chips are registered one after the other.
def twoChips : List (Pool.Turn Operation) :=
  .call (.hub (.register ⟨5, "relay", 1, ["coil"]⟩)) :: List.replicate 9 (.move 0) ++
    .call (.hub (.register ⟨7, "lamp", 2, ["near", "far"]⟩)) :: List.replicate 9 (.move 1)

-- A bridge that counts what it was asked and answers by the count.
private def moody : Bridge Nat := fun _ asked =>
  let answer : Answer :=
    match asked with
    | 0 | 1 | 2 => { status := 0 }
    | 3 => { status := 0, value := some 0x80 }
    | 4 => { status := 2, value := some 1 }
    | _ => { status := 9 }
  (answer, asked + 1)

private def mixedUses : List Use :=
  [⟨5, 0, .setDirection (.output true)⟩, ⟨7, 1, .getValue⟩, ⟨5, 0, .getValue⟩,
    ⟨7, 0, .setValue true⟩, ⟨5, 0, .getDirection⟩, ⟨7, 1, .free⟩]

theorem transparent_of_run_twoChips :
    ∃ last : Calls Unit,
      Relation.ReflTransGen (Pool.Step (rules (fun _ _ _ _ => True) WaitsFor)) ⟨{}, (), []⟩ last ∧
      last.AtRest ∧ last.state.hub.Idle ∧
      ∃ core' exchange',
        perform (answering moody) (mixedUses.map (Use.operation last.state.hub)) last.state ⟨0, []⟩ =
          ([.hub (.unit (.ok ())), .hub (.level (.error .unresponsive)), .hub (.level (.ok true)),
            .hub (.unit (.error .brokenPipe)), .hub (.direction (.ok .output)),
            .hub (.unit (.error .unknown))], core', exchange') ∧
        exchange'.seen = [.setDirection 5 0 Direction.output.code, .setValue 5 0 1, .getValue 7 1,
          .getValue 5 0, .setValue 7 0 1, .setDirection 7 1 Direction.disabled.code] ∧
        core'.hub.memory 5 0 = ⟨true, .output⟩ ∧ core'.hub.Idle := by
  have hplay : (playInTurn twoChips).any fun run => run.getLast?.any fun last =>
        (∀ call ∈ last.calls, call.2.Returned) ∧ last.state.hub.Idle ∧
        (∀ use ∈ mixedUses, ∃ id ∈ last.state.hub.find? use.uid,
          (last.state.hub.chip id).registered = true ∧
          use.pin < (last.state.hub.chip id).lineCount) := by
    decide +kernel
  obtain ⟨run, hturns, hends⟩ := (Option.any_eq_true ..).mp hplay
  obtain ⟨last, hlast, hends⟩ := (Option.any_eq_true ..).mp hends
  obtain ⟨hrest, hidle, huses⟩ := of_decide_eq_true hends
  have hrun := reaches_of_playInTurn hturns hlast
  obtain ⟨outcomes, core', exchange', memory', hdirect, hperform, rfl, hafter⟩ :=
    transparent_of_run hrun hrest hidle moody 0 huses
  -- Whatever was remembered before, the line that is asked for its direction is turned and driven
  -- first.
  have houtcomes := congrArg Prod.fst hdirect
  have hexchange := congrArg (fun result => result.2.exchange) hdirect
  have hmemory := congrArg (fun result => result.2.memory 5 0) hdirect
  refine ⟨last, hrun, hrest, hidle, core', exchange', ?_, ?_, hmemory.symm, hafter⟩
  · rw [hperform]
    exact congrArg (·, core', exchange') houtcomes.symm
  · exact congrArg Exchange.seen hexchange.symm

end Run

end Core

end GpioBridge
