import GpioBridge.Proofs.Core.Echo
import GpioBridge.Proofs.Core.Slots
import GpioBridge.Proofs.Core.Unturned

namespace GpioBridge

-- Whether what a consumer did with a line succeeded.
def Core.Outcome.succeeded : Core.Outcome → Bool
  | .hub (.unit result) => result.isOk
  | .hub (.level result) => result.isOk
  | .hub (.direction result) => result.isOk
  | _ => false

-- What consumers did and what came of it, the latest last.
abbrev Log := List (Use × Core.Outcome)

namespace Log

variable {α : Type}

-- What the latest success on a line gave it, of those that gave it such a thing.
def latest (what : Action → Option α) (uid : UInt64) (pin : UInt32) (log : Log) : Option α :=
  log.reverse.findSome? fun (use, outcome) =>
    if use.uid = uid ∧ use.pin = pin ∧ outcome.succeeded then what use.action else none

def level (uid : UInt64) (pin : UInt32) (log : Log) : Bool :=
  (log.latest Action.level? uid pin).getD false

-- What a simulated line holds.
def line (uid : UInt64) (pin : UInt32) (log : Log) : SimLine where
  level := log.level uid pin
  direction := (log.latest Action.direction? uid pin).getD .disabled
  wiring := (log.latest Action.wiring? uid pin).getD .biasDisable

-- What is remembered of a line's direction, if the log begins with this hub.
def direction (hub : Hub) (uid : UInt64) (pin : UInt32) (log : Log) : Direction :=
  (log.latest Action.direction? uid pin).getD (hub.memory uid pin).direction

theorem latest_append (what : Action → Option α) (uid : UInt64) (pin : UInt32) (log : Log)
    (use : Use) (outcome : Core.Outcome) :
    latest what uid pin (log ++ [(use, outcome)]) =
      if use.uid = uid ∧ use.pin = pin ∧ outcome.succeeded then
        (what use.action).or (log.latest what uid pin)
      else log.latest what uid pin := by
  rw [latest, List.reverse_append, List.reverse_singleton, List.singleton_append,
    List.findSome?_cons]
  dsimp only
  by_cases hsets : use.uid = uid ∧ use.pin = pin ∧ outcome.succeeded
  · rw [if_pos hsets, if_pos hsets]
    cases what use.action <;> rfl
  · rw [if_neg hsets, if_neg hsets]
    rfl

variable {uid : UInt64} {pin : UInt32} {use : Use} {outcome : Core.Outcome} {log : Log}

theorem latest_append_of_ne (h : ¬(use.uid = uid ∧ use.pin = pin)) (what : Action → Option α) :
    latest what uid pin (log ++ [(use, outcome)]) = log.latest what uid pin := by
  rw [latest_append, if_neg]
  rintro ⟨huid, hpin, -⟩
  exact h ⟨huid, hpin⟩

theorem latest_append_of_failed (h : outcome.succeeded = false) (what : Action → Option α) :
    latest what uid pin (log ++ [(use, outcome)]) = log.latest what uid pin := by
  rw [latest_append, if_neg]
  rintro ⟨-, -, hsucceeded⟩
  rw [h] at hsucceeded
  cases hsucceeded

-- A success sets on its line what it is told to.
theorem line_append_self (h : outcome.succeeded = true) (log : Log) (use : Use) :
    line use.uid use.pin (log ++ [(use, outcome)]) =
      use.action.simulate (log.line use.uid use.pin) := by
  simp only [line, level, latest_append, h, and_self, if_true, Option.getD_or, Action.simulate]

end Log

namespace Hub

-- A chip whose lines can be used.
structure Offers (hub : Hub) (uid : UInt64) (id : ChipId) : Prop where
  keyed : hub.Keyed
  mapped : hub.find? uid = some id
  present : (hub.chip id).retired = false
  ready : (hub.chip id).initialized = true
  small : (hub.chip id).names.length < 2 ^ 32

variable {hub : Hub} {uid : UInt64} {pin : UInt32} {id : ChipId}

theorem Offers.serves (h : hub.Offers uid id) (hpin : pin < (hub.chip id).lineCount) :
    hub.Serves uid pin id :=
  ⟨h.keyed, h.mapped, h.present, h.ready, hpin⟩

theorem Offers.of_outline {hub' : Hub} (h : hub.Offers uid id)
    (houtline : hub'.outline = hub.outline) : hub'.Offers uid id where
  keyed := keyed_of_outline houtline h.keyed
  mapped := (find?_of_outline houtline uid).trans h.mapped
  present := (retired_of_outline houtline id).trans h.present
  ready := (initialized_of_outline houtline id).trans h.ready
  small := by
    rw [names_of_outline houtline]
    exact h.small

theorem Offers.memory?_eq_none (h : hub.Offers uid id) (hpin : ¬pin < (hub.chip id).lineCount) :
    (hub.chip id).memory? pin = none := by
  rw [UInt32.lt_iff_toNat_lt, Chip.lineCount, UInt32.toNat_ofNat_of_lt' h.small] at hpin
  exact Chip.memory?_eq_none_iff.mpr (Nat.not_lt.mp hpin)

end Hub

namespace Core

-- On a pin that is not on the chip every action fails at once.
theorem run_offChip {τ : Type}
    (transport : Process.Surroundings Core τ Message fun _ => Except TransportFault Unit)
    {core : Core} {uid : UInt64} {pin : UInt32} {id : ChipId} (ho : core.hub.Offers uid id)
    (hpin : ¬pin < (core.hub.chip id).lineCount) (action : Action) (level : Bool)
    (direction : Direction) (t : τ) :
    (Operation.hub (action.operation id pin)).process.run transport core t =
      (action.outcome (some ((core.hub.chip id).noSuchLine pin)) level direction, core, t) := by
  have hnone := ho.memory?_eq_none hpin
  have hrefused : core.hub.ready id pin = .error ((core.hub.chip id).noSuchLine pin) := by
    simp only [Hub.ready, ho.ready, if_true, Chip.checkPin, if_neg hpin]
  cases action <;>
    simp only [Action.operation, Operation.process, Hub.Operation.process, Hub.getValue,
      Hub.setValue, Hub.setConfig, Hub.setDirection, Hub.getDirection, Hub.free, Process.bind_eq,
      Process.pure_eq, Process.get_bind, Process.bind, onHub_step, Process.run, id_eq, hrefused,
      hnone] <;> rfl

end Core

-- Why a use fails: its pin is not on the chip, or its action fails for a bridge with so many lines.
def Use.failure? (hub : Hub) (count : UInt64 → Nat) (use : Use) : Option Fault :=
  let chip := hub.chip ((hub.find? use.uid).getD default)
  if use.pin < chip.lineCount then use.action.failure? (count use.uid) use.pin
  else some (chip.noSuchLine use.pin)

-- What a use comes to after all that is in the log.
def Use.outcome (hub : Hub) (count : UInt64 → Nat) (log : Log) (use : Use) : Core.Outcome :=
  use.action.outcome (use.failure? hub count) (log.level use.uid use.pin)
    (log.direction hub use.uid use.pin)

theorem Action.succeeded_outcome (action : Action) (failure? : Option Fault) (level : Bool)
    (direction : Direction) :
    (action.outcome failure? level direction).succeeded = failure?.isNone := by
  cases action <;> cases failure? <;> rfl

namespace Core

-- A core that began with this hub, and the lines simulated for it, hold what the log says.
structure Recalls (hub : Hub) (count : UInt64 → Nat) (log : Log) (core : Core) (lines : SimLines) :
    Prop where
  outline : core.hub.outline = hub.outline
  idle : core.hub.Idle
  length : ∀ uid, (lines uid).length = count uid
  simulated : ∀ uid pin, pin.toNat < count uid →
    (lines uid)[pin.toNat]? = some (log.line uid pin)
  remembered : ∀ uid pin, (core.hub.memory uid pin).direction = log.direction hub uid pin

-- Nothing has changed but one line.
structure Confined (uid : UInt64) (pin : UInt32) (core core' : Core) (lines lines' : SimLines) :
    Prop where
  remembered : ∀ other place, ¬(other = uid ∧ place = pin) →
    core'.hub.memory other place = core.hub.memory other place
  simulated : ∀ other n, ¬(other = uid ∧ n = pin.toNat) → (lines' other)[n]? = (lines other)[n]?

section Use

variable {hub : Hub} {count : UInt64 → Nat} {log : Log} {core core' : Core}
  {lines lines' : SimLines} {use : Use} {outcome : Outcome} {id : ChipId}

-- A failure leaves everything as it was.
theorem Recalls.fail (h : Recalls hub count log core lines)
    (houtline : core'.hub.outline = hub.outline) (hidle : core'.hub.Idle)
    (hmemory : core'.hub.memory = core.hub.memory) (hfailed : outcome.succeeded = false) :
    Recalls hub count (log ++ [(use, outcome)]) core' lines where
  outline := houtline
  idle := hidle
  length := h.length
  simulated := by
    intro uid pin hpin
    rw [h.simulated uid pin hpin]
    simp only [Log.line, Log.level, Log.latest_append_of_failed hfailed]
  remembered := by
    intro uid pin
    rw [hmemory, h.remembered uid pin, Log.direction, Log.direction,
      Log.latest_append_of_failed hfailed]

section Does

variable {direct direct' : Direct SimLines}
  (hdoes : use.action.Does use.uid use.pin direct direct')
include hdoes

-- An action changes the line it names and no other.
theorem getElem?_of_does (other : UInt64) (n : Nat) :
    (direct'.exchange.state other)[n]? =
      if other = use.uid ∧ n = use.pin.toNat then
        ((direct.exchange.state use.uid)[n]?).map use.action.simulate
      else (direct.exchange.state other)[n]? := by
  rw [hdoes.lines]
  by_cases huid : other = use.uid
  · rw [huid, Function.update_self, List.getElem?_modify]
    by_cases hn : n = use.pin.toNat
    · simp [hn]
    · simp [hn, Ne.symm hn]
  · rw [Function.update_of_ne huid, if_neg fun h => huid h.1]

theorem length_of_does (uid : UInt64) :
    (direct'.exchange.state uid).length = (direct.exchange.state uid).length := by
  rw [hdoes.lines]
  by_cases huid : uid = use.uid
  · rw [huid, Function.update_self, List.length_modify]
  · rw [Function.update_of_ne huid]

theorem confined_of_does (hmemory : core.hub.memory = direct.memory)
    (hmemory' : core'.hub.memory = direct'.memory) :
    Confined use.uid use.pin core core' direct.exchange.state direct'.exchange.state where
  remembered := by
    intro other place hother
    rw [hmemory', hmemory, hdoes.others other place hother]
  simulated := by
    intro other n hother
    rw [getElem?_of_does hdoes, if_neg hother]

-- A success changes its line as the log says.
theorem Recalls.succeed (h : Recalls hub count log core direct.exchange.state)
    (houtline : core'.hub.outline = hub.outline) (hidle : core'.hub.Idle)
    (hmemory : core.hub.memory = direct.memory) (hmemory' : core'.hub.memory = direct'.memory)
    (hsucceeded : outcome.succeeded = true) :
    Recalls hub count (log ++ [(use, outcome)]) core' direct'.exchange.state where
  outline := houtline
  idle := hidle
  length := by
    intro uid
    rw [length_of_does hdoes, h.length]
  simulated := by
    intro uid pin hpin
    rw [getElem?_of_does hdoes]
    by_cases hsame : use.uid = uid ∧ use.pin = pin
    · obtain ⟨rfl, rfl⟩ := hsame
      rw [if_pos ⟨rfl, rfl⟩, h.simulated _ _ hpin, Log.line_append_self hsucceeded]
      rfl
    · have hother : ¬(uid = use.uid ∧ pin.toNat = use.pin.toNat) := fun h =>
        hsame ⟨h.1.symm, (UInt32.toNat_inj.mp h.2).symm⟩
      rw [if_neg hother, h.simulated uid pin hpin]
      simp only [Log.line, Log.level, Log.latest_append_of_ne hsame]
  remembered := by
    intro uid pin
    rw [hmemory', Log.direction]
    by_cases hsame : use.uid = uid ∧ use.pin = pin
    · obtain ⟨rfl, rfl⟩ := hsame
      rw [hdoes.direction, ← hmemory, h.remembered, Log.direction, Log.latest_append,
        if_pos ⟨rfl, rfl, hsucceeded⟩, Option.getD_or]
    · have hother : ¬(uid = use.uid ∧ pin = use.pin) := fun h => hsame ⟨h.1.symm, h.2.symm⟩
      rw [hdoes.others uid pin hother, ← hmemory, h.remembered, Log.direction,
        Log.latest_append_of_ne hsame]

end Does

-- What a use comes to, and what it leaves behind.
structure Comes (hub : Hub) (count : UInt64 → Nat) (log : Log) (use : Use) (core core' : Core)
    (lines lines' : SimLines) : Prop where
  run : (use.operation hub).process.run echoing core lines =
    (use.outcome hub count log, core', lines')
  recalls : Recalls hub count (log ++ [(use, use.outcome hub count log)]) core' lines'
  confined : Confined use.uid use.pin core core' lines lines'
  same : use.failure? hub count ≠ none → core'.hub.memory = core.hub.memory ∧ lines' = lines

theorem operation_of_offers (ho : hub.Offers use.uid id) :
    use.operation hub = .hub (use.action.operation id use.pin) := by
  rw [Use.operation, ho.mapped, Option.getD_some]

theorem failure?_onChip (ho : hub.Offers use.uid id) (hpin : use.pin < (hub.chip id).lineCount)
    (count : UInt64 → Nat) :
    use.failure? hub count = use.action.failure? (count use.uid) use.pin := by
  rw [Use.failure?, ho.mapped, Option.getD_some]
  exact if_pos hpin

theorem failure?_offChip (ho : hub.Offers use.uid id) (hpin : ¬use.pin < (hub.chip id).lineCount)
    (count : UInt64 → Nat) :
    use.failure? hub count = some ((hub.chip id).noSuchLine use.pin) := by
  rw [Use.failure?, ho.mapped, Option.getD_some]
  exact if_neg hpin

theorem Recalls.level_eq (h : Recalls hub count log core lines) {uid : UInt64} {pin : UInt32}
    {line : SimLine} (hline : (lines uid)[pin.toNat]? = some line) :
    line.level = log.level uid pin := by
  have hpin := (List.getElem?_eq_some_iff.mp hline).1
  rw [h.length] at hpin
  rw [h.simulated uid pin hpin] at hline
  rw [← Option.some.inj hline]
  rfl

theorem comes_of_failed (h : Recalls hub count log core lines)
    (hrun : (use.operation hub).process.run echoing core lines =
      (use.outcome hub count log, core', lines))
    (houtline : core'.hub.outline = hub.outline) (hidle : core'.hub.Idle)
    (hmemory : core'.hub.memory = core.hub.memory) {fault : Fault}
    (hfailure : use.failure? hub count = some fault) :
    Comes hub count log use core core' lines lines where
  run := hrun
  recalls := by
    refine h.fail houtline hidle hmemory ?_
    rw [Use.outcome, Action.succeeded_outcome, hfailure]
    rfl
  confined := ⟨fun other place _ => by rw [hmemory], fun _ _ _ => rfl⟩
  same := fun _ => ⟨hmemory, rfl⟩

theorem comes_onChip {direct : Direct SimLines}
    (h : Recalls hub count log core direct.exchange.state)
    (hmemory : core.hub.memory = direct.memory) (ho : hub.Offers use.uid id)
    (hpin : use.pin < (hub.chip id).lineCount) :
    ∃ core' lines', Comes hub count log use core core' direct.exchange.state lines' := by
  have hmirrors : Mirrors hub core direct.exchange direct :=
    ⟨h.outline, hmemory, rfl, Hub.unclaimed_eq_zero_iff.mpr h.idle⟩
  obtain ⟨core', exchange', hrun, houtline, hmemory', rfl, hidle⟩ :=
    matches_act SimLine.bridge hmirrors (ho.serves hpin) use.action
  rw [Hub.unclaimed_eq_zero_iff] at hidle
  have hecho := run_echoing (use.operation hub).process core direct.exchange
  rw [operation_of_offers ho, hrun, ← operation_of_offers ho] at hecho
  have hfailure : use.failure? hub count =
      use.action.failure? (direct.exchange.state use.uid).length use.pin := by
    rw [failure?_onChip ho hpin, h.length]
  have houtcome : use.outcome hub count log = use.action.outcome (use.failure? hub count)
      (log.level use.uid use.pin) (direct.memory use.uid use.pin).direction := by
    rw [Use.outcome, ← hmemory, h.remembered]
  cases hf : use.action.failure? (direct.exchange.state use.uid).length use.pin with
  | none =>
    obtain ⟨direct', hact, hdoes⟩ := Action.act_of_success hf fun _ => h.level_eq
    rw [hact] at hecho hmemory'
    refine ⟨core', direct'.exchange.state, ?_, ?_, confined_of_does hdoes hmemory hmemory', ?_⟩
    · rw [hecho, houtcome, hfailure, hf]
    · refine h.succeed hdoes houtline hidle hmemory hmemory' ?_
      rw [Use.outcome, Action.succeeded_outcome, hfailure, hf]
      rfl
    · intro hfails
      rw [hfailure, hf] at hfails
      exact absurd rfl hfails
  | some fault =>
    obtain ⟨direct', hact, hkeeps⟩ := Action.act_of_failure hf (log.level use.uid use.pin)
    rw [hact] at hecho hmemory'
    refine ⟨core', _, comes_of_failed h ?_ houtline hidle ?_ (hfailure.trans hf)⟩
    · rw [hecho, houtcome, hfailure, hf, hkeeps.lines]
    · rw [hmemory', hkeeps.memory, hmemory]

theorem comes_offChip (h : Recalls hub count log core lines) (ho : hub.Offers use.uid id)
    (hpin : ¬use.pin < (hub.chip id).lineCount) :
    Comes hub count log use core core lines lines := by
  have hfailure := failure?_offChip ho hpin count
  have hcount := Hub.lineCount_of_outline h.outline id
  refine comes_of_failed h ?_ h.outline h.idle rfl hfailure
  rw [operation_of_offers ho, run_offChip echoing (ho.of_outline h.outline) (hcount ▸ hpin),
    Chip.noSuchLine, hcount, Use.outcome, hfailure]
  rfl

theorem comes_of_offers (h : Recalls hub count log core lines) (ho : hub.Offers use.uid id) :
    ∃ core' lines', Comes hub count log use core core' lines lines' := by
  by_cases hpin : use.pin < (hub.chip id).lineCount
  · have hdirect : Recalls hub count log core
        (⟨⟨lines, []⟩, core.hub.memory⟩ : Direct SimLines).exchange.state := h
    exact comes_onChip hdirect rfl ho hpin
  · exact ⟨core, lines, comes_offChip h ho hpin⟩

-- However many uses there are, everything holds what the log of them says.
theorem recalls_perform (h : Recalls hub count log core lines) {uses : List Use}
    (ho : ∀ use ∈ uses, ∃ id, hub.Offers use.uid id) :
    ∃ outcomes core' lines',
      perform echoing (uses.map (Use.operation hub)) core lines = (outcomes, core', lines') ∧
      outcomes.length = uses.length ∧
      Recalls hub count (log ++ uses.zip outcomes) core' lines' := by
  induction uses generalizing log core lines with
  | nil =>
    refine ⟨[], core, lines, rfl, rfl, ?_⟩
    rw [List.zip_nil_left, List.append_nil]
    exact h
  | cons use rest ih =>
    obtain ⟨id, hoffers⟩ := ho use List.mem_cons_self
    obtain ⟨core', lines', hcomes⟩ := comes_of_offers h hoffers
    obtain ⟨outcomes, core'', lines'', hrest, hlength, hrecalls⟩ :=
      ih hcomes.recalls fun use huse => ho use (List.mem_cons_of_mem _ huse)
    refine ⟨use.outcome hub count log :: outcomes, core'', lines'', ?_, ?_, ?_⟩
    · simp only [List.map_cons, perform, hcomes.run, hrest]
    · rw [List.length_cons, List.length_cons, hlength]
    · rw [List.zip_cons_cons, List.append_cons]
      exact hrecalls

theorem recalls_fresh (hub : Hub) (count : UInt64 → Nat) (table : LineTable ChipId)
    (hidle : hub.Idle) :
    Recalls hub count [] ⟨hub, table⟩ fun uid => SimLine.fresh (count uid) where
  outline := rfl
  idle := hidle
  length := fun uid => List.length_replicate
  simulated := by
    intro uid pin hpin
    rw [SimLine.fresh, List.getElem?_replicate_of_lt hpin]
    rfl
  remembered := fun _ _ => rfl

end Use

section Run

variable {τ : Type} {answers : Message → τ → Except TransportFault Unit → τ → Prop}
  {limit : Option Nat} {patience : UInt64} {around : τ} {last : Calls τ}

theorem offers_of_run
    (hrun : Relation.ReflTransGen (Pool.Step (rules answers WaitsFor))
      ⟨{ hub := { limit, patience } }, around, []⟩ last)
    (hrest : last.AtRest) {uid : UInt64} {id : ChipId} (hf : last.state.hub.find? uid = some id)
    (hr : (last.state.hub.chip id).registered = true) : last.state.hub.Offers uid id := by
  obtain ⟨-, hpresent, hready⟩ := ready_of_run hrun hrest hf
  have hhas : last.state.hub.Has id := Hub.has_of_registered hr
  have hchip : last.state.hub.chip id ∈ last.state.hub.chips := by
    rw [Hub.chip, List.getElem?_eq_getElem hhas, Option.getD_some]
    exact List.getElem_mem hhas
  exact
    { keyed := fun hf => (ready_of_run hrun hrest hf).1
      mapped := hf
      present := hpresent
      ready := hready hr
      small := (measured_of_run hrun).lines _ (List.mem_map_of_mem hchip) }

-- With simulated bridges a core with nothing pending is a memory, whatever chips are registered, of
-- whatever size, and however many lines are simulated for each. Uses may end anywhere: every
-- further one comes to what the log of those before it says, it changes no other line, and if it
-- fails, none. What is remembered at first of chips whose lines nobody has turned is that they are
-- inputs.
theorem recalls_of_run
    (hrun : Relation.ReflTransGen (Pool.Step (rules answers WaitsFor))
      ⟨{ hub := { limit, patience } }, around, []⟩ last)
    (hrest : last.AtRest) (hidle : last.state.hub.Idle) (count : UInt64 → Nat) {uses : List Use}
    (huses : ∀ use ∈ uses, ∃ id, last.state.hub.find? use.uid = some id ∧
      (last.state.hub.chip id).registered = true) :
    (∃ outcomes core' lines',
      perform echoing (uses.map (Use.operation last.state.hub)) last.state
        (fun uid => SimLine.fresh (count uid)) = (outcomes, core', lines') ∧
      outcomes.length = uses.length ∧
      Recalls last.state.hub count (uses.zip outcomes) core' lines' ∧
      ∀ use id, last.state.hub.find? use.uid = some id →
        (last.state.hub.chip id).registered = true →
        ∃ core'' lines'', Comes last.state.hub count (uses.zip outcomes) use core' core'' lines'
          lines'') ∧
    ∀ uid id, last.state.hub.find? uid = some id →
      (∀ call ∈ last.calls, call.1.turns id = false) →
      ∀ pin, (last.state.hub.memory uid pin).direction = .input := by
  have hoffers : ∀ use ∈ uses, ∃ id, last.state.hub.Offers use.uid id := by
    intro use huse
    obtain ⟨id, hf, hr⟩ := huses use huse
    exact ⟨id, offers_of_run hrun hrest hf hr⟩
  have hfresh := recalls_fresh last.state.hub count last.state.table hidle
  obtain ⟨outcomes, core', lines', hperform, hlength, hrecalls⟩ := recalls_perform hfresh hoffers
  refine ⟨⟨outcomes, core', lines', hperform, hlength, hrecalls, ?_⟩, ?_⟩
  · intro use id hf hr
    exact comes_of_offers hrecalls (offers_of_run hrun hrest hf hr)
  · intro uid id hf hturns
    exact Hub.direction_of_unturned (unturned_of_run hrun hturns) hf

-- More lines are simulated for the first of two chips than it has, and fewer for the second.
private def simulatedLines (uid : UInt64) : Nat := if uid = 5 then 3 else 1

private def someUses : List Use :=
  [⟨5, 0, .setDirection (.output true)⟩, ⟨7, 1, .setValue true⟩, ⟨7, 0, .setConfig .biasPullUp⟩,
    ⟨7, 0, .setConfig (.driveStrength 4)⟩, ⟨5, 1, .getValue⟩]

private def someUsesOf (core : Core) : List Outcome × Core × SimLines :=
  perform echoing (someUses.map (Use.operation core.hub)) core fun uid =>
    SimLine.fresh (simulatedLines uid)

theorem recalls_of_run_unlikeBridges :
    ∃ last : Calls Unit,
      Relation.ReflTransGen (Pool.Step (rules (fun _ _ _ _ => True) WaitsFor)) ⟨{}, (), []⟩ last ∧
      last.AtRest ∧ last.state.hub.Idle ∧
      ∃ outcomes core' lines',
        someUsesOf last.state = (outcomes, core', lines') ∧
        Recalls last.state.hub simulatedLines (someUses.zip outcomes) core' lines' ∧
        outcomes.map Outcome.succeeded = [true, false, true, false, false] ∧
        lines' 5 = [⟨true, .output, .biasDisable⟩, {}, {}] ∧
        lines' 7 = [⟨false, .disabled, .biasPullUp⟩] ∧
        (last.state.hub.memory 7 1).direction = .input := by
  have hplay : (playInTurn twoChips).any fun run => run.getLast?.any fun last =>
        (∀ call ∈ last.calls, call.2.Returned) ∧ last.state.hub.Idle ∧
        (∀ use ∈ someUses, ∃ id ∈ last.state.hub.find? use.uid,
          (last.state.hub.chip id).registered = true) ∧
        (∃ id ∈ last.state.hub.find? 7, ∀ call ∈ last.calls, call.1.turns id = false) ∧
        (someUsesOf last.state).1.map Outcome.succeeded = [true, false, true, false, false] ∧
        (someUsesOf last.state).2.2 5 = [⟨true, .output, .biasDisable⟩, {}, {}] ∧
        (someUsesOf last.state).2.2 7 = [⟨false, .disabled, .biasPullUp⟩] := by
    decide +kernel
  obtain ⟨run, hturns, hends⟩ := (Option.any_eq_true ..).mp hplay
  obtain ⟨last, hlast, hends⟩ := (Option.any_eq_true ..).mp hends
  obtain ⟨hrest, hidle, huses, ⟨lamp, hlamp, hlampTurns⟩, hperformed⟩ := of_decide_eq_true hends
  have hrun := reaches_of_playInTurn hturns hlast
  obtain ⟨⟨outcomes, core', lines', hperform, -, hrecalls, -⟩, hinput⟩ :=
    recalls_of_run hrun hrest hidle simulatedLines huses
  rw [someUsesOf, hperform] at hperformed
  exact ⟨last, hrun, hrest, hidle, outcomes, core', lines', hperform, hrecalls, hperformed.1,
    hperformed.2.1, hperformed.2.2, hinput 7 lamp hlamp hlampTurns 1⟩

end Run

end Core

end GpioBridge
