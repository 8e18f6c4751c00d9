import GpioBridge.Proofs.Core.Proxy

namespace GpioBridge

-- The lines that are simulated for each uid.
abbrev SimLines := UInt64 → List SimLine

namespace Process

variable {σ τ τ' D α : Type} {A : D → Type}

-- Surroundings that are the image of others give the same results.
theorem run_map {around : Surroundings σ τ D A} {image : Surroundings σ τ' D A} {f : τ → τ'}
    (hanswer : ∀ demand s t, image.answer demand s (f t) =
      ((around.answer demand s t).1, (around.answer demand s t).2.1,
        f (around.answer demand s t).2.2))
    (hhear : ∀ event t, image.hear event (f t) = f (around.hear event t)) (p : Process σ D A α)
    (s : σ) (t : τ) :
    p.run image s (f t) = ((p.run around s t).1, (p.run around s t).2.1,
      f (p.run around s t).2.2) := by
  induction p generalizing s t with
  | done => rfl
  | step change next ih => exact ih s (change s) t
  | note event next ih => simp only [run, hhear, ih]
  | ask demand next ih => simp only [run, hanswer, ih]

end Process

-- What a reply says of the request it belongs to.
def Message.answer : Message → Answer
  | getValueReply _ _ status value => ⟨status, value⟩
  | setValueReply _ _ status | setConfigReply _ _ status | setDirectionReply _ _ status =>
    ⟨status, none⟩
  | _ => ⟨Status.unknown.code, none⟩

namespace SimLine

-- One bridge in the place of many.
def bridge : Bridge SimLines := fun m lines =>
  let (reply?, after) := echo m (lines m.uid)
  ((reply?.map Message.answer).getD ⟨Status.unknown.code, none⟩, Function.update lines m.uid after)

-- Who is asked about a line replies in the kind of the request.
theorem echo_of_asked {m : Message} {kind : RequestKind} {uid : UInt64} {pin : UInt32}
    (h : m.asked? = some (kind, uid, pin)) (lines : SimLines) :
    (echo m (lines m.uid)).1 =
      some (kind.reply uid pin (bridge m lines).1.status (bridge m lines).1.value) := by
  cases m <;> cases h
  case getValue =>
    simp only [bridge, echo]
    cases (lines (Message.getValue uid pin).uid)[pin.toNat]? <;> rfl
  all_goals rfl

theorem echo_of_not_asked {m : Message} (h : m.asked? = none) (lines : List SimLine) :
    echo m lines = (none, lines) := by
  cases m <;> first | rfl | cases h

end SimLine

namespace Core

-- Every uid has a bridge of its own that simulates lines, and its reply is dispatched before
-- sending returns.
def echoing : Process.Surroundings Core SimLines Message fun _ => Except TransportFault Unit where
  answer m core lines :=
    let (reply?, after) := SimLine.echo m (lines m.uid)
    let lines := Function.update lines m.uid after
    match reply? with
    | none => (.ok (), core, lines)
    | some reply =>
      let (_, core, lines) := (Operation.hub (.dispatch reply)).process.run deaf core lines
      (.ok (), core, lines)
  hear _ lines := lines

-- A core does not see that the bridges are one.
theorem run_echoing {α : Type} (p : CoreProcess α) (core : Core) (exchange : Exchange SimLines) :
    p.run echoing core exchange.state =
      ((p.run (answering SimLine.bridge) core exchange).1,
        (p.run (answering SimLine.bridge) core exchange).2.1,
        (p.run (answering SimLine.bridge) core exchange).2.2.state) := by
  refine Process.run_map (fun m core exchange => ?_) (fun _ _ => rfl) p core exchange
  cases hasked : m.asked? with
  | none =>
    simp only [echoing, answering, hasked, SimLine.echo_of_not_asked hasked,
      Function.update_eq_self]
  | some asked =>
    obtain ⟨kind, uid, pin⟩ := asked
    have hreply := SimLine.echo_of_asked hasked exchange.state
    have hafter : (SimLine.bridge m exchange.state).2 =
        Function.update exchange.state m.uid (SimLine.echo m (exchange.state m.uid)).2 := rfl
    simp only [echoing, answering, hasked, Exchange.ask, hreply, run_dispatch, hafter]

end Core

namespace Request

-- What becomes of the line a request is about.
def simulate : Request → SimLine → SimLine
  | getValue, line => line
  | setValue level, line => { line with level }
  | setConfig wiring, line => { line with wiring }
  | setDirection direction, line => { line with direction }

-- What a request brings back.
def word? (line : SimLine) : Request → Option UInt32
  | getValue => some (levelWord line.level)
  | setValue _ | setConfig _ | setDirection _ => none

variable {lines : List SimLine} {pin : UInt32} {line : SimLine}

theorem uid_message (request : Request) (uid : UInt64) (pin : UInt32) :
    (request.message uid pin).uid = uid := by
  cases request <;> rfl

theorem levelWord_ne_zero (level : Bool) : (levelWord level != 0) = level := by
  cases level <;> rfl

-- A bridge that has the line does to it what is asked, whatever codes that travels in.
theorem echo_of_line (hline : lines[pin.toNat]? = some line) (request : Request) (uid : UInt64) :
    SimLine.echo (request.message uid pin) lines =
      (some (request.kind.reply uid pin Status.ok.code (request.word? line)),
        lines.modify pin.toNat request.simulate) := by
  have hlt := (List.getElem?_eq_some_iff.mp hline).1
  cases request with
  | getValue =>
    have hsame : lines.modify pin.toNat getValue.simulate = lines := List.modify_id pin.toNat lines
    simp only [message, SimLine.echo, hline, hsame]
    rfl
  | setValue level =>
    simp only [message, SimLine.echo, SimLine.apply, if_pos hlt, levelWord_ne_zero]
    rfl
  | setConfig wiring =>
    simp only [message, SimLine.echo, SimLine.apply, if_pos hlt, Wiring.ofCode?_code,
      Option.map_some]
    rfl
  | setDirection direction =>
    simp only [message, SimLine.echo, SimLine.apply, if_pos hlt, Direction.ofCode?_code,
      Option.map_some]
    rfl

theorem echo_of_no_line (hline : lines[pin.toNat]? = none) (request : Request) (uid : UInt64) :
    SimLine.echo (request.message uid pin) lines =
      (some (request.kind.reply uid pin Status.protocolError.code none), lines) := by
  have hge := Nat.not_lt.mpr (List.getElem?_eq_none_iff.mp hline)
  cases request with
  | getValue =>
    simp only [message, SimLine.echo, hline]
    rfl
  | setValue | setConfig | setDirection =>
    simp only [message, SimLine.echo, SimLine.apply, if_neg hge]
    rfl

end Request

namespace Direct

variable {direct direct' direct'' : Direct SimLines} {uid : UInt64} {pin : UInt32} {line : SimLine}

-- At most one line has changed, and what is remembered of it.
structure Sets (uid : UInt64) (pin : UInt32) (simulate : SimLine → SimLine)
    (remember : Line.Memory → Line.Memory) (direct direct' : Direct SimLines) : Prop where
  lines : direct'.exchange.state = Function.update direct.exchange.state uid
    ((direct.exchange.state uid).modify pin.toNat simulate)
  memory : direct'.memory = (direct.remember uid pin remember).memory

-- Nothing at all has changed but what the bridge has seen.
structure Keeps (direct direct' : Direct SimLines) : Prop where
  lines : direct'.exchange.state = direct.exchange.state
  memory : direct'.memory = direct.memory

theorem Keeps.sets (h : Keeps direct direct') (uid : UInt64) (pin : UInt32) :
    Sets uid pin id id direct direct' where
  lines := by rw [h.lines, List.modify_id, Function.update_eq_self]
  memory := by
    rw [h.memory]
    funext other place
    simp only [remember, id_eq, ite_self]

theorem Sets.trans {simulate simulate' : SimLine → SimLine}
    {remember remember' : Line.Memory → Line.Memory}
    (h : Sets uid pin simulate remember direct direct')
    (h' : Sets uid pin simulate' remember' direct' direct'') :
    Sets uid pin (simulate' ∘ simulate) (remember' ∘ remember) direct direct'' where
  lines := by
    rw [h'.lines, h.lines, Function.update_self, Function.update_idem, List.modify_modify_eq]
  memory := by
    rw [h'.memory]
    funext other place
    simp only [Direct.remember, h.memory]
    split <;> rfl

theorem Sets.remember {simulate : SimLine → SimLine} (h : Sets uid pin simulate id direct direct')
    (f : Line.Memory → Line.Memory) :
    Sets uid pin simulate f direct (direct'.remember uid pin f) := by
  have hremembered : Sets uid pin id f direct' (direct'.remember uid pin f) :=
    ⟨((Keeps.mk rfl rfl : Keeps direct' direct').sets uid pin).lines, rfl⟩
  exact h.trans hremembered

-- Whoever asks about a line that is there is told that it was done.
theorem ask_of_line (hline : (direct.exchange.state uid)[pin.toNat]? = some line)
    (request : Request) :
    ∃ direct', direct.ask SimLine.bridge (request.message uid pin) =
        (.ok (request.word? line), direct') ∧ Sets uid pin request.simulate id direct direct' := by
  have hecho := request.echo_of_line hline uid
  refine ⟨{ direct with exchange := (direct.exchange.ask SimLine.bridge _).2 }, Prod.ext ?_ rfl, ?_,
    ((Keeps.mk rfl rfl : Keeps direct direct).sets uid pin).memory⟩
  · simp only [ask, Exchange.ask, SimLine.bridge, request.uid_message, hecho]
    cases request <;> rfl
  · simp only [Exchange.ask, SimLine.bridge, request.uid_message, hecho]

theorem ask_of_no_line (hline : (direct.exchange.state uid)[pin.toNat]? = none)
    (request : Request) :
    ∃ direct', direct.ask SimLine.bridge (request.message uid pin) =
        (.error (.violation "bridge reported a protocol error"), direct') ∧
      Keeps direct direct' := by
  have hecho := request.echo_of_no_line hline uid
  refine ⟨{ direct with exchange := (direct.exchange.ask SimLine.bridge _).2 }, Prod.ext ?_ rfl, ?_,
    rfl⟩
  · simp only [ask, Exchange.ask, SimLine.bridge, request.uid_message, hecho]
    cases request <;> rfl
  · simp only [Exchange.ask, SimLine.bridge, request.uid_message, hecho, Function.update_eq_self]

theorem drive_of_line (hline : (direct.exchange.state uid)[pin.toNat]? = some line)
    (level : Bool) :
    ∃ direct', direct.drive SimLine.bridge uid pin level = (.ok (), direct') ∧
      Sets uid pin (fun line => { line with level }) (fun line => { line with level }) direct
        direct' := by
  obtain ⟨direct', hask, hsets⟩ := ask_of_line hline (.setValue level)
  rw [Request.message, levelWord] at hask
  refine ⟨_, ?_, hsets.remember _⟩
  simp only [drive, hask]

theorem drive_of_no_line (hline : (direct.exchange.state uid)[pin.toNat]? = none) (level : Bool) :
    ∃ direct', direct.drive SimLine.bridge uid pin level =
        (.error (.violation "bridge reported a protocol error"), direct') ∧
      Keeps direct direct' := by
  obtain ⟨direct', hask, hkeeps⟩ := ask_of_no_line hline (.setValue level)
  rw [Request.message, levelWord] at hask
  refine ⟨direct', ?_, hkeeps⟩
  simp only [drive, hask]

theorem turn_of_line (hline : (direct.exchange.state uid)[pin.toNat]? = some line)
    (direction : Direction) :
    ∃ direct', direct.turn SimLine.bridge uid pin direction = (.ok (), direct') ∧
      Sets uid pin (fun line => { line with direction }) (fun line => { line with direction })
        direct direct' := by
  obtain ⟨direct', hask, hsets⟩ := ask_of_line hline (.setDirection direction)
  rw [Request.message] at hask
  refine ⟨_, ?_, hsets.remember _⟩
  simp only [turn, hask]

theorem turn_of_no_line (hline : (direct.exchange.state uid)[pin.toNat]? = none)
    (direction : Direction) :
    ∃ direct', direct.turn SimLine.bridge uid pin direction =
        (.error (.violation "bridge reported a protocol error"), direct') ∧
      Keeps direct direct' := by
  obtain ⟨direct', hask, hkeeps⟩ := ask_of_no_line hline (.setDirection direction)
  rw [Request.message] at hask
  refine ⟨direct', ?_, hkeeps⟩
  simp only [turn, hask]

end Direct

namespace Action

-- The level an action gives its line if it succeeds.
def level? : Action → Option Bool
  | setValue level | setDirection (.output level) => some level
  | _ => none

-- The direction it gives its line.
def direction? : Action → Option Direction
  | setDirection .input => some .input
  | setDirection (.output _) => some .output
  | setDirection .disabled | free => some .disabled
  | _ => none

-- The setting it forwards.
def wiring? : Action → Option Wiring
  | setConfig setting =>
    match setting.wiring? with
    | .error _ => none
    | .ok wiring? => wiring?
  | _ => none

-- What becomes of the line at the bridge.
def simulate (action : Action) (line : SimLine) : SimLine where
  level := action.level?.getD line.level
  direction := action.direction?.getD line.direction
  wiring := action.wiring?.getD line.wiring

-- Some settings no bridge knows.
def refusal? : Action → Option Fault
  | setConfig setting =>
    match setting.wiring? with
    | .error fault => some fault
    | .ok _ => none
  | _ => none

def needsBridge : Action → Bool
  | getDirection => false
  | setConfig setting =>
    match setting.wiring? with
    | .ok (some _) => true
    | _ => false
  | _ => true

-- Why an action fails on a line of a chip whose bridge simulates so many lines.
def failure? (simulated : Nat) (pin : UInt32) (action : Action) : Option Fault :=
  match action.refusal? with
  | some fault => some fault
  | none =>
    if action.needsBridge && simulated ≤ pin.toNat then
      some (.violation "bridge reported a protocol error")
    else none

-- What an action comes to that fails for this reason, or finds this level and this direction.
def outcome (action : Action) (failure? : Option Fault) (level : Bool) (direction : Direction) :
    Core.Outcome :=
  match action with
  | getValue => .hub (.level (failure?.elim (.ok level) .error))
  | getDirection => .hub (.direction (failure?.elim (.ok direction) .error))
  | setValue _ | setConfig _ | setDirection _ | free =>
    .hub (.unit (failure?.elim (.ok ()) .error))

-- An action that succeeds sets what it is told to, at the bridge and in what is remembered.
structure Does (action : Action) (uid : UInt64) (pin : UInt32) (direct direct' : Direct SimLines) :
    Prop where
  lines : direct'.exchange.state = Function.update direct.exchange.state uid
    ((direct.exchange.state uid).modify pin.toNat action.simulate)
  direction : (direct'.memory uid pin).direction =
    action.direction?.getD (direct.memory uid pin).direction
  others : ∀ other place, ¬(other = uid ∧ place = pin) →
    direct'.memory other place = direct.memory other place

variable {direct : Direct SimLines} {uid : UInt64} {pin : UInt32} {line : SimLine} {action : Action}

theorem does_of_sets {simulate : SimLine → SimLine} {remember : Line.Memory → Line.Memory}
    {direct' : Direct SimLines} (h : Direct.Sets uid pin simulate remember direct direct')
    (hsimulate : action.simulate = simulate)
    (hdirection : ∀ line, (remember line).direction = action.direction?.getD line.direction) :
    action.Does uid pin direct direct' where
  lines := by rw [h.lines, hsimulate]
  direction := by
    rw [h.memory, Direct.remember]
    simp only [and_self, if_true, hdirection]
  others := by
    intro other place hother
    rw [h.memory, Direct.remember]
    simp only [if_neg hother]

theorem setMode_of_line (hline : (direct.exchange.state uid)[pin.toNat]? = some line)
    (mode : LineMode) :
    ∃ direct', direct.setMode SimLine.bridge uid pin mode = (.ok (), direct') ∧
      (setDirection mode).Does uid pin direct direct' := by
  cases mode with
  | input =>
    obtain ⟨direct', hturn, hsets⟩ := Direct.turn_of_line hline .input
    exact ⟨direct', hturn, does_of_sets hsets rfl fun _ => rfl⟩
  | disabled =>
    obtain ⟨direct', hturn, hsets⟩ := Direct.turn_of_line hline .disabled
    exact ⟨direct', hturn, does_of_sets hsets rfl fun _ => rfl⟩
  | output level =>
    obtain ⟨direct', hturn, hsets⟩ := Direct.turn_of_line hline .output
    have hline' : (direct'.exchange.state uid)[pin.toNat]? =
        some { line with direction := .output } := by
      rw [hsets.lines, Function.update_self, List.getElem?_modify_eq, hline]
      rfl
    obtain ⟨direct'', hdrive, hsets'⟩ := Direct.drive_of_line hline' level
    refine ⟨direct'', ?_, does_of_sets (hsets.trans hsets') rfl fun _ => rfl⟩
    simp only [Direct.setMode, hturn, hdrive]

theorem setMode_of_no_line (hline : (direct.exchange.state uid)[pin.toNat]? = none)
    (mode : LineMode) :
    ∃ direct', direct.setMode SimLine.bridge uid pin mode =
        (.error (.violation "bridge reported a protocol error"), direct') ∧
      Direct.Keeps direct direct' := by
  cases mode with
  | input => exact Direct.turn_of_no_line hline .input
  | disabled => exact Direct.turn_of_no_line hline .disabled
  | output level =>
    obtain ⟨direct', hturn, hkeeps⟩ := Direct.turn_of_no_line hline .output
    refine ⟨direct', ?_, hkeeps⟩
    simp only [Direct.setMode, hturn]

-- A setting that is forwarded is one the bridge knows.
theorem exists_wiring {setting : PinSetting} (h : (setConfig setting).needsBridge = true) :
    ∃ wiring, setting.wiring? = .ok (some wiring) := by
  simp only [needsBridge] at h
  split at h
  · next wiring hwiring => exact ⟨wiring, hwiring⟩
  · cases h

theorem act_of_line (hline : (direct.exchange.state uid)[pin.toNat]? = some line)
    (hneeds : action.needsBridge = true) :
    ∃ direct', direct.act SimLine.bridge uid pin action =
        (action.outcome none line.level (direct.memory uid pin).direction, direct') ∧
      action.Does uid pin direct direct' := by
  cases action with
  | getValue =>
    obtain ⟨direct', hask, hsets⟩ := Direct.ask_of_line hline .getValue
    rw [Request.message] at hask
    refine ⟨_, ?_, does_of_sets (hsets.remember fun memory => { memory with level := line.level })
      rfl fun _ => rfl⟩
    simp only [Direct.act, Direct.read, hask, Request.word?, Request.levelWord_ne_zero]
    rfl
  | setValue level =>
    obtain ⟨direct', hdrive, hsets⟩ := Direct.drive_of_line hline level
    refine ⟨direct', ?_, does_of_sets hsets rfl fun _ => rfl⟩
    simp only [Direct.act, hdrive]
    rfl
  | setConfig setting =>
    obtain ⟨wiring, hwiring⟩ := exists_wiring hneeds
    obtain ⟨direct', hask, hsets⟩ := Direct.ask_of_line hline (.setConfig wiring)
    have hsimulate : (setConfig setting).simulate = (Request.setConfig wiring).simulate := by
      funext line
      simp only [simulate, wiring?, hwiring]
      rfl
    rw [Request.message] at hask
    refine ⟨direct', ?_, does_of_sets hsets hsimulate fun _ => rfl⟩
    simp only [Direct.act, Direct.configure, hwiring, hask]
    rfl
  | setDirection mode =>
    obtain ⟨direct', hmode, hdoes⟩ := setMode_of_line hline mode
    refine ⟨direct', ?_, hdoes⟩
    simp only [Direct.act, hmode]
    rfl
  | getDirection => cases hneeds
  | free =>
    obtain ⟨direct', hturn, hsets⟩ := Direct.turn_of_line hline .disabled
    refine ⟨direct', ?_, does_of_sets hsets rfl fun _ => rfl⟩
    simp only [Direct.act, hturn]
    rfl

theorem act_of_no_line (hline : (direct.exchange.state uid)[pin.toNat]? = none)
    (hneeds : action.needsBridge = true) (level : Bool) (direction : Direction) :
    ∃ direct', direct.act SimLine.bridge uid pin action =
        (action.outcome (some (.violation "bridge reported a protocol error")) level direction,
          direct') ∧ Direct.Keeps direct direct' := by
  cases action with
  | getValue =>
    obtain ⟨direct', hask, hkeeps⟩ := Direct.ask_of_no_line hline .getValue
    rw [Request.message] at hask
    refine ⟨direct', ?_, hkeeps⟩
    simp only [Direct.act, Direct.read, hask]
    rfl
  | setValue value =>
    obtain ⟨direct', hdrive, hkeeps⟩ := Direct.drive_of_no_line hline value
    refine ⟨direct', ?_, hkeeps⟩
    simp only [Direct.act, hdrive]
    rfl
  | setConfig setting =>
    obtain ⟨wiring, hwiring⟩ := exists_wiring hneeds
    obtain ⟨direct', hask, hkeeps⟩ := Direct.ask_of_no_line hline (.setConfig wiring)
    rw [Request.message] at hask
    refine ⟨direct', ?_, hkeeps⟩
    simp only [Direct.act, Direct.configure, hwiring, hask]
    rfl
  | setDirection mode =>
    obtain ⟨direct', hmode, hkeeps⟩ := setMode_of_no_line hline mode
    refine ⟨direct', ?_, hkeeps⟩
    simp only [Direct.act, hmode]
    rfl
  | getDirection => cases hneeds
  | free =>
    obtain ⟨direct', hturn, hkeeps⟩ := Direct.turn_of_no_line hline .disabled
    refine ⟨direct', ?_, hkeeps⟩
    simp only [Direct.act, hturn]
    rfl

-- An action the bridge has nothing to do with changes nothing, whether it is refused or not.
theorem simulate_of_not_needsBridge (hneeds : action.needsBridge = false) :
    action.simulate = id := by
  cases action with
  | getDirection => rfl
  | setConfig setting =>
    have hwiring : (setConfig setting).wiring? = none := by
      simp only [needsBridge] at hneeds
      simp only [wiring?]
      cases hw : setting.wiring? with
      | error fault => rfl
      | ok wiring? =>
        cases wiring? with
        | none => rfl
        | some wiring => simp only [hw, Bool.true_eq_false] at hneeds
    funext line
    simp only [simulate, hwiring]
    rfl
  | _ => cases hneeds

theorem does_of_not_needsBridge (hneeds : action.needsBridge = false) (uid : UInt64) (pin : UInt32)
    (direct : Direct SimLines) : action.Does uid pin direct direct := by
  have hkeeps : Direct.Keeps direct direct := ⟨rfl, rfl⟩
  refine does_of_sets (hkeeps.sets uid pin) (simulate_of_not_needsBridge hneeds) fun line => ?_
  cases action with
  | getDirection | setConfig => rfl
  | _ => cases hneeds

theorem act_of_not_needsBridge (hneeds : action.needsBridge = false) (uid : UInt64) (pin : UInt32)
    (level : Bool) (direct : Direct SimLines) :
    direct.act SimLine.bridge uid pin action =
      (action.outcome action.refusal? level (direct.memory uid pin).direction, direct) := by
  cases action with
  | getDirection => rfl
  | setConfig setting =>
    simp only [needsBridge] at hneeds
    simp only [Direct.act, Direct.configure, outcome, refusal?]
    cases hw : setting.wiring? with
    | error fault => rfl
    | ok wiring? =>
      cases wiring? with
      | none => rfl
      | some wiring => simp only [hw, Bool.true_eq_false] at hneeds
  | _ => cases hneeds

theorem refusal?_of_needsBridge (hneeds : action.needsBridge = true) : action.refusal? = none := by
  cases action with
  | setConfig setting =>
    obtain ⟨wiring, hwiring⟩ := exists_wiring hneeds
    simp only [refusal?, hwiring]
  | _ => rfl

-- For consumers of these bridges an action either does what it is told or, where there is a reason
-- for it to fail, changes nothing.
theorem act_of_success (h : action.failure? (direct.exchange.state uid).length pin = none)
    {level : Bool}
    (hlevel : ∀ line, (direct.exchange.state uid)[pin.toNat]? = some line → line.level = level) :
    ∃ direct', direct.act SimLine.bridge uid pin action =
        (action.outcome none level (direct.memory uid pin).direction, direct') ∧
      action.Does uid pin direct direct' := by
  simp only [failure?] at h
  cases hrefusal : action.refusal? with
  | some fault => simp only [hrefusal, reduceCtorEq] at h
  | none =>
    cases hneeds : action.needsBridge with
    | false =>
      have hact := act_of_not_needsBridge hneeds uid pin level direct
      rw [hrefusal] at hact
      exact ⟨direct, hact, does_of_not_needsBridge hneeds uid pin direct⟩
    | true =>
      have hpin : pin.toNat < (direct.exchange.state uid).length := by
        simpa [hrefusal, hneeds] using h
      have hline := List.getElem?_eq_getElem hpin
      rw [← hlevel _ hline]
      exact act_of_line hline hneeds

theorem act_of_failure {fault : Fault}
    (h : action.failure? (direct.exchange.state uid).length pin = some fault) (level : Bool) :
    ∃ direct', direct.act SimLine.bridge uid pin action =
        (action.outcome (some fault) level (direct.memory uid pin).direction, direct') ∧
      Direct.Keeps direct direct' := by
  simp only [failure?] at h
  cases hneeds : action.needsBridge with
  | false =>
    have hrefusal : action.refusal? = some fault := by
      cases hrefusal : action.refusal? with
      | none => simp [hrefusal, hneeds] at h
      | some other => simpa [hrefusal] using h
    have hact := act_of_not_needsBridge hneeds uid pin level direct
    rw [hrefusal] at hact
    exact ⟨direct, hact, rfl, rfl⟩
  | true =>
    simp only [refusal?_of_needsBridge hneeds, hneeds, Bool.true_and, decide_eq_true_eq,
      Option.ite_none_right_eq_some, Option.some.injEq] at h
    obtain ⟨hpin, rfl⟩ := h
    exact act_of_no_line (List.getElem?_eq_none_iff.mpr hpin) hneeds level _

end Action

end GpioBridge
