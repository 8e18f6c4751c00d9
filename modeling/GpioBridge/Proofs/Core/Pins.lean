import GpioBridge.Proofs.Core.Bounds
import GpioBridge.Proofs.Core.Confirmation

namespace GpioBridge

-- What a success says of a line.
inductive Update where
  | level (value : Bool)
  | direction (value : Direction)
  deriving DecidableEq

def Update.Holds : Update → Line.Memory → Prop
  | level value, memory => memory.level = value
  | direction value, memory => memory.direction = value

def LineMode.updates : LineMode → List Update
  | input => [.direction .input]
  | output level => [.direction .output, .level level]
  | disabled => [.direction .disabled]

-- What has to be remembered if the caller of an action was told this.
def Action.updates : Action → Hub.Outcome → List Update
  | getValue, .level (.ok level) | setValue level, .unit (.ok _) => [.level level]
  | setDirection mode, .unit (.ok _) => mode.updates
  | free, .unit (.ok _) => LineMode.disabled.updates
  | _, _ => []

namespace Hub

-- This is remembered of the line.
def Retains (id : ChipId) (pin : UInt32) (update : Update) (hub : Hub) : Prop :=
  ∃ memory, hub.memoryOf? id pin = some memory ∧ update.Holds memory

-- Of what is wanted something is remembered.
def Stores (id : ChipId) (pin : UInt32) (wanted : Update → Prop) (hub : Hub) : Prop :=
  ∃ update, wanted update ∧ hub.Retains id pin update

-- What a success says.
def told {α : Type} (updates : α → List Update) : Except Fault α → List Update
  | .ok a => updates a
  | .error _ => []

-- Whatever went wrong, it was not that there is no such line.
def Finds (failure : Option Fault) : Prop := ∀ pin count, failure ≠ some (.noSuchLine pin count)

-- No line was lacking, and nothing that is wanted was said.
structure Unwanted (wanted : Update → Prop) (failure : Option Fault) (updates : List Update) :
    Prop where
  finds : Finds failure
  unwanted : ∀ update ∈ updates, ¬wanted update

theorem finds_none : Finds none := by
  rintro _ _ ⟨⟩

theorem Finds.unwanted {failure : Option Fault} {wanted : Update → Prop} (h : Finds failure) :
    Unwanted wanted failure [] :=
  ⟨h, fun _ hmem => absurd hmem List.not_mem_nil⟩

theorem finds_result (request : Request) (uid : UInt64) (pin : UInt32)
    (outcome : GpioBridge.Outcome) : Finds (faultOf (request.result uid pin outcome)) := by
  unfold Request.result
  cases outcome.status with
  | ok =>
    cases request with
    | getValue => cases outcome.level <;> rintro _ _ ⟨⟩
    | _ => rintro _ _ ⟨⟩
  | _ => rintro _ _ ⟨⟩

section Leads

variable {α : Type} {id : ChipId} {pin n : UInt32} {wanted : Update → Prop}
  {updates : α → List Update}

-- The chip has its cells whatever happens, so a call about a pin that passed the check finds one.
theorem leads_call {Q : Hub → Prop} (hpin : pin < n) (request : Request) :
    (call id pin request).Leads (fun hub => (hub.chip id).Bounded n) Q
      fun result => Finds (faultOf result) := by
  simp only [call, HubProcess.send_bind, Process.bind_eq, Process.pure_eq, Process.get_bind,
    Process.modify_bind, Process.update_bind, Process.log_bind]
  refine Process.leads_step fun hub hbounded => ?_
  obtain ⟨cell, hcell⟩ := (hbounded.cell pin).mpr hpin
  rw [hcell, Option.isNone_some, if_neg Bool.false_ne_true]
  have hsilent : Finds (some .unresponsive) := by rintro _ _ ⟨⟩
  intro answer
  -- Both that the message went out and that nobody listens lead to the wait.
  rcases answer with fault | _
  · cases fault with
    | noSubscribers =>
      refine fun _ _ => .inr fun waiting _ => .inr ?_
      dsimp only
      cases (collect id pin waiting).1 with
      | none => exact fun _ _ => .inr hsilent
      | some outcome => exact finds_result request _ pin outcome
    | _ => rintro _ _ ⟨⟩
  · refine fun _ _ => .inr fun waiting _ => .inr ?_
    dsimp only
    cases (collect id pin waiting).1 with
    | none => exact fun _ _ => .inr hsilent
    | some outcome => exact finds_result request _ pin outcome

-- As long as the chip keeps its lines, the process comes to remember something of what is wanted,
-- or it ends without lacking a line and without having said any of it. Whoever wants a thing that
-- was said then knows that it was remembered.
def Remembers (n : UInt32) (id : ChipId) (pin : UInt32) (wanted : Update → Prop)
    (updates : α → List Update) (p : HubProcess (Except Fault α)) : Prop :=
  p.Leads (fun hub => (hub.chip id).Bounded n) (Stores id pin wanted) fun result =>
    Unwanted wanted (faultOf result) (told updates result)

theorem remembers_call {request : Request} {f : Except Fault Reply → HubProcess (Except Fault α)}
    (hpin : pin < n) (hfailed : ∀ fault, f (.error fault) = .done (.error fault))
    (hconfirmed : ∀ reply, Remembers n id pin wanted updates (f (.ok reply))) :
    Remembers n id pin wanted updates ((call id pin request).bind f) := by
  refine (leads_call hpin request).bind fun result hfound => ?_
  cases result with
  | error fault =>
    rw [hfailed]
    exact Finds.unwanted hfound
  | ok reply => exact hconfirmed reply

-- What is remembered of a line that passed the check is there to be changed, so changing it does
-- not come to nothing.
theorem remembers_store (update : Update) {f : Line.Memory → Line.Memory} {a : α} (hpin : pin < n)
    (hf : ∀ memory, update.Holds (f memory)) (hupdates : updates a = [update]) :
    Remembers n id pin wanted updates
      (.step (modifyChip id fun chip => chip.modifyMemory pin f) fun _ => .done (.ok a)) := by
  intro hub hbounded
  by_cases hwanted : wanted update
  · obtain ⟨memory, hmemory⟩ := (hbounded.memory pin).mpr hpin
    refine .inl ⟨update, hwanted, f memory, ?_, hf memory⟩
    rw [memoryOf?_modifyMemory, if_pos ⟨rfl, rfl⟩, memoryOf?, hmemory, Option.map_some]
  · refine .inr ⟨finds_none, fun other hother => ?_⟩
    rw [told, hupdates] at hother
    rwa [List.mem_singleton.mp hother]

theorem remembers_writeLevel (hpin : pin < n) (level : Bool) :
    Remembers n id pin wanted (fun _ => [.level level]) (writeLevel id pin level) :=
  remembers_call hpin (fun _ => rfl) fun _ =>
    remembers_store (.level level) hpin (fun _ => rfl) rfl

theorem remembers_writeDirection (hpin : pin < n) (direction : Direction) :
    Remembers n id pin wanted (fun _ => [.direction direction]) (writeDirection id pin direction) :=
  remembers_call hpin (fun _ => rfl) fun _ =>
    remembers_store (.direction direction) hpin (fun _ => rfl) rfl

theorem remembers_checked {p : HubProcess (Except Fault α)} (hpin : pin < n)
    (h : Remembers n id pin wanted updates p) :
    Remembers n id pin wanted updates (checked id pin p) := by
  rw [checked, Process.get_bind]
  refine Process.leads_step fun hub hbounded => ?_
  rw [ready, hbounded.checkPin, if_pos hpin]
  cases (hub.chip id).initialized with
  | true => exact h
  | false => exact Finds.unwanted (by rintro _ _ ⟨⟩)

theorem remembers_setDirection (hpin : pin < n) (mode : LineMode) :
    Remembers n id pin wanted (fun _ => mode.updates) (setDirection id pin mode) := by
  cases mode with
  | input => exact remembers_checked hpin (remembers_writeDirection hpin .input)
  | disabled => exact remembers_checked hpin (remembers_writeDirection hpin .disabled)
  | output level =>
    refine remembers_checked hpin ((remembers_writeDirection hpin .output).bind ?_)
    intro turned hturned
    cases turned with
    | error fault => exact hturned.finds.unwanted
    | ok =>
      refine (remembers_writeLevel hpin level).imp fun driven hdriven => ?_
      cases driven with
      | error fault => exact hdriven
      | ok =>
        exact ⟨finds_none, List.forall_mem_cons.mpr
          ⟨hturned.unwanted _ (List.mem_singleton_self _), hdriven.unwanted⟩⟩

theorem remembers_getValue (hpin : pin < n) :
    Remembers n id pin wanted (fun level => [.level level]) (getValue id pin) := by
  refine remembers_checked hpin (remembers_call hpin (fun _ => rfl) fun reply => ?_)
  cases reply with
  | done => exact Finds.unwanted (by rintro _ _ ⟨⟩)
  | level level => exact remembers_store (.level level) hpin (fun _ => rfl) rfl

theorem remembers_setConfig (hpin : pin < n) (setting : PinSetting) :
    Remembers n id pin wanted (fun _ => []) (setConfig id pin setting) := by
  refine remembers_checked hpin ?_
  cases hwiring : setting.wiring? with
  | error fault =>
    refine Finds.unwanted fun place count h => ?_
    obtain rfl := Option.some.inj h
    cases setting <;> cases hwiring
  | ok wiring =>
    cases wiring with
    | none => exact fun _ _ => .inr finds_none.unwanted
    | some wiring => exact remembers_call hpin (fun _ => rfl) fun _ => finds_none.unwanted

theorem remembers_getDirection (hpin : pin < n) :
    Remembers n id pin wanted (fun _ => []) (getDirection id pin) := by
  intro hub hbounded
  obtain ⟨memory, hmemory⟩ := (hbounded.memory pin).mpr hpin
  right
  dsimp only [Process.done_bind]
  rw [hmemory]
  exact finds_none.unwanted

-- Whoever carries out an action, it does not lack the line, and it remembers what it says.
theorem leads_action (wanted : Update → Prop) (hpin : pin < n) (action : Action) :
    (action.operation id pin).process.Leads (fun hub => (hub.chip id).Bounded n)
      (Stores id pin wanted) fun outcome =>
        Unwanted wanted outcome.failure? (action.updates outcome) := by
  cases action with
  | getValue =>
    refine (remembers_getValue hpin).bind ?_
    rintro (_ | _) h <;> exact h
  | setValue level =>
    refine (remembers_checked hpin (remembers_writeLevel hpin level)).bind ?_
    rintro (_ | _) h <;> exact h
  | setConfig setting =>
    refine (remembers_setConfig hpin setting).bind ?_
    rintro (_ | _) h <;> exact h
  | setDirection mode =>
    refine (remembers_setDirection hpin mode).bind ?_
    rintro (_ | _) h <;> exact h
  | getDirection =>
    refine (remembers_getDirection hpin).bind ?_
    rintro (_ | _) h <;> exact h
  | free =>
    refine (remembers_setDirection hpin .disabled).bind ?_
    rintro (_ | _) h <;> exact h

end Leads

-- What an action fails with if its line is not there.
def Outcome.TurnedDown (outcome : Outcome) (pin n : UInt32) : Prop :=
  outcome.failure? = some .notReady ∨ outcome.failure? = some (.noSuchLine pin n)

-- The process is at its end as soon as it has looked at the hub.
def TurnsDown (n : UInt32) (id : ChipId) (pin : UInt32) (p : HubProcess Outcome) : Prop :=
  ∃ next, p = .step (fun hub => hub) next ∧ ∀ hub : Hub, (hub.chip id).Bounded n →
    ∃ outcome, next hub = .done outcome ∧ outcome.TurnedDown pin n

section OffChip

variable {α : Type} {id : ChipId} {pin n : UInt32}

theorem turnsDown_checked (hpin : ¬pin < n) {p : HubProcess (Except Fault α)}
    {wrap : Except Fault α → Outcome}
    (hwrap : ∀ fault, (wrap (.error fault)).failure? = some fault) :
    TurnsDown n id pin ((checked id pin p).bind fun result => .done (wrap result)) := by
  refine ⟨_, rfl, fun hub hbounded => ?_⟩
  have hready : ∃ fault, hub.ready id pin = .error fault ∧
      (fault = .notReady ∨ fault = .noSuchLine pin n) := by
    rw [ready, hbounded.checkPin, if_neg hpin]
    cases (hub.chip id).initialized with
    | true => exact ⟨_, rfl, .inr rfl⟩
    | false => exact ⟨_, rfl, .inl rfl⟩
  obtain ⟨fault, hready, hfault⟩ := hready
  refine ⟨wrap (.error fault), ?_, ?_⟩
  · dsimp only [Process.bind]
    rw [hready]
    rfl
  · rw [Outcome.TurnedDown, hwrap]
    exact hfault.imp (congrArg some) (congrArg some)

theorem turnsDown_action (hpin : ¬pin < n) (action : Action) (id : ChipId) :
    TurnsDown n id pin (action.operation id pin).process := by
  cases action with
  | getDirection =>
    refine ⟨_, rfl, fun hub hbounded => ⟨.direction (.error (.noSuchLine pin n)), ?_, .inr rfl⟩⟩
    have hnone : (hub.chip id).memory? pin = none := by
      rw [Option.eq_none_iff_forall_ne_some]
      exact fun memory hmemory => hpin ((hbounded.memory pin).mp ⟨memory, hmemory⟩)
    dsimp only [Process.get, Process.bind, Process.bind_eq]
    rw [hnone, hbounded.noSuchLine]
    rfl
  | _ => exact turnsDown_checked hpin fun _ => rfl

theorem updates_of_turnedDown {outcome : Outcome} (h : outcome.TurnedDown pin n) (action : Action) :
    action.updates outcome = [] := by
  unfold Action.updates
  split <;> first | rfl | rcases h with h | h <;> cases h

end OffChip

end Hub

namespace Core

open Hub (Retains TurnsDown)

section Run

variable {τ : Type} {answers : Message → τ → Except TransportFault Unit → τ → Prop}
  {processWaits : CoreProcess Outcome → CoreProcess Outcome → Prop}
  {limit : Option Nat} {patience : UInt64} {around t t' : τ} {run : Nat → Calls τ} {core core' : Core}
  {first k c : Nat} {id : ChipId} {pin n : UInt32} {action : Action} {p p' : CoreProcess Outcome}

theorem looks_of_turnsDown {operation : Hub.Operation} (h : TurnsDown n id pin operation.process) :
    ∃ next, (Operation.hub operation).process = .step (fun core => core) next ∧
      ∀ core : Core, (core.hub.chip id).Bounded n →
        ∃ outcome, next core = .done (.hub outcome) ∧ outcome.TurnedDown pin n := by
  obtain ⟨next, hlooks, hends⟩ := h
  refine ⟨fun core => (onHub (next core.hub)).bind fun outcome => .done (.hub outcome), ?_,
    fun core hbounded => ?_⟩
  · rw [Operation.process, hlooks]
    rfl
  · obtain ⟨outcome, hend, hdown⟩ := hends core.hub hbounded
    refine ⟨outcome, ?_, hdown⟩
    dsimp only
    rw [hend]
    rfl

-- Off the chip a call about the pin ends with its first move, which leaves everything as it was.
theorem moves_offChip (hpin : ¬pin < n) (hbounded : (core.hub.chip id).Bounded n)
    (hmove : (Operation.hub (action.operation id pin)).process.Moves answers core t p' core' t') :
    (core' = core ∧ t' = t) ∧ ∃ outcome, p' = .done (.hub outcome) ∧ outcome.TurnedDown pin n := by
  obtain ⟨next, hprocess, hends⟩ := looks_of_turnsDown (Hub.turnsDown_action hpin action id)
  rw [hprocess] at hmove
  cases hmove with
  | step => exact ⟨⟨rfl, rfl⟩, hends core hbounded⟩

-- It has not begun yet, or it has been turned down.
def OffChip (n : UInt32) (id : ChipId) (pin : UInt32) (action : Action) (p : CoreProcess Outcome) :
    Prop :=
  p = (Operation.hub (action.operation id pin)).process ∨
    ∃ outcome, p = .done (.hub outcome) ∧ outcome.TurnedDown pin n

theorem OffChip.turnedDown {outcome : Hub.Outcome} (hpin : ¬pin < n)
    (h : OffChip n id pin action (.done (.hub outcome))) : outcome.TurnedDown pin n := by
  rcases h with hstart | ⟨_, ⟨⟩, hdown⟩
  · obtain ⟨next, hprocess, -⟩ := looks_of_turnsDown (Hub.turnsDown_action hpin action id)
    rw [hprocess] at hstart
    cases hstart
  · exact hdown

-- How a call about a pin fares up to a time, if its chip has had so many lines since it was made.
structure Fares (rules : Pool.Rules Core τ Message (fun _ => Except TransportFault Unit) Operation
      Outcome) (run : Nat → Calls τ) (first k c : Nat) (n : UInt32) (id : ChipId) (pin : UInt32)
    (action : Action) (p : CoreProcess Outcome) : Prop where
  -- Off the chip it is over with its first look, and leaves everything as it was.
  offChip : ¬pin < n → OffChip n id pin action p
  still : ¬pin < n → Pool.Turns rules run c k →
    (run (k + 1)).state = (run k).state ∧ (run (k + 1)).around = (run k).around
  -- On the chip it never fails for want of a line.
  onChip : pin < n → ∀ outcome, p = .done (.hub outcome) → Hub.Finds outcome.failure?
  -- What its success says it has remembered itself.
  remembered : ∀ outcome, p = .done (.hub outcome) → ∀ update ∈ action.updates outcome,
    ∃ j, first ≤ j ∧ j < k ∧ Pool.Turns rules run c j ∧ (run (j + 1)).state.hub.Retains id pin update

section Play

variable {origin : Calls τ} (hrun : Pool.Run (rules answers processWaits) origin run)

include hrun

theorem offChip_of_run (hbounded : ∀ j, first ≤ j → ((run j).state.hub.chip id).Bounded n)
    (hpin : ¬pin < n) (hmade : (run first).calls.length ≤ c) (hk : first ≤ k)
    (hcall : (run k).calls[c]? = some (.hub (action.operation id pin), p)) :
    OffChip n id pin action p := by
  have hkept := hrun.call_of_moves (P := fun core => (core.hub.chip id).Bounded n)
    (Q := fun _ => False) (K := OffChip n id pin action) hbounded (.inl rfl) ?_ hmade hk hcall
  · exact hkept.resolve_left fun ⟨_, _, _, _, hnever⟩ => hnever
  · rintro p p' s s' t t' (rfl | ⟨outcome, rfl, -⟩) hs hmove
    · exact .inr (.inr (moves_offChip hpin hs hmove).2)
    · cases hmove

theorem fares_of_run (hbounded : ∀ j, first ≤ j → ((run j).state.hub.chip id).Bounded n)
    (hmade : (run first).calls.length ≤ c) (hk : first ≤ k)
    (hcall : (run k).calls[c]? = some (.hub (action.operation id pin), p)) :
    Fares (rules answers processWaits) run first k c n id pin action p := by
  have hoff (hpin : ¬pin < n) := offChip_of_run hrun hbounded hpin hmade hk hcall
  have hleads (wanted : Update → Prop) (hpin : pin < n) := hrun.leads (fun j hj => hbounded j hj)
    (leads_operation (Hub.leads_action wanted hpin action)) hmade hk hcall
  constructor
  case offChip => exact hoff
  case still =>
    rintro hpin ⟨_, _, _, hplace, hmove, -⟩
    rw [hcall] at hplace
    cases hplace
    rcases hoff hpin with rfl | ⟨outcome, rfl, -⟩
    · exact (moves_offChip hpin (hbounded k hk) hmove).1
    · cases hmove
  case onChip =>
    rintro hpin outcome rfl
    rcases hleads (fun _ => False) hpin with ⟨_, _, _, _, _, hnever, _⟩ | hended
    · exact hnever.elim
    · exact (hended outcome rfl).finds
  case remembered =>
    rintro outcome rfl update hupdate
    by_cases hpin : pin < n
    · rcases hleads (· = update) hpin with
        ⟨j, hj, hlt, hturns, _, rfl, hretains⟩ | hended
      · exact ⟨j, hj, hlt, hturns, hretains⟩
      · exact absurd rfl ((hended outcome rfl).unwanted update hupdate)
    · rw [Hub.updates_of_turnedDown ((hoff hpin).turnedDown hpin) action] at hupdate
      cases hupdate

end Play

-- Every chip was registered with a number of lines, and all that is ever asked of its pins agrees
-- on that number, in whatever order calls go on. So no action finds its line missing after it was
-- found to be there, and none succeeds without having remembered what it should.
theorem pins_bounded_of_run
    (hrun : Pool.Run (rules answers processWaits) ⟨{ hub := { limit, patience } }, around, []⟩ run)
    (hhas : (run first).state.hub.Has id) :
    ∃ r, (∃ call ∈ (run first).calls, call.1 = .hub (.register r)) ∧ r.check = .ok () ∧
      ∀ k, first ≤ k → (run k).state.Bounded id r.lineCount ∧
        (∀ r', (.hub (.register r'), .done (.hub (.chip (.ok id)))) ∈ (run k).calls →
          r'.lineCount = r.lineCount) ∧
        ∀ c pin action p, (run first).calls.length ≤ c →
          (run k).calls[c]? = some (.hub (Action.operation id pin action), p) →
          Fares (rules answers processWaits) run first k c r.lineCount id pin action p := by
  obtain ⟨r, hregistered, hmade⟩ := exists_made_of_run (hrun.reaches first) hhas
  have hbounded : ∀ k, first ≤ k → (run k).state.Bounded id r.lineCount :=
    fun k hk => bounded_of_made_before hrun hmade hk
  refine ⟨r, hregistered, hmade.valid, fun k hk => ⟨hbounded k hk, fun r' hreturned => ?_,
    fun c pin action p hnew hcall =>
      fares_of_run hrun (fun j hj => (hbounded j hj).chip) hnew hk hcall⟩⟩
  rw [← (made_of_returned hrun hreturned).bounded.lineCount, (hbounded k hk).chip.lineCount]

-- What has become of a call to drive a line of the first chip.
def driven? (pin : UInt32) : Operation × CoreProcess Outcome → Option (Option Fault)
  | (.hub (.setValue id place level), .done (.hub (.unit result))) =>
    if id = ⟨0⟩ ∧ place = pin ∧ level = true then some (faultOf result) else none
  | _ => none

theorem eq_of_driven? {call : Operation × CoreProcess Outcome} {fault : Option Fault}
    (h : driven? pin call = some fault) :
    ∃ result, faultOf result = fault ∧
      call = (.hub ((Action.setValue true).operation ⟨0⟩ pin), .done (.hub (.unit result))) := by
  unfold driven? at h
  split at h
  · next result =>
    split at h
    · next hsame =>
      obtain ⟨rfl, rfl, rfl⟩ := hsame
      exact ⟨result, Option.some.inj h, rfl⟩
    · cases h
  · cases h

-- A chip with two lines is registered. The first consumer's line is on it and the bridge confirms;
-- the second one's is not.
def drivenTwice : List (Pool.Turn Operation) :=
  List.flatten [
    .call (.hub (.register ⟨5, "relay", 2, ["coil", "spare"]⟩)) :: List.replicate 6 (.move 0),
    .call (.hub (.setValue ⟨0⟩ 1 true)) :: List.replicate 3 (.move 1),
    .call (.hub (.dispatch (.setValueReply 5 1 0))) :: List.replicate 2 (.move 2),
    .call (.hub (.setValue ⟨0⟩ 2 true)) :: .move 3 :: List.replicate 3 (.move 1)]

theorem pins_bounded_of_run_drivenTwice :
    ∃ run : Nat → Calls Unit,
      Pool.Run (rules (fun _ _ _ _ => True) fun _ _ => False) ⟨{}, (), []⟩ run ∧
      (run 7).state.hub.Has ⟨0⟩ ∧ (run 19).state.Bounded ⟨0⟩ 2 ∧
      ((run 19).calls[1]? = some (.hub (.setValue ⟨0⟩ 1 true), .done (.hub (.unit (.ok ())))) ∧
        ∃ j, 7 ≤ j ∧ j < 19 ∧
          Pool.Turns (rules (fun _ _ _ _ => True) fun _ _ => False) run 1 j ∧
          (run (j + 1)).state.hub.Retains ⟨0⟩ 1 (.level true)) ∧
      ∃ outcome, (run 19).calls[3]? = some (.hub (.setValue ⟨0⟩ 2 true), .done (.hub outcome)) ∧
        outcome.failure? = some (.noSuchLine 2 2) ∧ outcome.TurnedDown 2 2 := by
  have hplay : (Pool.play ⟨Operation.process, fun _ _ => (.ok (), ()), fun _ _ => false⟩
      (fun _ _ => true) drivenTwice ⟨({} : Core), (), []⟩).any fun pools =>
        pools.getLast?.any fun last =>
          (pools.getD 7 last).calls.length = 1 ∧
          0 < (pools.getD 7 last).state.hub.chips.length ∧
          ((pools.getD 19 last).state.hub.chip ⟨0⟩).lineCount = 2 ∧
          ((pools.getD 19 last).calls[1]?.bind (driven? 1)) = some none ∧
          ((pools.getD 19 last).calls[3]?.bind (driven? 2)) = some (some (.noSuchLine 2 2)) := by
    decide +kernel
  obtain ⟨pools, hturns, hends⟩ := (Option.any_eq_true ..).mp hplay
  obtain ⟨last, hlast, hends⟩ := (Option.any_eq_true ..).mp hends
  obtain ⟨hone, hhas, hcount, hdriven, hrefused⟩ := of_decide_eq_true hends
  obtain ⟨hchain, hfirst⟩ := Pool.isChain_of_play
    (R := Pool.Step (rules (fun _ _ _ _ => True) fun _ _ => False))
    (fun turn pool next hturn _ => Pool.step_of_turn? rfl (fun _ _ => trivial)
      (fun _ _ _ h => h) hturn) hturns
  have hrun := Pool.run_of_isChain hchain hfirst hlast
  have hthere : (pools.getD 7 last).state.hub.Has ⟨0⟩ := hhas
  obtain ⟨r, -, -, hlater⟩ := pins_bounded_of_run hrun hthere
  obtain ⟨hbounded, -, hfares⟩ := hlater 19 (by omega)
  have hlines : r.lineCount = 2 := hbounded.chip.lineCount.symm.trans hcount
  rw [hlines] at hbounded hfares
  obtain ⟨call₁, hcall₁, hdriven⟩ := Option.bind_eq_some_iff.mp hdriven
  obtain ⟨result₁, hok, rfl⟩ := eq_of_driven? hdriven
  obtain ⟨call₃, hcall₃, hrefused⟩ := Option.bind_eq_some_iff.mp hrefused
  obtain ⟨result₃, hfault, rfl⟩ := eq_of_driven? hrefused
  have hdrive := hfares 1 1 (.setValue true) _ hone.le hcall₁
  have hrefuse := hfares 3 2 (.setValue true) _ (by omega) hcall₃
  refine ⟨_, hrun, hthere, hbounded, ?_, .unit result₃, hcall₃, hfault,
    (hrefuse.offChip (by decide)).turnedDown (by decide)⟩
  cases result₁ with
  | error fault => cases hok
  | ok => exact ⟨hcall₁, hdrive.remembered _ rfl (.level true) (List.mem_singleton_self _)⟩

end Run

end Core

end GpioBridge
