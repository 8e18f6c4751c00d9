import GpioBridge.Hub.Request
import GpioBridge.Proofs.Hub.Cells

namespace GpioBridge

-- What a caller is told if this is the latest reply there was.
structure Request.Tells (request : Request) (last : Outcome) (result : Except Fault Reply) :
    Prop where
  failed : ∀ fault, last.status.toResult = .error fault → result = .error fault
  done : last.status = .ok → request ≠ .getValue → result = .ok .done
  level : ∀ level, result = .ok (.level level) ↔ request = .getValue ∧ last = ⟨.ok, some level⟩
  missing : request = .getValue → last = ⟨.ok, none⟩ → ∃ detail, result = .error (.violation detail)
  notDone : request = .getValue → result ≠ .ok .done

-- A cell tells of the latest reply if it has its status, and its level too where that counts.
theorem Request.tells_result (request : Request) (uid : UInt64) (pin : UInt32)
    {outcome last : Outcome} (hstatus : outcome.status = last.status)
    (hlevel : last.status = .ok → outcome.level = last.level) :
    request.Tells last (request.result uid pin outcome) := by
  obtain ⟨status, kept⟩ := outcome
  obtain ⟨_, level⟩ := last
  obtain rfl : status = _ := hstatus
  by_cases hok : status = .ok
  · subst hok
    obtain rfl := hlevel rfl
    cases request with
    | getValue =>
      cases kept with
      | none => constructor <;> simp [result, Status.toResult]
      | some level => constructor <;> simp [result, Status.toResult, eq_comm]
    | setValue | setConfig | setDirection => constructor <;> simp [result, Status.toResult]
  · obtain ⟨fault, hfault⟩ : ∃ fault, status.toResult = .error fault := by
      cases status <;> first | exact ⟨_, rfl⟩ | exact absurd rfl hok
    have hresult : request.result uid pin ⟨status, kept⟩ = .error fault := by
      simp only [result, hfault]
    rw [hresult]
    constructor <;> simp [hfault, hok]

namespace Hub

-- The message went out, if only to nobody.
def WentOut (answer : Except TransportFault Unit) : Prop :=
  answer = .ok () ∨ answer = .error .noSubscribers

section Run

variable {τ : Type} {around : Process.Surroundings Hub τ Demand Demand.Answer} {hub hub₁ : Hub}
  {t t₁ : τ} {id : ChipId} {pin : UInt32} {request : Request} {cell : ReplyCell}

theorem run_call_offChip (hc : (hub.chip id).cell? pin = none) :
    (call id pin request).run around hub t = (.error ((hub.chip id).noSuchLine pin), hub, t) := by
  simp [call, Process.run, hc]

theorem run_call_refused {fault : TransportFault} (hc : hub.cell? id pin = some cell)
    (ha : around.answer (.send (request.message (hub.chip id).uid pin)) hub t =
      (.error fault, hub₁, t₁))
    (hne : fault ≠ .noSubscribers) :
    (call id pin request).run around hub t = (.error (.sendFailed fault.message), hub₁, t₁) := by
  unfold cell? at hc
  cases fault with
  | noSubscribers => exact absurd rfl hne
  | _ => simp [call, Process.run, hc, ha]

-- A caller whose message went out looks for a signal.
theorem run_call_wentOut {answer : Except TransportFault Unit}
    (hc : hub.cell? id pin = some cell)
    (ha : around.answer (.send (request.message (hub.chip id).uid pin)) hub t =
      (answer, hub₁, t₁))
    (hout : WentOut answer) :
    ∃ events : List Event, (call id pin request).run around hub t =
      ((collect id pin hub₁.countSent).1.elim (.error .unresponsive)
          (request.result (hub.chip id).uid pin),
        (collect id pin hub₁.countSent).2,
        events.foldl (fun t event => around.hear event t) t₁) := by
  unfold cell? at hc
  rcases hout with rfl | rfl
  · simp only [call, HubProcess.send_bind, Process.bind_eq, Process.pure_eq, Process.get_bind,
      Process.modify_bind, Process.update_bind, Process.log_bind, Process.run, id_eq, hc,
      Option.isNone_some, Bool.false_eq_true, if_false, ha]
    cases (collect id pin hub₁.countSent).1 with
    | none => exact ⟨[_], rfl⟩
    | some outcome => exact ⟨[], rfl⟩
  · simp only [call, HubProcess.send_bind, Process.bind_eq, Process.pure_eq, Process.get_bind,
      Process.modify_bind, Process.update_bind, Process.log_bind, Process.run, id_eq, hc,
      Option.isNone_some, Bool.false_eq_true, if_false, ha]
    cases (collect id pin hub₁.countSent).1 with
    | none => exact ⟨[_, _], rfl⟩
    | some outcome => exact ⟨[_], rfl⟩

theorem collect_of_cell (hub : Hub) (h : hub.cell? id pin = some cell) :
    (cell.pending = 0 → collect id pin hub = (none, hub.countTimedOut)) ∧
    (cell.pending ≠ 0 → collect id pin hub = (some ⟨cell.status, cell.level⟩,
      hub.modifyChip id fun chip => chip.modifyCell pin fun _ =>
        { cell with pending := cell.pending - 1 })) := by
  unfold cell? at h
  constructor
  · intro hnone
    simp [collect, h, ReplyCell.take?, hnone]
  · intro hsome
    simp [collect, h, ReplyCell.take?, hsome]

theorem cell?_countSent (hub : Hub) (id : ChipId) (pin : UInt32) :
    hub.countSent.cell? id pin = hub.cell? id pin := rfl

-- What there is to know of a call when it has taken a signal: `waiting` signals were there, and
-- `hub₁` is how the hub was then.
structure Took (hub₁ hub' : Hub) (id : ChipId) (pin : UInt32) (waiting : Nat) : Prop where
  pending : (hub'.cell? id pin).map (·.pending.toNat) = some (waiting - 1)
  counters : hub'.counters = { hub₁.counters with sent := hub₁.counters.sent + 1 }
  resembles : hub₁.Resembles hub'
  others : ∀ other place, ¬(other = id ∧ place = pin) →
    hub'.cell? other place = hub₁.cell? other place

theorem took_collect (h : hub₁.cell? id pin = some cell) (hsome : cell.pending ≠ 0) :
    (collect id pin hub₁.countSent).1 = some ⟨cell.status, cell.level⟩ ∧
      Took hub₁ (collect id pin hub₁.countSent).2 id pin cell.pending.toNat := by
  have hcollect := (collect_of_cell hub₁.countSent h).2 hsome
  have hcells := cell?_modifyCell hub₁.countSent id pin fun _ =>
    { cell with pending := cell.pending - 1 }
  rw [hcollect]
  refine ⟨rfl, ?_, rfl, ?_, fun other place hne => ?_⟩
  · have hpositive : cell.pending.toNat ≠ 0 := fun heq => hsome (UInt32.toNat_inj.mp heq)
    have hlt := cell.pending.toNat_lt
    rw [hcells, if_pos ⟨rfl, rfl⟩, cell?_countSent, h]
    simp only [Option.map_some, UInt32.toNat_sub, UInt32.toNat_one]
    congr 1
    omega
  · exact (resembles_counters hub₁ _).trans
      (resembles_modifyCell (fun _ => { cell with pending := cell.pending - 1 }) hub₁.countSent id pin)
  · rw [hcells, if_neg hne, cell?_countSent]

-- A call from end to end, for a cell with any history and any number of replies that come in while
-- the message is sent. Only a caller who finds no signal at all is left without a reply; every
-- other takes one signal and is told of the latest reply there was.
theorem call_takes_latest (around : Process.Surroundings Hub τ Demand Demand.Answer) (hub : Hub)
    (t : τ) (id : ChipId) (pin : UInt32) (request : Request) :
    ((hub.chip id).names.length ≤ pin.toNat →
      (call id pin request).run around hub t =
        (.error (.noSuchLine pin (hub.chip id).lineCount), hub, t)) ∧
    ∀ history replies answer hub₁ t₁,
      hub.cell? id pin = some (ReplyCell.after {} history) →
      around.answer (.send (request.message (hub.chip id).uid pin)) hub t = (answer, hub₁, t₁) →
      hub₁.cell? id pin = some ((ReplyCell.after {} history).after (replies.map .post)) →
      (ReplyCell.after {} history).pending.toNat + replies.length < 0xFFFFFFFF →
      let waiting := (ReplyCell.after {} history).pending.toNat + replies.length
      ∃ result hub', ∃ events : List Event, (call id pin request).run around hub t =
          (result, hub', events.foldl (fun t event => around.hear event t) t₁) ∧
        (∀ fault, answer = .error fault → fault ≠ .noSubscribers →
          result = .error (.sendFailed fault.message) ∧ hub' = hub₁ ∧
            (hub'.cell? id pin).map (·.pending.toNat) = some waiting) ∧
        (WentOut answer → waiting = 0 →
          result = .error .unresponsive ∧
            hub' = { hub₁ with
              counters.sent := hub₁.counters.sent + 1
              counters.timedOut := hub₁.counters.timedOut + 1 }) ∧
        (WentOut answer → 0 < waiting →
          Took hub₁ hub' id pin waiting ∧
            ∃ last, (ReplyCell.posted history ++ replies).getLast? = some last ∧
              request.Tells last result) := by
  refine ⟨fun hoff => run_call_offChip (Chip.cell?_eq_none_iff.mpr hoff), ?_⟩
  intro history replies answer hub₁ t₁ hcell ha hcell₁ hroom waiting
  have hpending := ReplyCell.pending_after_posts (ReplyCell.after {} history) replies hroom
  rw [← ReplyCell.after_append] at hcell₁ hpending
  by_cases hout : WentOut answer
  · obtain ⟨events, hrun⟩ := run_call_wentOut hcell ha hout
    refine ⟨_, _, events, hrun, fun fault hfault hne => ?_, fun _ hnone => ?_, fun _ hsome => ?_⟩
    · rcases hout with rfl | rfl
      · cases hfault
      · cases hfault
        exact absurd rfl hne
    · have hzero : (ReplyCell.after {} (history ++ replies.map .post)).pending = 0 :=
        UInt32.toNat_inj.mp (hpending.trans hnone)
      rw [(collect_of_cell hub₁.countSent hcell₁).1 hzero]
      exact ⟨rfl, rfl⟩
    · have hne : (ReplyCell.after {} (history ++ replies.map .post)).pending ≠ 0 := by
        intro hzero
        rw [hzero] at hpending
        exact absurd hpending (by simp; omega)
      obtain ⟨hoffered, htook⟩ := took_collect hcell₁ hne
      obtain ⟨last, hlast⟩ := ReplyCell.exists_last_of_pending (history ++ replies.map .post)
        (by omega)
      obtain ⟨hstatus, hlevel⟩ := ReplyCell.outcome_after {} _ hlast
      rw [hpending] at htook
      rw [hoffered]
      refine ⟨htook, last, by simpa using hlast, ?_⟩
      exact request.tells_result _ pin hstatus hlevel
  · obtain ⟨fault, rfl, hne⟩ : ∃ fault, answer = .error fault ∧ fault ≠ .noSubscribers := by
      rcases answer with fault | _
      · exact ⟨fault, rfl, fun h => hout (.inr (h ▸ rfl))⟩
      · exact absurd (.inl rfl) hout
    refine ⟨_, hub₁, [], run_call_refused hcell ha hne, ?_, (absurd · hout), (absurd · hout)⟩
    rintro fault' ⟨⟩ -
    exact ⟨rfl, rfl, by rw [hcell₁, Option.map_some, hpending]⟩

-- A line on which a caller gave up and the reply, that it is high, came after that.
def strayed : Hub where
  chips := [(Chip.create 5 "relay" ["coil"]).modifyCell 0 fun cell =>
    cell.after [.wait, .post ⟨.ok, some true⟩]]
  registry := (∅ : UidMap ChipId).insert 5 ⟨0⟩

-- Surroundings in which two replies come in with every message: a failure, and that the line is
-- low.
def hasty : Process.Surroundings Hub Unit Demand Demand.Answer where
  answer
    | .send _, hub, t =>
      ((.ok () : Except TransportFault Unit),
        (deliver (.getValueReply 5 0 0 (some 0)) (deliver (.setValueReply 5 0 2) hub).2).2, t)
    | .expose _ _, hub, t => ((.error .busy : Except Fault Handle), hub, t)
    | .conceal _, hub, t => ((), hub, t)
    | .isHeld _ _, hub, t => (false, hub, t)
  hear _ t := t

-- The old level is not what the next caller is told, though it takes the old signal.
theorem call_takes_latest_straySignal :
    ∃ hub', (call ⟨0⟩ 0 .getValue).run hasty strayed () = (.ok (.level false), hub', ()) ∧
      (hub'.cell? ⟨0⟩ 0).map (·.pending.toNat) = some 2 ∧ hub'.counters.sent = 1 := by
  obtain ⟨result, hub', _, hrun, -, -, htook⟩ :=
    (call_takes_latest hasty strayed () ⟨0⟩ 0 .getValue).2
      [.wait, .post ⟨.ok, some true⟩] [⟨.brokenPipe, none⟩, ⟨.ok, some false⟩] _ _ () rfl rfl rfl
      (by decide)
  obtain ⟨⟨hpending, hcounters, -, -⟩, last, hlast, htells⟩ := htook (.inl rfl) (by decide)
  obtain rfl : ⟨.ok, some false⟩ = last := Option.some.inj hlast
  obtain rfl : result = .ok (.level false) := (htells.level false).mpr ⟨rfl, rfl⟩
  exact ⟨hub', hrun, hpending, by rw [hcounters]; rfl⟩

end Run

end Hub

end GpioBridge
