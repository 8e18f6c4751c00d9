import GpioBridge.Proofs.Hub.Duplex
import GpioBridge.Proofs.Service.Duty
import GpioBridge.Proofs.Service.Stage

namespace GpioBridge.Service

open Process

def Exchanged.received? : Exchanged → Option Message
  | ⟨.receive, (.ok (some m) : Except TransportFault (Option Message))⟩ => some m
  | _ => none

def Exchanged.hub? : Exchanged → Option Hub.Dealing
  | ⟨.hub demand, answer⟩ => some ⟨demand, answer⟩
  | _ => none

-- The messages that came in.
def received (past : List Exchanged) : List Message := past.filterMap Exchanged.received?

-- What the hub was answered.
def hubPast (past : List Exchanged) : List Hub.Dealing := past.filterMap Exchanged.hub?

-- How often a message was waited for.
def pollCount (past : List Exchanged) : Nat :=
  past.countP fun exchanged => exchanged.1 matches .receive

-- The transport was found closed.
def Closed (past : List Exchanged) : Prop :=
  (⟨.receive, (.error .closed : Except TransportFault (Option Message))⟩ : Exchanged) ∈ past

namespace Stage

-- The message that has come in and is still to be passed on.
def pending : Stage → List Message
  | routing m _ => [m]
  | _ => []

-- What the record says at a stage. Receiving goes on until the transport is closed, the service has
-- been told to stop, or all polls were made.
def Tells (limit : Nat) (service : Service) (past : List Exchanged) : Stage → Prop
  | tending left | routing _ left => pollCount past + left = limit ∧ ¬Closed past
  | polling left => pollCount past + left + 1 = limit ∧ ¬Closed past
  | leaving (.ok ()) | waiting (.ok ()) | gone (.ok ()) =>
    (service.running = false ∨ pollCount past = limit) ∧ ¬Closed past
  | leaving (.error fault) | waiting (.error fault) | gone (.error fault) =>
    fault = .closed ∧ Closed past

-- Whether messages may still be queued.
def isOpen : Stage → Bool
  | waiting _ | gone _ => false
  | _ => true

end Stage

-- What the worker still does, if it has begun with these control messages. It is busy with the last
-- of them, or it is to ask for more; or it has been told that no more will come.
inductive Duty.Works (limit : Nat) (service : Service) (controls : List Message) :
    WorkerProcess Unit → HubProcess Unit → Prop where
  | busy {left count} (hcount : controls.length + count = limit + 1) :
      Works limit service controls ((carryOut left).bind fun _ => working count) left
  | told {event} (hqueue : service.queue = []) (hclosed : service.queueOpen = false) :
      Works limit service controls (.note event (.done ())) (.done ())
  | ended (hqueue : service.queue = []) (hclosed : service.queueOpen = false) :
      Works limit service controls (.done ()) (.done ())

-- What is so at every moment: what came in was delivered, or was begun with, or is queued, or is
-- still to be passed on.
structure Duty.Kept (limit : Nat) (first : Hub) (duty : Duty) (g : Stage) (left : HubProcess Unit)
    (replies controls : List Message) : Prop where
  receiver : duty.receiver.Follows plan Ended g
  worker : Duty.Works limit duty.service controls duty.worker left
  isOpen : duty.service.queueOpen = g.isOpen
  delivered : (received duty.past).filter (·.isLineReply) =
    replies ++ g.pending.filter (·.isLineReply)
  begun : (received duty.past).filter (·.isControl) =
    controls ++ duty.service.queue ++ g.pending.filter (·.isControl)
  run : Hub.HubRun first replies controls left duty.service.hub (hubPast duty.past)
  acked : Hub.Acked controls left (hubPast duty.past)
  polled : pollCount duty.past ≤ limit
  tells : g.Tells limit duty.service duty.past
  idle : ∀ result, g = .gone result → duty.worker = .done ()

namespace Duty

section Record

variable {past : List Exchanged} {demand : ServiceDemand} {answer : demand.Answer}

-- An answer to anything but a poll says nothing about what came in.
theorem received_concat (h : demand ≠ .receive) :
    received (past ++ [⟨demand, answer⟩]) = received past := by
  cases demand with
  | receive => exact absurd rfl h
  | _ => simp [received, Exchanged.received?]

theorem pollCount_concat (h : demand ≠ .receive) :
    pollCount (past ++ [⟨demand, answer⟩]) = pollCount past := by
  cases demand with
  | receive => exact absurd rfl h
  | _ => simp [pollCount]

theorem closed_concat (h : demand ≠ .receive) :
    Closed (past ++ [⟨demand, answer⟩]) ↔ Closed past := by
  have hother : (⟨.receive, .error .closed⟩ : Exchanged) ≠ ⟨demand, answer⟩ := by
    rintro heq
    exact h (congrArg Sigma.fst heq).symm
  simp [Closed, hother]

theorem tells_concat {g : Stage} {limit : Nat} {service : Service} (h : demand ≠ .receive) :
    g.Tells limit service (past ++ [⟨demand, answer⟩]) ↔ g.Tells limit service past := by
  unfold Stage.Tells
  simp only [pollCount_concat h, closed_concat h]

theorem hubPast_concat (h : ∀ asked, demand ≠ .hub asked) :
    hubPast (past ++ [⟨demand, answer⟩]) = hubPast past := by
  cases demand with
  | hub asked => exact absurd rfl (h asked)
  | _ => simp [hubPast, Exchanged.hub?]

-- No poll brings more than one message.
theorem length_received_le (past : List Exchanged) : (received past).length ≤ pollCount past := by
  rw [received, List.length_filterMap_eq_countP, pollCount]
  refine List.countP_mono_left fun exchanged _ hcame => ?_
  obtain ⟨demand, answer⟩ := exchanged
  cases demand with
  | receive => rfl
  | _ => cases hcame

end Record

section Works

variable {limit : Nat} {service service' : Service} {controls : List Message}
  {worker worker' : WorkerProcess Unit} {left : HubProcess Unit}

theorem Works.of_same (h : Works limit service controls worker left)
    (hqueue : service'.queue = service.queue) (hopen : service'.queueOpen = service.queueOpen) :
    Works limit service' controls worker left := by
  cases h with
  | busy hcount => exact .busy hcount
  | told hempty hclosed => exact .told (hqueue.trans hempty) (hopen.trans hclosed)
  | ended hempty hclosed => exact .ended (hqueue.trans hempty) (hopen.trans hclosed)

theorem Works.enqueue (h : Works limit service controls worker left)
    (hopen : service.queueOpen = true) (m : Message) :
    Works limit (enqueue m service) controls worker left := by
  cases h with
  | busy hcount => exact .busy hcount
  | told _ hclosed | ended _ hclosed =>
    rw [hopen] at hclosed
    cases hclosed

theorem Works.closeQueue (h : Works limit service controls worker left) :
    Works limit service.closeQueue controls worker left := by
  cases h with
  | busy hcount => exact .busy hcount
  | told hempty _ => exact .told hempty rfl
  | ended hempty _ => exact .ended hempty rfl

-- A worker that has not had its fill ends only when nothing is left for it.
theorem Works.of_done (h : Works limit service controls (.done ()) left)
    (hfill : controls.length ≤ limit) : left = .done () ∧ service.queue = [] := by
  generalize hworker : (.done () : WorkerProcess Unit) = worker at h
  cases h with
  | @busy left count hcount =>
    cases left with
    | done =>
      cases count with
      | zero => omega
      | succ count => cases hworker
    | _ => cases hworker
  | told => cases hworker
  | ended hempty _ => exact ⟨rfl, hempty⟩

-- What the worker does with a message is what it does on the hub.
theorem moves_carryOut {isOpen : Bool} {f : Unit → WorkerProcess Unit} {hub hub' : Hub}
    {queue queue' : List Message} {past past' : List Exchanged} (hleft : left ≠ .done ())
    (h : ((carryOut left).bind f).Moves (Serves isOpen) hub (queue, past) worker' hub'
      (queue', past')) :
    ∃ left', worker' = (carryOut left').bind f ∧ queue' = queue ∧
      left.Moves (Hub.hubRules [] []).answers hub (hubPast past) left' hub' (hubPast past') ∧
      (past' = past ∨ ∃ demand answer, past' = past ++ [⟨.hub demand, answer⟩]) := by
  cases left with
  | done => exact absurd rfl hleft
  | step change next =>
    cases h
    exact ⟨next hub, rfl, rfl, .step, .inl rfl⟩
  | note event next =>
    cases h
    exact ⟨next, rfl, rfl, .note, .inl rfl⟩
  | ask demand next =>
    cases h with
    | @ask _ _ _ _ answer _ hserves =>
      cases hserves with
      | hub =>
        refine ⟨next answer, rfl, rfl, .ask ?_, .inr ⟨demand, answer, rfl⟩⟩
        change hubPast _ = _
        simp [hubPast, Exchanged.hub?]

end Works

section Kept

variable {limit : Nat} {first : Hub} {duty : Duty} {g : Stage} {left : HubProcess Unit}
  {replies controls : List Message}

-- Once the service has been told to stop, it stays so.
theorem tells_mono {service service' : Service} {past : List Exchanged}
    (h : g.Tells limit service past) (hrunning : service.running = false → service'.running = false) :
    g.Tells limit service' past := by
  rcases g with _ | _ | _ | (_ | _) | (_ | _) | (_ | _)
  case leaving.ok | waiting.ok | gone.ok => exact ⟨h.1.imp_left hrunning, h.2⟩
  all_goals exact h

theorem Kept.stop (h : duty.Kept limit first g left replies controls) :
    Kept limit first { duty with service.running := false } g left replies controls :=
  { h with
    worker := h.worker.of_same rfl rfl
    tells := tells_mono h.tells fun _ => rfl }

-- Fewer control messages have been begun with than the worker may have.
theorem Kept.length_controls_le (h : duty.Kept limit first g left replies controls) :
    controls.length ≤ limit := by
  have hbegun := congrArg List.length h.begun
  simp only [List.length_append] at hbegun
  have hfilter := List.length_filter_le (·.isControl) (received duty.past)
  have hcame := length_received_le duty.past
  have hpolled := h.polled
  omega

theorem Kept.isControl_of_mem {m : Message} (h : duty.Kept limit first g left replies controls)
    (hm : m ∈ duty.service.queue) : m.isControl = true := by
  have hcame : m ∈ (received duty.past).filter (·.isControl) := by
    rw [h.begun]
    exact List.mem_append_left _ (List.mem_append_right _ hm)
  exact (List.mem_filter.mp hcame).2

-- What the worker does changes nothing of what came in, and what it takes from the queue it begins
-- with.
theorem Kept.work {hub' : Hub} {queue' : List Message} {past' : List Exchanged}
    {worker' : WorkerProcess Unit} (h : duty.Kept limit first g left replies controls)
    (hmoves : duty.worker.Moves (Serves duty.service.queueOpen) duty.service.hub
      (duty.service.queue, duty.past) worker' hub' (queue', past')) :
    ∃ left' controls', Kept limit first
      { duty with
        service := { duty.service with hub := hub', queue := queue' }
        past := past'
        worker := worker' } g left' replies controls' := by
  have hbusy : ∀ result, g ≠ .gone result := by
    intro result hgone
    rw [h.idle result hgone] at hmoves
    cases hmoves
  obtain ⟨service, past, receiver, worker⟩ := duty
  have hworks := h.worker
  have hbegun := h.begun
  dsimp only at hworks hmoves hbegun ⊢
  cases hworks with
  | @busy _ count hcount =>
    by_cases hleft : left = .done ()
    · subst hleft
      cases count with
      | zero => cases hmoves
      | succ count =>
        cases hmoves with
        | ask hserves =>
          generalize hqueue : service.queue = queue at hserves
          cases hserves with
          | @next m rest =>
            have hmem : m ∈ service.queue := by
              rw [hqueue]
              exact List.mem_cons_self
            have hfill : (controls ++ [m]).length + count = limit + 1 := by
              rw [List.length_append, List.length_singleton]
              omega
            refine ⟨Hub.answerControl m, controls ++ [m],
              { h with
                worker := .busy hfill
                begun := ?_
                run := h.run.fetch m
                acked := h.acked.fetch (h.isControl_of_mem hmem)
                tells := tells_mono h.tells id
                idle := fun result hgone => absurd hgone (hbusy result) }⟩
            rw [hbegun, hqueue]
            simp
          | noMore hclosed =>
            exact ⟨.done (), controls,
              { h with
                worker := .told rfl hclosed
                begun := hqueue ▸ hbegun
                tells := tells_mono h.tells id
                idle := fun result hgone => absurd hgone (hbusy result) }⟩
    · obtain ⟨left', rfl, rfl, hmove, hpast⟩ := moves_carryOut hleft hmoves
      have hsame : received past' = received past ∧ pollCount past' = pollCount past ∧
          (g.Tells limit service past' ↔ g.Tells limit service past) := by
        rcases hpast with rfl | ⟨demand, answer, rfl⟩
        · exact ⟨rfl, rfl, Iff.rfl⟩
        · have hother : ServiceDemand.hub demand ≠ .receive := nofun
          exact ⟨received_concat hother, pollCount_concat hother, tells_concat hother⟩
      obtain ⟨hnews, hpolls, htells⟩ := hsame
      exact ⟨left', controls,
        { receiver := h.receiver
          worker := .busy hcount
          isOpen := h.isOpen
          delivered := hnews ▸ h.delivered
          begun := hnews ▸ hbegun
          run := h.run.move hmove
          acked := h.acked.move hmove
          polled := hpolls ▸ h.polled
          tells := tells_mono (htells.mpr h.tells) id
          idle := fun result hgone => absurd hgone (hbusy result) }⟩
  | told hempty hclosed =>
    cases hmoves
    exact ⟨.done (), controls,
      { h with
        worker := .ended hempty hclosed
        tells := tells_mono h.tells id
        idle := fun result hgone => absurd hgone (hbusy result) }⟩
  | ended => cases hmoves

-- A message is a reply, or a control message, or neither.
theorem not_isControl_of_isLineReply {m : Message} (h : m.isLineReply = true) :
    m.isControl = false := by
  cases m <;> simp_all [Message.isLineReply, Message.isControl]

theorem Kept.step {change : Service → Service} {g' : Stage} {p' : ServiceProcess _}
    (h : duty.Kept limit first g left replies controls) (hp : p'.Follows plan Ended g')
    (hstep : plan.step g change duty.service g') :
    ∃ replies', Kept limit first
      { duty with service := change duty.service, receiver := p' } g' left replies' controls := by
  cases hstep with
  | tend hreporter =>
    obtain ⟨reporter, hchange⟩ := hreporter
    rw [hchange]
    exact ⟨replies,
      { h with
        receiver := hp
        worker := h.worker.of_same rfl rfl
        tells := tells_mono h.tells id
        idle := by rintro _ ⟨⟩ }⟩
  | @look polls =>
    have htells := h.tells
    cases hrunning : duty.service.running with
    | false =>
      rw [hrunning] at hp
      exact ⟨replies,
        { h with
          receiver := hp
          tells := ⟨.inl hrunning, htells.2⟩
          idle := by rintro _ ⟨⟩ }⟩
    | true =>
      rw [hrunning] at hp
      exact ⟨replies,
        { h with
          receiver := hp
          tells := ⟨(Nat.add_assoc ..).trans htells.1, htells.2⟩
          idle := by rintro _ ⟨⟩ }⟩
  | @dispatch m polls _ hreply =>
    have hother := not_isControl_of_isLineReply hreply
    refine ⟨replies ++ [m],
      { h with
        receiver := hp
        worker := h.worker.of_same rfl rfl
        delivered := ?_
        begun := ?_
        run := h.run.dispatch m
        tells := h.tells
        idle := by rintro _ ⟨⟩ }⟩
    · simpa [Stage.pending, hreply] using h.delivered
    · simpa [Stage.pending, hother] using h.begun
  | @enqueue m polls _ hcontrol =>
    have hother : m.isLineReply = false := by
      cases hreply : m.isLineReply with
      | false => rfl
      | true => cases (not_isControl_of_isLineReply hreply).symm.trans hcontrol
    refine ⟨replies,
      { h with
        receiver := hp
        worker := h.worker.enqueue h.isOpen m
        delivered := ?_
        begun := ?_
        tells := h.tells
        idle := by rintro _ ⟨⟩ }⟩
    · simpa [Stage.pending, hother] using h.delivered
    · simpa [Stage.pending, hcontrol, Service.enqueue] using h.begun
  | @leave result =>
    have htells : Stage.Tells limit duty.service duty.past (.waiting result) := by
      cases result <;> exact h.tells
    exact ⟨replies,
      { h with
        receiver := hp
        worker := h.worker.closeQueue
        isOpen := rfl
        tells := tells_mono htells id
        idle := by rintro _ ⟨⟩ }⟩
  | retire =>
    exact ⟨replies,
      { h with
        receiver := hp
        worker := h.worker.closeQueue
        isOpen := rfl
        tells := ⟨.inr h.tells.1, h.tells.2⟩
        idle := by rintro _ ⟨⟩ }⟩
  | count => exact ⟨replies, { h with receiver := hp }⟩

-- What has to do neither with messages nor with the hub changes only the stage.
theorem Kept.aside {demand : ServiceDemand} {answer : demand.Answer} {g' : Stage}
    {p' : ServiceProcess _} (h : duty.Kept limit first g left replies controls)
    (hp : p'.Follows plan Ended g') (hother : demand ≠ .receive)
    (hhub : ∀ asked, demand ≠ .hub asked) (hopen : g'.isOpen = g.isOpen)
    (hpending : g'.pending = g.pending) (htells : g'.Tells limit duty.service duty.past)
    (hidle : ∀ result, g' = .gone result → duty.worker = .done ()) :
    Kept limit first { duty with past := duty.past ++ [⟨demand, answer⟩], receiver := p' } g' left
      replies controls := by
  have hnews : received (duty.past ++ [⟨demand, answer⟩]) = received duty.past :=
    received_concat hother
  have hpast : hubPast (duty.past ++ [⟨demand, answer⟩]) = hubPast duty.past := hubPast_concat hhub
  have hpolls : pollCount (duty.past ++ [⟨demand, answer⟩]) = pollCount duty.past :=
    pollCount_concat hother
  exact
    { receiver := hp
      worker := h.worker
      isOpen := h.isOpen.trans hopen.symm
      delivered := hnews ▸ hpending ▸ h.delivered
      begun := hnews ▸ hpending ▸ h.begun
      run := hpast ▸ h.run
      acked := hpast ▸ h.acked
      polled := hpolls ▸ h.polled
      tells := (tells_concat hother).mpr htells
      idle := hidle }

-- What comes in and concerns anybody is to be passed on.
theorem filter_pending_ofReceipt {concerned : Message → Bool}
    (h : ∀ m, concerned m = true → Concerns m) (polls : Nat)
    (answer : Except TransportFault (Option Message)) :
    (Stage.ofReceipt polls answer).pending.filter concerned =
      (Exchanged.received? ⟨.receive, answer⟩).toList.filter concerned := by
  rcases answer with fault | _ | m
  · cases fault <;> rfl
  · rfl
  · change (if Concerns m then Stage.routing m polls else .tending polls).pending.filter concerned =
      [m].filter concerned
    split
    · rfl
    · rename_i hnone
      have hout : ¬concerned m = true := fun hm => hnone (h m hm)
      simp [Stage.pending, hout]

theorem ofReceipt_cases (polls : Nat) (answer : Except TransportFault (Option Message)) :
    (answer = .error .closed ∧ Stage.ofReceipt polls answer = .leaving (.error .closed)) ∨
      (answer ≠ .error .closed ∧ (Stage.ofReceipt polls answer = .tending polls ∨
        ∃ m, Stage.ofReceipt polls answer = .routing m polls)) := by
  rcases answer with fault | _ | m
  · cases fault
    case closed => exact .inl ⟨rfl, rfl⟩
    all_goals exact .inr ⟨nofun, .inl rfl⟩
  · exact .inr ⟨nofun, .inl rfl⟩
  · refine .inr ⟨nofun, ?_⟩
    by_cases hm : Concerns m
    · exact .inr ⟨m, if_pos hm⟩
    · exact .inl (if_neg hm)

-- What a poll came to.
theorem Kept.receipt {answer : Except TransportFault (Option Message)} {polls : Nat}
    {p' : ServiceProcess _} (h : duty.Kept limit first (.polling polls) left replies controls)
    (hp : p'.Follows plan Ended (.ofReceipt polls answer)) :
    Kept limit first { duty with past := duty.past ++ [⟨.receive, answer⟩], receiver := p' }
      (.ofReceipt polls answer) left replies controls := by
  have hpast : hubPast (duty.past ++ [⟨.receive, answer⟩]) = hubPast duty.past :=
    hubPast_concat nofun
  have hnews : received (duty.past ++ [⟨.receive, answer⟩]) =
      received duty.past ++ (Exchanged.received? ⟨.receive, answer⟩).toList := by
    cases hcame : Exchanged.received? ⟨.receive, answer⟩ <;> simp [received, hcame]
  have hpolls : pollCount (duty.past ++ [⟨.receive, answer⟩]) = pollCount duty.past + 1 := by
    simp [pollCount]
  have hopen : (Stage.ofReceipt polls answer).isOpen = true := by
    rcases ofReceipt_cases polls answer with ⟨-, heq⟩ | ⟨-, heq | ⟨m, heq⟩⟩
    all_goals
      rw [heq]
      rfl
  have hcount : pollCount (duty.past ++ [⟨.receive, answer⟩]) + polls = limit := by
    rw [hpolls, Nat.add_right_comm]
    exact h.tells.1
  refine
    { receiver := hp
      worker := h.worker
      isOpen := h.isOpen.trans hopen.symm
      delivered := ?_
      begun := ?_
      run := hpast ▸ h.run
      acked := hpast ▸ h.acked
      polled := hcount ▸ Nat.le_add_right _ _
      tells := ?_
      idle := ?_ }
  · rw [hnews, List.filter_append, filter_pending_ofReceipt fun m => .inl]
    simpa [Stage.pending] using h.delivered
  · rw [hnews, List.filter_append, filter_pending_ofReceipt fun m => .inr]
    simpa [Stage.pending, ← List.append_assoc] using h.begun
  · rcases ofReceipt_cases polls answer with ⟨rfl, hleave⟩ | ⟨hopen, hgoOn⟩
    · rw [hleave]
      exact ⟨rfl, List.mem_append_right _ List.mem_cons_self⟩
    · have hstill : ¬Closed (duty.past ++ [⟨.receive, answer⟩]) := by
        have hother : (⟨.receive, .error .closed⟩ : Exchanged) ≠ ⟨.receive, answer⟩ :=
          fun heq => hopen (eq_of_heq (Sigma.mk.inj heq).2).symm
        simpa [Closed, hother] using h.tells.2
      obtain hgoOn | ⟨m, hgoOn⟩ := hgoOn
      all_goals
        rw [hgoOn]
        exact ⟨hcount, hstill⟩
  · intro result hgone
    rcases ofReceipt_cases polls answer with ⟨-, heq⟩ | ⟨-, heq | ⟨m, heq⟩⟩
    all_goals cases heq.symm.trans hgone

theorem Kept.ask {demand : ServiceDemand} {answer : demand.Answer} {g' : Stage} {past' : List Exchanged}
    {p' : ServiceProcess _} (h : duty.Kept limit first g left replies controls)
    (hp : p'.Follows plan Ended g') (hask : plan.ask g demand answer g')
    (hanswer : duty.Answers demand duty.past answer past') :
    Kept limit first { duty with past := past', receiver := p' } g' left replies controls := by
  obtain ⟨rfl, hwait⟩ := hanswer
  cases hask with
  | tend hclerical =>
    refine h.aside hp ?_ ?_ rfl rfl h.tells nofun
    · rintro rfl
      cases hclerical
    · rintro _ rfl
      cases hclerical
  | receive => exact h.receipt hp
  | @join result =>
    refine h.aside hp nofun nofun rfl rfl ?_ fun _ _ => hwait rfl
    cases result <;> exact h.tells

-- Whatever happens next, everything that came in is kept.
theorem Kept.advance {next : Duty} (h : duty.Kept limit first g left replies controls)
    (hstep : Duty.Step duty next) :
    ∃ g' left' replies' controls', next.Kept limit first g' left' replies' controls' := by
  cases hstep with
  | stop => exact ⟨g, left, replies, controls, h.stop⟩
  | work hmoves =>
    obtain ⟨left', controls', hkept⟩ := h.work hmoves
    exact ⟨g, left', replies, controls', hkept⟩
  | receive hmoves =>
    rcases Plan.goes_of_moves h.receiver hmoves with ⟨hp, rfl, rfl⟩ | ⟨-, g', hp, hgoes⟩
    · exact ⟨g, left, replies, controls, { h with receiver := hp }⟩
    cases hgoes with
    | step hstep =>
      obtain ⟨replies', hkept⟩ := h.step hp hstep
      exact ⟨g', left, replies', controls, hkept⟩
    | ask hask hanswer => exact ⟨g', left, replies, controls, h.ask hp hask hanswer⟩

theorem kept_of_run {polls : Nat} {service : Service} {last : Duty}
    (h : Relation.ReflTransGen Step (start service polls) last) :
    ∃ g left replies controls, last.Kept polls service.hub g left replies controls := by
  induction h with
  | refl =>
    have hfill : Works polls service.openQueue []
        ((carryOut (.done ())).bind fun _ => working (polls + 1)) (.done ()) :=
      .busy (Nat.zero_add _)
    exact ⟨.tending polls, .done (), [], [],
      { receiver := follows_loop polls
        worker := hfill
        isOpen := rfl
        delivered := rfl
        begun := rfl
        run := Hub.hubRun_nil _
        acked := Hub.acked_nil
        polled := Nat.zero_le _
        tells := ⟨Nat.zero_add _, List.not_mem_nil⟩
        idle := by rintro _ ⟨⟩ }⟩
  | tail _ hstep ih =>
    obtain ⟨g, left, replies, controls, hkept⟩ := ih
    exact hkept.advance hstep

end Kept

end Duty

-- Receiving and the worker are under way on a service. When receiving returns, the worker has ended
-- and nothing is queued, and the hub is as two calls on it leave it, the one delivering the replies
-- that came in, each once and in order, and the other carrying out the control messages that came
-- in, each once and in order. Whatever else came in has played no part, nor has anything that went
-- wrong with a poll, except that the transport is closed, which is what ends receiving with an
-- error.
theorem lossless_of_run {polls : Nat} {service : Service} {last : Duty}
    {result : Except TransportFault Unit}
    (h : Relation.ReflTransGen Duty.Step (.start service polls) last)
    (hresult : last.receiver = .done result) :
    let replies := (received last.past).filter (·.isLineReply)
    let controls := (received last.past).filter (·.isControl)
    (last.worker = .done () ∧ last.service.queue = []) ∧
      Relation.ReflTransGen (Pool.Step (Hub.hubRules replies controls)) ⟨service.hub, [], []⟩
        ⟨last.service.hub, hubPast last.past, [(.receiver, .done ()), (.worker, .done ())]⟩ ∧
      List.Forall₂ (fun m ack => Peer.acknowledges ack m = true) controls
        (Hub.sent (hubPast last.past)) ∧
      (result = .error .closed ↔ Closed last.past) ∧
      (result ≠ .error .closed →
        result = .ok () ∧ (last.service.running = false ∨ pollCount last.past = polls)) := by
  intro replies controls
  obtain ⟨g, left, replies', controls', hkept⟩ := Duty.kept_of_run h
  have hended := hkept.receiver
  rw [hresult] at hended
  obtain rfl : g = .gone result := by
    cases hended with
    | done hgone => exact hgone
  have hidle := hkept.idle result rfl
  have hworks := hkept.worker
  rw [hidle] at hworks
  obtain ⟨rfl, hempty⟩ := hworks.of_done hkept.length_controls_le
  have hreplies : replies = replies' := by simpa [Stage.pending] using hkept.delivered
  have hcontrols : controls = controls' := by simpa [Stage.pending, hempty] using hkept.begun
  subst hreplies hcontrols
  have htells := hkept.tells
  refine ⟨⟨hidle, hempty⟩, ?_, hkept.acked.forall₂, ?_⟩
  · simpa [Hub.each] using hkept.run [] []
  · rcases result with fault | _
    · obtain ⟨rfl, hclosed⟩ := htells
      exact ⟨⟨fun _ => hclosed, fun _ => rfl⟩, fun hne => absurd rfl hne⟩
    · exact ⟨⟨by simp, fun hclosed => absurd hclosed htells.2⟩, fun _ => ⟨rfl, htells.1⟩⟩

-- Polls come to what an inbox says, one after the other, and nothing else goes wrong.
def reply (inbox : List (Except TransportFault (Option Message))) :
    (demand : ServiceDemand) → List Exchanged → demand.Answer
  | .hub (.send _), _ => (.ok () : Except TransportFault Unit)
  | .hub (.expose _ _), past => (.ok ⟨UInt64.ofNat past.length⟩ : Except Fault Handle)
  | .hub (.conceal _), _ => ()
  | .hub (.isHeld _ _), _ => false
  | .receive, past => inbox.getD (pollCount past) (.ok none)
  | .awaitWorker, _ => ()
  | .clock, _ => (0 : UInt64)
  | .writeFile _ _, _ | .renameFile _ _, _ => (.ok () : Except FileFault Unit)

-- What the worker is answered where it need not wait.
def serve (inbox : List (Except TransportFault (Option Message))) :
    (demand : WorkerDemand) → List Message × List Exchanged →
      demand.Answer × List Message × List Exchanged
  | .hub demand, (queue, past) =>
    (reply inbox (.hub demand) past, queue,
      past ++ [⟨.hub demand, reply inbox (.hub demand) past⟩])
  | .next, (queue, past) => (queue.head?, queue.tail, past)

def awaitsWorker {α : Type} : ServiceProcess α → Bool
  | .ask .awaitWorker _ => true
  | _ => false

def awaitsNext {α : Type} : WorkerProcess α → Bool
  | .ask .next _ => true
  | _ => false

namespace Duty

inductive Turn where
  | stop
  | receive
  | work

def receive? (inbox : List (Except TransportFault (Option Message))) (duty : Duty) :
    Option Duty :=
  if awaitsWorker duty.receiver && !duty.worker.isDone then none
  else
    (duty.receiver.move? (fun demand past => (reply inbox demand past,
      past ++ [⟨demand, reply inbox demand past⟩])) duty.service duty.past).map
        fun (receiver, service, past) => { duty with service, past, receiver }

def work? (inbox : List (Except TransportFault (Option Message))) (duty : Duty) : Option Duty :=
  if awaitsNext duty.worker && duty.service.queue.isEmpty && duty.service.queueOpen then none
  else
    (duty.worker.move? (serve inbox) duty.service.hub (duty.service.queue, duty.past)).map
      fun (worker, hub, queue, past) =>
        { duty with service := { duty.service with hub, queue }, past, worker }

-- What becomes of a duty by a turn; one that cannot be taken is passed over.
def turn (inbox : List (Except TransportFault (Option Message))) (duty : Duty) : Turn → Duty
  | .stop => { duty with service.running := false }
  | .receive => (duty.receive? inbox).getD duty
  | .work => (duty.work? inbox).getD duty

section Turns

variable {inbox : List (Except TransportFault (Option Message))} {duty next : Duty}

theorem eq_done_of_isDone {p : WorkerProcess Unit} (h : p.isDone = true) : p = .done () := by
  obtain ⟨⟨⟩, rfl⟩ := returned_of_isDone h
  rfl

theorem step_of_receive? (h : duty.receive? inbox = some next) : Step duty next := by
  unfold receive? at h
  split at h
  · cases h
  rename_i hfree
  obtain ⟨⟨receiver', service', past'⟩, hmove, rfl⟩ := Option.map_eq_some_iff.mp h
  refine .receive ?_
  generalize hreceiver : duty.receiver = receiver at hmove hfree
  cases receiver with
  | done result => cases hmove
  | step change next =>
    cases hmove
    exact .step
  | note event next =>
    cases hmove
    exact .note
  | ask demand next =>
    cases hmove
    refine .ask ⟨rfl, ?_⟩
    rintro rfl
    exact eq_done_of_isDone (by simpa [awaitsWorker] using hfree)

theorem step_of_work? (h : duty.work? inbox = some next) : Step duty next := by
  unfold work? at h
  split at h
  · cases h
  rename_i hfree
  obtain ⟨⟨worker', hub', queue', past'⟩, hmove, rfl⟩ := Option.map_eq_some_iff.mp h
  refine .work ?_
  generalize hworker : duty.worker = worker at hmove hfree
  cases worker with
  | done result => cases hmove
  | step change next =>
    cases hmove
    exact .step
  | note event next =>
    cases hmove
    exact .note
  | ask demand next =>
    cases demand with
    | hub demand =>
      cases hmove
      exact .ask .hub
    | next =>
      generalize duty.service.queue = queue at hmove hfree ⊢
      cases queue with
      | nil =>
        cases hmove
        exact .ask (.noMore (by simpa [awaitsNext] using hfree))
      | cons m rest =>
        cases hmove
        exact .ask .next

theorem reaches_turn (inbox : List (Except TransportFault (Option Message))) (duty : Duty)
    (turn : Turn) : Relation.ReflTransGen Step duty (duty.turn inbox turn) := by
  cases turn with
  | stop => exact .single .stop
  | receive =>
    simp only [Duty.turn]
    cases hnext : duty.receive? inbox with
    | none => exact .refl
    | some next => exact .single (step_of_receive? hnext)
  | work =>
    simp only [Duty.turn]
    cases hnext : duty.work? inbox with
    | none => exact .refl
    | some next => exact .single (step_of_work? hnext)

theorem reaches_turns (inbox : List (Except TransportFault (Option Message))) (duty : Duty)
    (turns : List Turn) : Relation.ReflTransGen Step duty (turns.foldl (turn inbox) duty) := by
  induction turns generalizing duty with
  | nil => exact .refl
  | cons turn rest ih => exact (reaches_turn inbox duty turn).trans (ih _)

end Turns

end Duty

-- A chip comes, a reply nobody waits for, noise, a message that is nobody's, and word that the chip
-- goes; then the transport closes.
def lastWords : List (Except TransportFault (Option Message)) :=
  [.ok (some (.init 5 1 "relay" ["coil"])), .ok (some (.getValueReply 5 0 0 (some 1))),
    .error (.io "noise"), .ok (some (.getValue 5 0)), .ok (some (.deinit 5)), .error .closed]

def lastStart : Duty := .start { hub := {}, reporter := default, pollInterval := 1 } 9

-- Receiving ends while the worker is still busy with the first control message.
def lastTurns : List Duty.Turn :=
  List.flatten [.work :: List.replicate 20 .receive, List.replicate 7 .work,
    List.replicate 60 .receive, List.replicate 80 .work, List.replicate 9 .receive]

def lastDuty : Duty := lastTurns.foldl (Duty.turn lastWords) lastStart

-- The chip is withdrawn all the same.
theorem lossless_of_run_lastWords :
    ∃ last : Duty, Relation.ReflTransGen Duty.Step
        (.start { hub := {}, reporter := default, pollInterval := 1 } 9) last ∧
      last.receiver = .done (.error .closed) ∧ (last.worker = .done () ∧ last.service.queue = []) ∧
      Closed last.past ∧
      Relation.ReflTransGen
        (Pool.Step (Hub.hubRules [.getValueReply 5 0 0 (some 1)]
          [.init 5 1 "relay" ["coil"], .deinit 5])) ⟨{}, [], []⟩
        ⟨last.service.hub, hubPast last.past, [(.receiver, .done ()), (.worker, .done ())]⟩ ∧
      Hub.sent (hubPast last.past) = [.initAck 5 0, .deinitAck 5 0 .current] ∧
      last.service.hub.counters.dropped = 1 ∧ last.service.hub.liveCount = 0 := by
  have hrun := Duty.reaches_turns lastWords lastStart lastTurns
  have hdone : lastDuty.receiver.isDone = true := by decide +kernel
  have hrunning : lastDuty.service.running = true ∧ pollCount lastDuty.past = 6 := by decide +kernel
  have hreplies : (received lastDuty.past).filter (·.isLineReply) =
      [.getValueReply 5 0 0 (some 1)] := by decide +kernel
  have hcontrols : (received lastDuty.past).filter (·.isControl) =
      [.init 5 1 "relay" ["coil"], .deinit 5] := by decide +kernel
  have hsent : Hub.sent (hubPast lastDuty.past) = [.initAck 5 0, .deinitAck 5 0 .current] := by
    decide +kernel
  have hends : lastDuty.service.hub.counters.dropped = 1 ∧
      lastDuty.service.hub.liveCount = 0 := by decide +kernel
  change Relation.ReflTransGen Duty.Step _ lastDuty at hrun
  generalize lastDuty = last at hrun hdone hrunning hreplies hcontrols hsent hends
  obtain ⟨result, hresult⟩ := returned_of_isDone hdone
  obtain ⟨hidle, hpool, -, hclosed, hother⟩ := lossless_of_run hrun hresult
  obtain rfl : result = .error .closed := by
    by_contra hne
    obtain hstopped | hpolls := (hother hne).2
    · cases hrunning.1.symm.trans hstopped
    · cases hrunning.2.symm.trans hpolls
  rw [hreplies, hcontrols] at hpool
  exact ⟨last, hrun, hresult, hidle, hclosed.mp rfl, hpool, hsent, hends⟩

end GpioBridge.Service
