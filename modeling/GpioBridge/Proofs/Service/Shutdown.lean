import GpioBridge.Proofs.Core.Sequence
import GpioBridge.Proofs.Service.Upkeep

namespace GpioBridge.Service

open Process
open Hub (Dealing Cleared)

-- Surroundings that keep a record of how they answer the hub of a service, and that do nothing to
-- the service but bring it replies.
structure Records {τ : Type}
    (around : Surroundings Service τ ServiceDemand ServiceDemand.Answer)
    (past : τ → List Dealing) : Prop where
  hub : ∀ demand service t, past (around.answer (.hub demand) service t).2.2 =
    past t ++ [⟨demand, (around.answer (.hub demand) service t).1⟩]
  other : ∀ demand service t, (∀ d, demand ≠ .hub d) →
    past (around.answer demand service t).2.2 = past t
  hear : ∀ event t, past (around.hear event t) = past t
  replies : ∀ demand service t, ∃ messages, (around.answer demand service t).2.1 =
    { service with hub := Hub.deliverAll messages service.hub }

-- What the surroundings of a service are for its hub.
def inner {τ : Type} (around : Surroundings Service τ ServiceDemand ServiceDemand.Answer)
    (service : Service) : Surroundings Hub τ Demand Demand.Answer :=
  around.within hub (fun hub service => { service with hub }) .hub (fun _ answer => answer) service

section Run

variable {τ α : Type} {around : Surroundings Service τ ServiceDemand ServiceDemand.Answer}
  {past : τ → List Dealing} {service : Service} {t : τ}

theorem Records.inner (h : Records around past) (service : Service) :
    Hub.Records (inner around service) past where
  answer demand hub t := h.hub demand { service with hub } t
  hear := h.hear
  replies demand hub t := by
    obtain ⟨messages, hreplies⟩ := h.replies (.hub demand) { service with hub } t
    exact ⟨messages, congrArg Service.hub hreplies⟩

theorem run_onHub (h : Records around past) (p : HubProcess α) (service : Service) (t : τ) :
    (onHub p).run around service t =
      ((p.run (Service.inner around service) service.hub t).1,
        { service with hub := (p.run (Service.inner around service) service.hub t).2.1 },
        (p.run (Service.inner around service) service.hub t).2.2) := by
  refine run_lift (fun _ => rfl) (fun _ _ => rfl) (fun demand hub t => ?_) p service.hub t
  obtain ⟨messages, hreplies⟩ := h.replies (.hub demand) { service with hub } t
  exact ⟨_, hreplies⟩

-- What is about reports alone is no business of the hub.
theorem Clerical.run (h : Records around past) {p : ServiceProcess α} (hp : Clerical p)
    (service : Service) (t : τ) :
    past (p.run around service t).2.2 = past t ∧
      (p.run around service t).2.1.hub.outline = service.hub.outline ∧
        (p.run around service t).2.1.stopped = service.stopped := by
  induction p generalizing service t with
  | done => exact ⟨rfl, rfl, rfl⟩
  | step change next ih =>
    obtain ⟨reporter, hchange⟩ := hp.1 service
    have hnext := ih service (hp.2 service) (change service) t
    rw [hchange] at hnext
    rw [Process.run, hchange]
    exact hnext
  | note event next ih =>
    obtain ⟨hpast, hrest⟩ := ih hp service (around.hear event t)
    exact ⟨hpast.trans (h.hear event t), hrest⟩
  | ask demand next ih =>
    obtain ⟨messages, hreplies⟩ := h.replies demand service t
    obtain ⟨hpast, houtline, hstopped⟩ := ih (around.answer demand service t).1 (hp.2 _)
      (around.answer demand service t).2.1 (around.answer demand service t).2.2
    have hsame : (around.answer demand service t).2.1.hub.outline = service.hub.outline := by
      rw [hreplies]
      exact Hub.outline_deliverAll messages service.hub
    have hkept : (around.answer demand service t).2.1.stopped = service.stopped := by
      rw [hreplies]
    refine ⟨hpast.trans (h.other demand service t ?_), houtline.trans hsame, hstopped.trans hkept⟩
    rintro d rfl
    exact absurd hp.1 Bool.false_ne_true

theorem run_sendBestEffort {around : Surroundings Hub τ Demand Demand.Answer}
    (h : Hub.Records around past) (m : Message) (hub : Hub) (t : τ) :
    ∃ answer hub' t', (Hub.sendBestEffort m).run around hub t = ((), hub', t') ∧
      hub'.outline = hub.outline ∧ past t' = past t ++ [⟨.send m, answer⟩] := by
  obtain ⟨messages, hreplies⟩ := h.replies (.send m) hub t
  obtain ⟨answer, hub', t', hsend⟩ : ∃ (answer : Except TransportFault Unit) (hub' : Hub) (t' : τ),
      (HubProcess.send m).run around hub t = (answer, hub', t') := ⟨_, _, _, rfl⟩
  have houtline : hub'.outline = hub.outline := by
    have hhub := congrArg (fun x => x.2.1.outline) hsend
    exact hhub.symm.trans
      ((congrArg Hub.outline hreplies).trans (Hub.outline_deliverAll messages hub))
  have hanswer : past t' = past t ++ [⟨.send m, answer⟩] := by
    have hrecorded := h.answer (.send m) hub t
    change past ((HubProcess.send m).run around hub t).2.2 =
      past t ++ [⟨.send m, ((HubProcess.send m).run around hub t).1⟩] at hrecorded
    rwa [hsend] at hrecorded
  simp only [Hub.sendBestEffort, bind_eq, run_bind, hsend]
  rcases answer with fault | done
  · cases fault
    all_goals exact ⟨_, _, _, rfl, houtline, (h.hear _ _).trans hanswer⟩
  · exact ⟨_, _, _, rfl, houtline, hanswer⟩

-- The first shutdown says goodbye and then tears everything down.
theorem run_shutdown (h : Records around past) (hstopped : service.stopped = false)
    (he : Hub.Even .plain service.hub (past t)) :
    Cleared (shutdown.run around service t).2.1.hub (past (shutdown.run around service t).2.2) ∧
      (shutdown.run around service t).2.1.stopped = true ∧
      ∃ answer, ∃ given : List Handle, past (shutdown.run around service t).2.2 =
        past t ++ ⟨.send .goodbye, answer⟩ :: given.map fun handle => ⟨.conceal handle, ()⟩ := by
  let ending : Service := { service with running := false, stopped := true }
  let t₁ := around.hear ⟨.info, .service, "Shutdown requested", []⟩ t
  obtain ⟨answer, hub₁, t₂, hsend, houtline, hsent⟩ :=
    run_sendBestEffort (h.inner ending) .goodbye service.hub t₁
  have hgoodbye : (onHub (Hub.sendBestEffort .goodbye)).run around ending t₁ =
      ((), { ending with hub := hub₁ }, t₂) := by
    rw [run_onHub h]
    exact congrArg (fun x => (x.1, { ending with hub := x.2.1 }, x.2.2)) hsend
  have heven : Hub.Even .plain hub₁ (past t₂) := by
    rw [hsent, h.hear]
    exact (Hub.even_of_asks .send he).of_outline houtline
  obtain ⟨-, hcleared, given, hgiven⟩ :=
    Hub.cleared_of_teardown (h.inner { ending with hub := hub₁ }) heven
  have hteardown := run_onHub h Hub.teardown { ending with hub := hub₁ } t₂
  generalize Hub.teardown.run (Service.inner around { ending with hub := hub₁ }) hub₁ t₂ = torn
    at hcleared hgiven hteardown
  obtain ⟨count, hub₂, t₃⟩ := torn
  have hpublished := (clerical_tolerate clerical_publish).run h
    (setPhase .stopped { ending with hub := hub₂ })
  have hrun : ∃ t₄, past t₄ = past t₃ ∧ shutdown.run around service t =
      (tolerate publish).run around (setPhase .stopped { ending with hub := hub₂ }) t₄ := by
    refine ⟨_, h.hear ⟨.info, .service, s!"Shutdown complete ({count} chip(s) torn down)", []⟩ t₃, ?_⟩
    simp only [shutdown, say, bind_eq, pure_eq, update_bind, log_bind, modify_bind, Process.run,
      beginShutdown, hstopped, Bool.false_eq_true, if_false, if_true]
    rw [run_bind, hgoodbye, run_bind, hteardown]
    rfl
  obtain ⟨t₄, hpast, hrun⟩ := hrun
  obtain ⟨hquiet, hkept, hended⟩ := hpublished t₄
  rw [hrun]
  have hwhole : past ((tolerate publish).run around
      (setPhase .stopped { ending with hub := hub₂ }) t₄).2.2 = past t₃ := hquiet.trans hpast
  refine ⟨?_, hended, answer, given, ?_⟩
  · rw [hwhole]
    exact hcleared.of_outline hkept
  · rw [hwhole, hgiven, hsent, h.hear, List.append_assoc]
    rfl

-- Only the first shutdown does anything.
theorem shutdown_of_stopped (around : Surroundings Service τ ServiceDemand ServiceDemand.Answer)
    (hstopped : service.stopped = true) (t : τ) : shutdown.run around service t = ((), service, t) := by
  simp [shutdown, Process.run, beginShutdown, hstopped]

end Run

section Stopped

variable {α : Type}

theorem maintains_onHub (p : HubProcess α) : (onHub p).Maintains fun service => service.stopped = true := by
  induction p with
  | done => trivial
  | step change next ih => exact maintains_step (fun _ h => h) fun service => ih service.hub
  | note event next ih => exact ih
  | ask demand next ih => exact maintains_ask ih

theorem Clerical.maintains {p : ServiceProcess α} (hp : Clerical p) :
    p.Maintains fun service => service.stopped = true := by
  induction p with
  | done => trivial
  | step change next ih =>
    refine maintains_step (fun service hstopped => ?_) fun service => ih service (hp.2 service)
    obtain ⟨reporter, hchange⟩ := hp.1 service
    rw [hchange]
    exact hstopped
  | note event next ih => exact ih hp
  | ask demand next ih => exact maintains_ask fun answer => ih answer (hp.2 answer)

theorem maintains_route (m : Message) : (route m).Maintains fun service => service.stopped = true := by
  unfold route
  split
  · exact (maintains_onHub _).bind fun _ => trivial
  split
  · exact maintains_step (fun _ h => h) fun _ => trivial
  · trivial

theorem maintains_receiving (polls : Nat) :
    (receiving polls).Maintains fun service => service.stopped = true := by
  induction polls with
  | zero => trivial
  | succ polls ih =>
    have hagain : ((tolerate refresh).bind fun _ => receiving polls).Maintains fun service =>
        service.stopped = true :=
      (clerical_tolerate clerical_refresh).maintains.bind fun _ => ih
    simp only [receiving, say, bind_eq, pure_eq, get_bind, ask_bind, done_bind, log_bind]
    refine maintains_get fun service => ?_
    split
    · trivial
    refine maintains_ask fun (received : Except TransportFault (Option Message)) => ?_
    rcases received with fault | _ | m
    · cases fault
      case closed => trivial
      all_goals exact hagain
    · exact hagain
    · exact (maintains_route m).bind fun _ => hagain

theorem maintains_run (polls : Nat) : (run polls).Maintains fun service => service.stopped = true := by
  have hbegin : begin.Maintains fun service => service.stopped = true := by
    simp only [begin, say, bind_eq, get_bind, log_bind, modify_bind]
    exact maintains_get fun _ =>
      maintains_step (fun _ h => h) fun _ => (clerical_tolerate clerical_publish).maintains
  have hfinish : finish.Maintains fun service => service.stopped = true := by
    simp only [finish, say, bind_eq, get_bind, modify_bind]
    exact maintains_step (fun _ h => h) fun _ => maintains_ask fun _ => maintains_get fun _ => trivial
  refine maintains_step (fun _ h => h) fun _ => ?_
  exact hbegin.bind fun _ => (maintains_receiving polls).bind fun _ => hfinish.bind fun _ => trivial

end Stopped

-- What may be done with a service that has ended: it can be asked for anything, it can be told to
-- receive and to end, and consumers go on.
inductive Later {τ : Type} (around : Surroundings Service τ ServiceDemand ServiceDemand.Answer) :
    Service × τ → Service × τ → Prop where
  | operation (operation : Hub.Operation) {service t} :
      Later around (service, t) ((onHub operation.process).run around service t).2
  | receiving (polls : Nat) {service t} : Later around (service, t) ((run polls).run around service t).2
  | shutdown {service t} : Later around (service, t) (shutdown.run around service t).2
  | meanwhile {service t t'} : Later around (service, t) (service, t')

variable {τ : Type} {around : Surroundings Service τ ServiceDemand ServiceDemand.Answer}
  {past : τ → List Dealing} {hubAround : Surroundings Hub τ Demand Demand.Answer}
  {limit : Option Nat} {patience : UInt64} {hub : Hub} {first t : τ}

theorem stopped_of_later (h : Records around past) {x y : Service × τ}
    (hlater : Relation.ReflTransGen (Later around) x y) (hstopped : x.1.stopped = true) :
    y.1.stopped = true := by
  have hkeeps : ∀ demand service t, service.stopped = true →
      (around.answer demand service t).2.1.stopped = true := by
    intro demand service t hstopped
    obtain ⟨messages, hreplies⟩ := h.replies demand service t
    rw [hreplies]
    exact hstopped
  induction hlater with
  | refl => exact hstopped
  | tail _ hstep ih =>
    cases hstep with
    | operation operation => exact (maintains_onHub operation.process).run hkeeps ih _
    | receiving polls => exact (maintains_run polls).run hkeeps ih _
    | shutdown =>
      rw [shutdown_of_stopped around ih]
      exact ih
    | meanwhile => exact ih

-- After any operations, a teardown says how many chips were mapped and leaves nothing that was not
-- given back. The first shutdown sends one goodbye, whatever becomes of it, and then does the same;
-- no later one does anything. And where chips are exposed in a line table, none is afterwards.
theorem cleared_of_shutdown (hhub : Hub.Records hubAround past) (hservice : Records around past)
    (hfirst : past first = [])
    (hrun : Relation.ReflTransGen (Hub.Proceeds hubAround past) ({ limit, patience }, first) (hub, t)) :
    (∃ hub' t', Hub.teardown.run hubAround hub t = (hub.registry.size, hub', t') ∧
      Cleared hub' (past t')) ∧
    (∀ service : Service, service.hub = hub → service.stopped = false →
      ∃ service' t', shutdown.run around service t = ((), service', t') ∧
        Cleared service'.hub (past t') ∧
        (∃ answer, ∃ given : List Handle, past t' = past t ++
          ⟨.send (.exit broadcastUid "vgpio core is no longer running"), answer⟩ ::
            given.map fun handle => ⟨.conceal handle, ()⟩) ∧
        ∀ later, Relation.ReflTransGen (Later around) (service', t') later →
          shutdown.run around later.1 later.2 = ((), later)) ∧
    ∀ {ρ : Type} (coreAround : Surroundings Core ρ Message fun _ => Except TransportFault Unit),
      Core.OnlyReplies coreAround → ∀ (operations : List Core.Operation) (start : ρ) core r,
        (Core.perform coreAround operations { hub := { limit, patience } } start).2 = (core, r) →
        ∀ torn, ((Core.Operation.hub .teardown).process.run coreAround core r).2.1 = torn →
          torn.hub.chips.length < 2 ^ 64 → torn.table.chips = [] := by
  have heven : Hub.Even .plain hub (past t) := by
    refine Hub.even_of_proceeds hhub hrun ?_
    rw [hfirst]
    exact Hub.even_empty limit patience
  refine ⟨?_, ?_, ?_⟩
  · obtain ⟨hcount, hcleared, -⟩ := Hub.cleared_of_teardown hhub heven
    exact ⟨_, _, Prod.ext hcount rfl, hcleared⟩
  · rintro service rfl hstopped
    obtain ⟨hcleared, hended, hgoodbye⟩ := run_shutdown hservice hstopped heven
    refine ⟨_, _, rfl, hcleared, hgoodbye, fun later hlater => ?_⟩
    exact shutdown_of_stopped around (stopped_of_later hservice hlater hended) later.2
  · rintro ρ coreAround hreplies operations start core r hperform torn rfl hb
    have hempty : Core.InLine 0 .plain { hub := { limit, patience } } :=
      ⟨Nat.zero_le _, fun _ => Core.aligned_empty limit patience⟩
    have hline := Core.inLine_of_perform (t := start) hreplies operations hempty
    rw [hperform] at hline
    exact Core.unexposed_of_teardown hreplies hline hb

-- Nobody listens, one chip is refused, and every other is exposed under a handle of its own.
def picky (past : List Dealing) : (demand : Demand) → demand.Answer
  | .send _ => (.error .noSubscribers : Except TransportFault Unit)
  | .expose descriptor _ =>
    if descriptor.uid = 9 then (.error .busy : Except Fault Handle)
    else (.ok ⟨UInt64.ofNat past.length⟩ : Except Fault Handle)
  | .conceal _ => ()
  | .isHeld _ _ => false

def pickyHub : Surroundings Hub (List Dealing) Demand Demand.Answer where
  answer demand hub past := (picky past demand, hub, past ++ [⟨demand, picky past demand⟩])
  hear _ past := past

def pickyService : Surroundings Service (List Dealing) ServiceDemand ServiceDemand.Answer where
  answer demand service past :=
    match demand with
    | .hub demand => (picky past demand, service, past ++ [⟨demand, picky past demand⟩])
    | .receive => ((.ok none : Except TransportFault (Option Message)), service, past)
    | .awaitWorker => ((), service, past)
    | .clock => ((0 : UInt64), service, past)
    | .writeFile _ _ | .renameFile _ _ => ((.ok () : Except FileFault Unit), service, past)
  hear _ past := past

-- What is left after these operations.
def pickyRun (operations : List Hub.Operation) : Hub × List Dealing :=
  operations.foldl (fun x operation => (operation.process.run pickyHub x.1 x.2).2) ({}, [])

theorem proceeds_pickyRun (operations : List Hub.Operation) :
    Relation.ReflTransGen (Hub.Proceeds pickyHub id) ({}, [])
      ((pickyRun operations).1, (pickyRun operations).2) := by
  induction operations using List.reverseRecOn with
  | nil => exact .refl
  | append_singleton operations operation ih =>
    rw [pickyRun, List.foldl_concat]
    exact ih.tail (.operation operation)

-- One chip is taken back, one withdrawn and replaced, and two are left.
def fourChips : List Hub.Operation :=
  [.register ⟨5, "relay", 1, ["coil"]⟩, .register ⟨9, "", 1, ["lamp"]⟩, .withdraw 5,
    .register ⟨7, "", 1, ["fan"]⟩, .register ⟨5, "relay", 2, ["coil", "spare"]⟩]

-- A line is taken and not given back.
def heldRelay : Core :=
  (Core.perform Core.deaf [.hub (.register ⟨5, "relay", 1, ["coil"]⟩), .request 5 0 "valve"] {}
    ()).2.1

theorem cleared_of_shutdown_fourChips :
    ∃ hub past, Relation.ReflTransGen (Hub.Proceeds pickyHub id) ({}, []) (hub, past) ∧
      hub.chips.length = 4 ∧ (Hub.issued past).length = 3 ∧
      (∃ hub' past', Hub.teardown.run pickyHub hub past = (2, hub', past') ∧ Cleared hub' past') ∧
      (∃ service' past' answer, ∃ given : List Handle,
        shutdown.run pickyService { hub, reporter := default, pollInterval := 0 } past =
          ((), service', past') ∧
        Cleared service'.hub past' ∧ past' = past ++
          ⟨.send (.exit 0 "vgpio core is no longer running"), answer⟩ ::
            given.map (fun handle => ⟨.conceal handle, ()⟩) ∧
        shutdown.run pickyService service' past' = ((), service', past')) ∧
      heldRelay.table.holder? 5 0 = some "valve" ∧
      ((Core.Operation.hub .teardown).process.run Core.deaf heldRelay ()).2.1.table.chips = [] := by
  have hhub : Hub.Records pickyHub id := ⟨fun _ _ _ => rfl, fun _ _ => rfl, fun _ _ _ => ⟨[], rfl⟩⟩
  have hservice : Records pickyService id := by
    refine ⟨fun _ _ _ => rfl, fun demand service t hother => ?_, fun _ _ => rfl,
      fun demand service t => ⟨[], ?_⟩⟩
    · cases demand with
      | hub d => exact absurd rfl (hother d)
      | _ => rfl
    · cases demand <;> rfl
  have hrun := proceeds_pickyRun fourChips
  have hchips : (pickyRun fourChips).1.chips.length = 4 := by decide +kernel
  have hissued : (Hub.issued (pickyRun fourChips).2).length = 3 := by decide +kernel
  have hsize : (pickyRun fourChips).1.registry.size = 2 := by decide +kernel
  have hheld : heldRelay.table.holder? 5 0 = some "valve" := by decide +kernel
  have hroom : ((Core.Operation.hub .teardown).process.run Core.deaf heldRelay
      ()).2.1.hub.chips.length < 2 ^ 64 := by decide +kernel
  generalize (pickyRun fourChips).1 = hub at hrun hchips hsize
  generalize (pickyRun fourChips).2 = past at hrun hissued
  obtain ⟨htorn, hended, htable⟩ := cleared_of_shutdown hhub hservice rfl hrun
  rw [hsize] at htorn
  obtain ⟨service', past', hshutdown, hcleared, ⟨answer, given, hgoodbye⟩, hlater⟩ :=
    hended { hub, reporter := default, pollInterval := 0 } rfl rfl
  exact ⟨hub, past, hrun, hchips, hissued, htorn,
    ⟨service', past', answer, given, hshutdown, hcleared, hgoodbye, hlater _ .refl⟩, hheld,
    htable Core.deaf (fun _ _ _ => ⟨[], rfl⟩) _ () heldRelay () rfl _ rfl hroom⟩

end GpioBridge.Service
