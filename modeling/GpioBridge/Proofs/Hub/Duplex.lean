import GpioBridge.Hub.Control
import GpioBridge.Proofs.Hub.Balance
import GpioBridge.Simulation.Peer

namespace GpioBridge.Hub

open Process

-- Does something with each message, one after the other.
def each {α : Type} (f : Message → HubProcess α) : List Message → HubProcess Unit
  | [] => .done ()
  | m :: rest => (f m).bind fun _ => each f rest

-- The two calls that are made on the hub.
inductive Role where
  | receiver
  | worker

-- One of them delivers replies in turn, the other carries out control messages in turn.
def hubRules (replies controls : List Message) :
    Pool.Rules Hub (List Dealing) Demand Demand.Answer Role Unit where
  start
    | .receiver => each dispatch replies
    | .worker => each answerControl controls
  answers demand past answer past' := past' = past ++ [⟨demand, answer⟩]

-- What happened at the hub so far: the receiver has delivered these replies, and the worker has
-- begun with these control messages and has still to do this with the last one.
def HubRun (first : Hub) (replies controls : List Message) (left : HubProcess Unit) (hub : Hub)
    (past : List Dealing) : Prop :=
  ∀ later later', Relation.ReflTransGen
    (Pool.Step (hubRules (replies ++ later) (controls ++ later'))) ⟨first, [], []⟩
    ⟨hub, past, [(.receiver, each dispatch later),
      (.worker, left.bind fun _ => each answerControl later')]⟩

section HubRun

variable {first hub hub' : Hub} {replies controls : List Message} {left left' : HubProcess Unit}
  {past past' : List Dealing} {m : Message}

theorem hubRun_nil (first : Hub) : HubRun first [] [] (.done ()) first [] :=
  fun _ _ => (Relation.ReflTransGen.refl.tail (.call Role.receiver)).tail (.call Role.worker)

theorem HubRun.fetch (h : HubRun first replies controls (.done ()) hub past) (m : Message) :
    HubRun first replies (controls ++ [m]) (answerControl m) hub past := by
  intro later later'
  have hbefore := h later (m :: later')
  rwa [List.append_cons] at hbefore

theorem HubRun.move (h : HubRun first replies controls left hub past)
    (hmoves : left.Moves (hubRules [] []).answers hub past left' hub' past') :
    HubRun first replies controls left' hub' past' := by
  intro later later'
  refine (h later later').tail ?_
  change Pool.Step _ ⟨hub, past, [(Role.receiver, each dispatch later)] ++ (Role.worker, _) :: []⟩
    ⟨hub', past', [(Role.receiver, each dispatch later)] ++ (Role.worker, _) :: []⟩
  exact .move (hmoves.bind _) fun _ _ hwaits => hwaits

-- A reply is delivered, and then the log is told.
theorem exists_dispatch (m : Message) : ∃ rest : Hub → HubProcess Bool,
    dispatch m = .step (fun hub => (deliver m hub).2) rest ∧
      ∀ hub, ∃ event delivered, rest hub = .note event (.done delivered) := by
  simp only [dispatch, bind_eq, pure_eq, update_bind, log_bind]
  refine ⟨_, rfl, fun hub => ?_⟩
  split <;> exact ⟨_, _, rfl⟩

theorem HubRun.dispatch (h : HubRun first replies controls left hub past) (m : Message) :
    HubRun first (replies ++ [m]) controls left (deliver m hub).2 past := by
  intro later later'
  have hmove : ∀ {p p' : HubProcess Unit} {hub hub' call},
      p.Moves (hubRules [] []).answers hub past p' hub' past →
        Pool.Step (hubRules (replies ++ [m] ++ later) (controls ++ later'))
          ⟨hub, past, [(.receiver, p), call]⟩ ⟨hub', past, [(.receiver, p'), call]⟩ := by
    intro p p' hub hub' call hmoves
    change Pool.Step _ ⟨hub, past, [] ++ (Role.receiver, p) :: [call]⟩
      ⟨hub', past, [] ++ (Role.receiver, p') :: [call]⟩
    exact .move hmoves fun _ _ hwaits => hwaits
  have hbefore := h (m :: later) later'
  obtain ⟨rest, hrest, hended⟩ := exists_dispatch m
  obtain ⟨event, delivered, hended⟩ := hended hub
  rw [List.append_cons, each, hrest] at hbefore
  refine (hbefore.tail (hmove .step)).tail ?_
  rw [hended]
  exact hmove .note

end HubRun

-- What was sent, or was to be sent.
def sent (past : List Dealing) : List Message :=
  past.filterMap fun
    | ⟨.send m, _⟩ => some m
    | _ => none

-- The process sends nothing.
def Silent {α : Type} : HubProcess α → Prop
  | .done _ => True
  | .step _ next => ∀ hub, Silent (next hub)
  | .note _ next => Silent next
  | .ask demand next => (∀ m, demand ≠ .send m) ∧ ∀ answer, Silent (next answer)

-- The process sends one acknowledgement, of this message, or nothing if there is none.
inductive Owes : Option Message → HubProcess Unit → Prop where
  | done : Owes none (.done ())
  | note {owed event next} (h : Owes owed next) : Owes owed (.note event next)
  | step {owed change next} (h : ∀ hub, Owes owed (next hub)) : Owes owed (.step change next)
  | ask {owed demand next} (hsilent : ∀ m, demand ≠ .send m) (h : ∀ answer, Owes owed (next answer)) :
      Owes owed (.ask demand next)
  | send {m ack next} (hack : Peer.acknowledges ack m = true) (h : ∀ answer, Owes none (next answer)) :
      Owes (some m) (.ask (.send ack) next)

section Owes

variable {α : Type} {m ack : Message} {owed : Option Message}

theorem Silent.owes {p : HubProcess α} {f : α → HubProcess Unit} (hp : Silent p)
    (hf : ∀ a, Owes owed (f a)) : Owes owed (p.bind f) := by
  induction p with
  | done a => exact hf a
  | step change next ih => exact .step fun hub => ih hub (hp hub)
  | note event next ih => exact .note (ih hp)
  | ask demand next ih => exact .ask hp.1 fun answer => ih answer (hp.2 answer)

theorem silent_step {change : Hub → Hub} {next : Hub → HubProcess α}
    (h : ∀ hub, Silent (next hub)) : Silent (.step change next) := h

theorem silent_register (r : Registration) : Silent (register r) := by
  simp only [register, bind_eq, pure_eq, get_bind, update_bind, log_bind, modify_bind,
    HubProcess.expose_bind]
  split
  · trivial
  intro hub
  -- Whether an eviction is logged makes no difference.
  have hlogged : ∀ (evicted : Bool) (event : Event) (next : HubProcess (Except Fault ChipId)),
      Silent next → Silent (if evicted = true then .note event next else next) := by
    intro evicted event next hnext
    split <;> exact hnext
  refine hlogged _ _ _ ?_
  split
  · trivial
  refine fun hub => ⟨by simp, fun (answer : Except Fault Handle) => ?_⟩
  cases answer with
  | ok handle => exact fun _ => trivial
  | error fault => exact fun _ _ => trivial

theorem silent_firstHeld (handle : Handle) (pins : List UInt32) :
    Silent (firstHeld handle pins) := by
  induction pins with
  | nil => trivial
  | cons pin rest ih =>
    refine ⟨by simp, fun (held : Bool) => ?_⟩
    cases held with
    | true => trivial
    | false => exact ih

theorem Silent.bind {β : Type} {p : HubProcess α} {f : α → HubProcess β} (hp : Silent p)
    (hf : ∀ a, Silent (f a)) : Silent (p.bind f) := by
  induction p with
  | done a => exact hf a
  | step change next ih => exact fun hub => ih hub (hp hub)
  | note event next ih => exact ih hp
  | ask demand next ih => exact ⟨hp.1, fun answer => ih answer (hp.2 answer)⟩

theorem silent_withdraw (uid : UInt64) : Silent (withdraw uid) := by
  simp only [withdraw, bind_eq, pure_eq, get_bind, update_bind, log_bind, modify_bind,
    HubProcess.conceal_bind]
  refine silent_step fun hub => ?_
  split
  · trivial
  refine silent_step fun hub => ?_
  split
  · trivial
  refine silent_step fun hub => ?_
  split
  · trivial
  · trivial
  refine (silent_firstHeld _ _).bind fun held => ?_
  cases held with
  | some pin => exact fun _ => trivial
  | none => exact ⟨by simp, fun _ _ => trivial⟩

theorem owes_sendBestEffort (h : Peer.acknowledges ack m = true) :
    Owes (some m) (sendBestEffort ack) := by
  refine .send h fun (answer : Except TransportFault Unit) => ?_
  rcases answer with fault | _
  · cases fault <;> exact .note .done
  · exact .done

-- A control message is acknowledged once it has been carried out.
theorem owes_answerControl (h : m.isControl = true) : Owes (some m) (answerControl m) := by
  cases m with
  | init uid lineCount label names =>
    refine (silent_register _).owes fun result => ?_
    have hack : Owes (some (.init uid lineCount label names))
        (sendBestEffort (.initAck uid (ackStatus result))) :=
      owes_sendBestEffort (beq_self_eq_true uid)
    cases result with
    | ok id => exact hack
    | error fault => exact .note hack
  | deinit uid =>
    refine (silent_withdraw uid).owes fun result => ?_
    have hack : Owes (some (.deinit uid))
        (sendBestEffort (.deinitAck uid (ackStatus result) .current)) :=
      owes_sendBestEffort (beq_self_eq_true uid)
    cases result with
    | ok => exact hack
    | error fault => exact .note hack
  | _ => cases h

end Owes

-- Every control message that was begun with has been acknowledged, but the last one may still have
-- to be.
def Acked (controls : List Message) (left : HubProcess Unit) (past : List Dealing) : Prop :=
  ∃ answered owed, controls = answered ++ Option.toList owed ∧ Owes owed left ∧
    List.Forall₂ (fun m ack => Peer.acknowledges ack m = true) answered (sent past)

section Acked

variable {controls : List Message} {left left' : HubProcess Unit} {past past' : List Dealing}
  {hub hub' : Hub} {m : Message}

theorem acked_nil : Acked [] (.done ()) [] := ⟨[], none, rfl, .done, .nil⟩

theorem Acked.forall₂ (h : Acked controls (.done ()) past) :
    List.Forall₂ (fun m ack => Peer.acknowledges ack m = true) controls (sent past) := by
  obtain ⟨answered, owed, rfl, howes, hacks⟩ := h
  cases howes
  rwa [Option.toList_none, List.append_nil]

theorem Acked.fetch (h : Acked controls (.done ()) past) (hm : m.isControl = true) :
    Acked (controls ++ [m]) (answerControl m) past :=
  ⟨controls, some m, rfl, owes_answerControl hm, h.forall₂⟩

theorem sent_concat (past : List Dealing) (dealing : Dealing) :
    sent (past ++ [dealing]) = sent past ++ sent [dealing] :=
  List.filterMap_append

theorem Acked.move (h : Acked controls left past)
    (hmoves : left.Moves (hubRules [] []).answers hub past left' hub' past') :
    Acked controls left' past' := by
  obtain ⟨answered, owed, rfl, howes, hacks⟩ := h
  cases hmoves with
  | step =>
    cases howes with
    | step howes => exact ⟨answered, owed, rfl, howes _, hacks⟩
  | note =>
    cases howes with
    | note howes => exact ⟨answered, owed, rfl, howes, hacks⟩
  | @ask demand _ _ _ answer _ hanswer =>
    obtain rfl := hanswer
    cases howes with
    | ask hsilent howes =>
      refine ⟨answered, owed, rfl, howes answer, ?_⟩
      rw [sent_concat]
      cases demand with
      | send m => exact absurd rfl (hsilent m)
      | _ => simpa [sent] using hacks
    | send hack howes =>
      refine ⟨_, none, (List.append_nil _).symm, howes answer, ?_⟩
      rw [sent_concat]
      exact List.rel_append hacks (.cons hack .nil)

end Acked

end GpioBridge.Hub
