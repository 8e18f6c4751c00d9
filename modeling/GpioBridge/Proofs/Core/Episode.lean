import GpioBridge.Proofs.Core.Acknowledgement
import GpioBridge.Proofs.Core.Sequence
import GpioBridge.Proofs.Hub.Duplex
import GpioBridge.Proofs.Hub.Limit
import GpioBridge.Proofs.Hub.View
import GpioBridge.Proofs.LineTable.Operation
import GpioBridge.Proofs.Process.Twins

namespace GpioBridge

def messagesFor (uid : UInt64) (messages : List Message) : List Message :=
  messages.filter (·.uid == uid)

-- How the sending of a message ends, and what comes in until then.
structure Transfer where
  sent : Except TransportFault Unit
  meanwhile : List Message := []

namespace Transfer

def only (uid : UInt64) (transfer : Transfer) : Transfer :=
  { transfer with meanwhile := messagesFor uid transfer.meanwhile }

-- All that comes in.
def messages (transfers : List Transfer) : List Message := transfers.flatMap (·.meanwhile)

theorem messages_only (uid : UInt64) (transfers : List Transfer) :
    messages (transfers.map (·.only uid)) = messagesFor uid (messages transfers) := by
  simp [messages, only, messagesFor, List.flatMap_map, List.filter_flatMap]

end Transfer

namespace Core

open Process

-- What something that was done about a uid, or a reply for it, came to.
abbrev Told := UInt64 × Outcome

-- The transfers that are still to come, and what became of the replies that have come in.
structure Script where
  left : List Transfer
  heard : List Told := []

-- Delivers replies one after the other and gives what became of each.
def hearAll : List Message → Hub → List Told × Hub
  | [], hub => ([], hub)
  | m :: rest, hub =>
    let (later, last) := hearAll rest (Hub.deliver m hub).2
    ((m.uid, .hub (.delivered (Hub.deliver m hub).1.isOk)) :: later, last)

-- A transport that follows a script; after its end nobody listens.
def scripted : Surroundings Core Script Message fun _ => Except TransportFault Unit where
  answer _ core script :=
    match script.left with
    | [] => (.error .noSubscribers, core, script)
    | transfer :: left =>
      (transfer.sent, { core with hub := (hearAll transfer.meanwhile core.hub).2 },
        ⟨left, script.heard ++ (hearAll transfer.meanwhile core.hub).1⟩)
  hear _ script := script

inductive Deed where
  | register (r : Registration)
  | withdraw (uid : UInt64)
  | request (uid : UInt64) (pin : UInt32) (consumer : String)
  | release (uid : UInt64) (pin : UInt32)
  -- A consumer does something with a line of the chip that is called so among those made for the
  -- uid.
  | use (uid : UInt64) (name : ChipId) (pin : UInt32) (action : Action)
  | dispatch (m : Message)

namespace Deed

def uid : Deed → UInt64
  | register r => r.uid
  | withdraw uid | request uid _ _ | release uid _ | use uid _ _ _ => uid
  | dispatch m => m.uid

-- A chip that was never made cannot be used.
def operation? (hub : Hub) : Deed → Option Operation
  | register r => some (.hub (.register r))
  | withdraw uid => some (.hub (.withdraw uid))
  | request uid pin consumer => some (.request uid pin consumer)
  | release uid pin => some (.release uid pin)
  | use uid name pin action => (hub.named? uid name).map fun id => .hub (action.operation id pin)
  | dispatch m => some (.hub (.dispatch m))

end Deed

-- An outcome in which chips are called so.
def Outcome.called (call : ChipId → ChipId) : Outcome → Outcome
  | .hub (.chip result) => .hub (.chip (result.map call))
  | .requested result => .requested (result.map call)
  | outcome => outcome

-- Something that is done, and the transfers of the messages it sends.
structure Episode where
  deed : Deed
  transfers : List Transfer := []

namespace Episode

-- What is done, and which transfers are left then.
def act (episode : Episode) (core : Core) : List Told × Core × List Transfer :=
  match episode.deed.operation? core.hub with
  | none => ([], core, episode.transfers)
  | some operation =>
    let (outcome, last, script) := operation.process.run scripted core ⟨episode.transfers, []⟩
    (script.heard ++ [(episode.deed.uid, outcome.called (last.hub.rank episode.deed.uid))], last,
      script.left)

-- What would have come in with the transfers that are left comes in afterwards.
def play (episode : Episode) (core : Core) : List Told × Core :=
  let (told, last, left) := episode.act core
  let (heard, hub) := hearAll (Transfer.messages left) last.hub
  (told ++ heard, { last with hub })

end Episode

def course : List Episode → Core → List Told × Core
  | [], core => ([], core)
  | episode :: rest, core =>
    let (told, next) := episode.play core
    let (later, last) := course rest next
    (told ++ later, last)

-- What is about the uid.
def toldOf (uid : UInt64) (told : List Told) : List Told := told.filter (·.1 == uid)

-- What an episode is to the uid: what is done about it, or else the replies that come in for it.
def Episode.only (uid : UInt64) (episode : Episode) : List Episode :=
  if episode.deed.uid = uid then [⟨episode.deed, episode.transfers.map (·.only uid)⟩]
  else (messagesFor uid (Transfer.messages episode.transfers)).map fun m => ⟨.dispatch m, []⟩

def asked (uid : UInt64) (episodes : List Episode) : List Episode := episodes.flatMap (·.only uid)

section Hear

variable {core : Core} {hub : Hub}

theorem hearAll_append (messages later : List Message) (hub : Hub) :
    hearAll (messages ++ later) hub =
      ((hearAll messages hub).1 ++ (hearAll later (hearAll messages hub).2).1,
        (hearAll later (hearAll messages hub).2).2) := by
  induction messages generalizing hub with
  | nil => rfl
  | cons m rest ih => simp [hearAll, ih]

theorem hearAll_hub (messages : List Message) (hub : Hub) :
    (hearAll messages hub).2 = Hub.deliverAll messages hub := by
  induction messages generalizing hub with
  | nil => rfl
  | cons m rest ih => exact ih _

theorem onlyReplies_scripted : OnlyReplies scripted := by
  rintro m core ⟨_ | ⟨transfer, left⟩, heard⟩
  · exact ⟨[], rfl⟩
  · exact ⟨transfer.meanwhile, by rw [← hearAll_hub]; rfl⟩

theorem alike_hearAll (messages : List Message) (core : Core) :
    Alike core { core with hub := (hearAll messages core.hub).2 } := by
  rw [hearAll_hub]
  exact alike_deliverAll messages core

end Hear

section Run

variable {α : Type} {core last : Core}

theorem alone_serve {demand : Demand} (h : ∀ m, demand ≠ .send m) : (serve demand).Alone := by
  cases demand with
  | send m => exact absurd rfl (h m)
  | expose descriptor id =>
    simp only [serve, onTable, LineTable.expose, bind_eq, pure_eq, update_bind, log_bind,
      Process.serve]
    refine alone_step fun core => ?_
    cases (core.table.add descriptor id).1 with
    | error fault => exact .done rfl
    | ok handle => exact .note (.done rfl)
  | conceal handle =>
    simp only [serve, onTable, LineTable.conceal, bind_eq, pure_eq, update_bind, Process.serve]
    refine alone_step fun core => ?_
    cases (core.table.remove handle).1 with
    | none => exact .done rfl
    | some descriptor => exact .note (.done rfl)
  | isHeld handle pin => exact alone_step fun _ => .done rfl

theorem alone_onHub {p : HubProcess α} (hp : Hub.Silent p) : (onHub p).Alone := by
  induction p with
  | done a => exact .done rfl
  | step change next ih => exact alone_step fun core => ih core.hub (hp core.hub)
  | note event next ih => exact .note (ih hp)
  | ask demand next ih =>
    refine (alone_serve hp.1).bind ?_
    rintro answer _ rfl
    exact ih answer (hp.2 answer)

-- What a process comes to that sends nothing does not depend on a script.
theorem run_of_silent {p : HubProcess α} {result : α} (hp : Hub.Silent p)
    (h : ∀ outcome sent, (onHub p).run (sending outcome) core sent = (result, last, sent))
    (script : Script) : (onHub p).run scripted core script = (result, last, script) := by
  rw [(alone_onHub hp).run (fun _ _ => rfl) (sending fun _ => .ok ()) core script [], h]

theorem run_delivery (m : Message) (core : Core) (script : Script) :
    (Operation.hub (.dispatch m)).process.run scripted core script =
      (.hub (.delivered (Hub.deliver m core.hub).1.isOk),
        { core with hub := (Hub.deliver m core.hub).2 }, script) := by
  obtain ⟨event, hrun⟩ := run_delivered scripted m core script
  exact hrun

theorem run_hub (operation : Hub.Operation) (core : Core) (script : Script) :
    (Operation.hub operation).process.run scripted core script =
      let (outcome, last, script) := (onHub operation.process).run scripted core script
      (.hub outcome, last, script) := by
  simp only [Operation.process, run_bind, run_done]

theorem run_request (uid : UInt64) (pin : UInt32) (consumer : String) (core : Core)
    (script : Script) :
    (Operation.request uid pin consumer).process.run scripted core script =
      (.requested (core.table.grant uid pin consumer).1.result,
        { core with table := (core.table.grant uid pin consumer).2 }, script) := by
  simp only [Operation.process, onTable, LineTable.request, bind_eq, pure_eq, update_bind, log_bind,
    Process.serve, Process.bind, Process.run]
  cases (core.table.grant uid pin consumer).1 <;> rfl

theorem run_release_of_error {uid : UInt64} {pin : UInt32} {fault : Fault}
    (h : core.table.releasable uid pin = .error fault) (script : Script) :
    (Operation.release uid pin).process.run scripted core script =
      (.released (.error fault), core, script) := by
  simp only [Operation.process, onTable, LineTable.release, bind_eq, pure_eq, get_bind, log_bind,
    modify_bind, done_bind, Process.serve, Process.bind, Process.run, id_eq, h]

-- A line that is released is freed, and then nobody holds it.
theorem run_release {uid : UInt64} {pin : UInt32} {ops : ChipId} {result : Except Fault Unit}
    {script script' : Script} (h : core.table.releasable uid pin = .ok ops)
    (hfreed : (onHub (Hub.free ops pin)).run scripted core script = (result, last, script')) :
    (Operation.release uid pin).process.run scripted core script =
      (.released (.ok ()), { last with table := last.table.setHolder uid pin none }, script') := by
  simp only [Operation.process, onTable, LineTable.release, bind_eq, pure_eq, get_bind, log_bind,
    modify_bind, Process.serve, Process.run, id_eq, h, Process.run_bind, Process.bind, hfreed]
  cases result <;> rfl

theorem run_registration (r : Registration) (core : Core) :
    ∃ result last, (∀ script, (Operation.hub (.register r)).process.run scripted core script =
      (.hub (.chip result), last, script)) ∧ Registers r core result last := by
  obtain ⟨result, last, hrun, hr⟩ := run_register r core
  refine ⟨result, last, fun script => ?_, hr⟩
  simp only [Operation.process, Hub.Operation.process, onHub_bind, run_bind, onHub_done, run_done,
    run_of_silent (Hub.silent_register r) hrun]

theorem run_withdrawal (uid : UInt64) (core : Core) :
    ∃ result last, (∀ script, (Operation.hub (.withdraw uid)).process.run scripted core script =
      (.hub (.unit result), last, script)) ∧ Withdraws uid core result last := by
  obtain ⟨result, last, hrun, hw⟩ := run_withdraw_alone uid core
  refine ⟨result, last, fun script => ?_, hw⟩
  simp only [Operation.process, Hub.Operation.process, onHub_bind, run_bind, onHub_done, run_done,
    run_of_silent (Hub.silent_withdraw uid) hrun]

end Run

section Play

variable {core : Core} {made : Nat}

-- Hub and table are in step after whatever is done.
theorem InLine.act (h : InLine made .plain core) (episode : Episode) :
    InLine made .plain (episode.act core).2.1 := by
  unfold Episode.act
  cases episode.deed.operation? core.hub with
  | none => exact h
  | some operation => exact inLine_of_process onlyReplies_scripted operation h

theorem InLine.hearAll (h : InLine made .plain core) (messages : List Message) :
    InLine made .plain { core with hub := (Core.hearAll messages core.hub).2 } := by
  have halike := alike_hearAll messages core
  rw [InLine, Hub.length_of_outline halike.hub]
  exact ⟨h.1, fun hb => aligned_of_alike halike (h.2 hb)⟩

theorem InLine.play (h : InLine made .plain core) (episode : Episode) :
    InLine made .plain (episode.play core).2 :=
  (h.act episode).hearAll _

theorem limit_of_process (operation : Operation) (core : Core) (script : Script) :
    (operation.process.run scripted core script).2.1.hub.limit = core.hub.limit := by
  suffices hrun : ∃ g, Ended (operation.process.run scripted core script).1 g ∧
      (operation.process.run scripted core script).2.1.hub.limit = core.hub.limit from
    hrun.choose_spec.2
  refine (follows_process operation).run
    (P := fun _ current _ => current.hub.limit = core.hub.limit) ?_ (fun h => h) ?_ rfl
  · rintro g change g' current _ hsteps hlimit
    cases hsteps with
    | hub hs => exact (Hub.limit_of_steps hs).trans hlimit
    | _ => exact hlimit
  · rintro g m g' current script - hlimit
    obtain ⟨messages, hreplies⟩ := onlyReplies_scripted m current script
    have hkept := congrArg Hub.limit (Hub.outline_deliverAll messages current.hub)
    rw [hreplies]
    exact hkept.trans hlimit

-- Nothing but registering, withdrawing and tearing down changes the outline.
theorem outline_of_process (operation : Operation) (h : operation.isLifecycle = false) (core : Core)
    (script : Script) :
    (operation.process.run scripted core script).2.1.hub.outline = core.hub.outline := by
  suffices hrun : ∃ g, Ended (operation.process.run scripted core script).1 g ∧ g.idle = true ∧
      (operation.process.run scripted core script).2.1.hub.outline = core.hub.outline from
    hrun.choose_spec.2.2
  refine (follows_process operation).run
    (P := fun g current _ => g.idle = true ∧ current.hub.outline = core.hub.outline) ?_ (fun h => h) ?_
    ⟨Operation.idle_stage h, rfl⟩
  · rintro g change g' current _ hsteps ⟨hidle, hsame⟩
    obtain ⟨halike, hidle'⟩ := alike_of_steps hsteps hidle
    exact ⟨hidle', halike.hub.trans hsame⟩
  · rintro g m g' current script hasks ⟨hidle, hsame⟩
    obtain ⟨messages, hreplies⟩ := onlyReplies_scripted m current script
    rw [hreplies]
    cases hasks with
    | send => exact ⟨rfl, (Hub.outline_deliverAll messages current.hub).trans hsame⟩

theorem limit_act (episode : Episode) (core : Core) :
    (episode.act core).2.1.hub.limit = core.hub.limit := by
  unfold Episode.act
  cases episode.deed.operation? core.hub with
  | none => rfl
  | some operation => exact limit_of_process operation core _

theorem limit_hearAll (messages : List Message) (core : Core) :
    (hearAll messages core.hub).2.limit = core.hub.limit := by
  have hlimit := congrArg Hub.limit (alike_hearAll messages core).hub
  exact hlimit

theorem length_le_act (h : InLine 0 .plain core) (episode : Episode) :
    core.hub.chips.length ≤ (episode.act core).2.1.hub.chips.length := by
  have hmade : InLine core.hub.chips.length .plain core := ⟨Nat.le_refl _, h.2⟩
  exact (hmade.act episode).1

theorem length_hearAll (messages : List Message) (core : Core) :
    (hearAll messages core.hub).2.chips.length = core.hub.chips.length :=
  Hub.length_of_outline (alike_hearAll messages core).hub

theorem length_le_play (h : InLine 0 .plain core) (episode : Episode) :
    core.hub.chips.length ≤ (episode.play core).2.hub.chips.length :=
  (length_le_act h episode).trans (length_hearAll _ _).ge

theorem length_le_course (h : InLine 0 .plain core) (episodes : List Episode) :
    core.hub.chips.length ≤ (course episodes core).2.hub.chips.length := by
  induction episodes generalizing core with
  | nil => exact Nat.le_refl _
  | cons episode rest ih => exact (length_le_play h episode).trans (ih (h.play episode))

theorem act_of_run {deed : Deed} {transfers left : List Transfer} {operation : Operation}
    {outcome : Outcome} {last : Core} {heard : List Told}
    (hoperation : deed.operation? core.hub = some operation)
    (hrun : operation.process.run scripted core ⟨transfers, []⟩ = (outcome, last, ⟨left, heard⟩)) :
    (⟨deed, transfers⟩ : Episode).act core =
      (heard ++ [(deed.uid, outcome.called (last.hub.rank deed.uid))], last, left) := by
  simp only [Episode.act, hoperation, hrun]

theorem toldOf_concat (uid : UInt64) (told : List Told) (deed : Deed) (outcome : Outcome) :
    toldOf uid (told ++ [(deed.uid, outcome)]) =
      toldOf uid told ++ if deed.uid = uid then [(deed.uid, outcome)] else [] := by
  rw [toldOf, List.filter_append, List.filter_singleton]
  simp [toldOf]

theorem course_append (episodes later : List Episode) (core : Core) :
    course (episodes ++ later) core =
      ((course episodes core).1 ++ (course later (course episodes core).2).1,
        (course later (course episodes core).2).2) := by
  induction episodes generalizing core with
  | nil => rfl
  | cons episode rest ih => simp [course, ih]

-- Dispatching messages one after the other is hearing them.
theorem course_dispatch (messages : List Message) (core : Core) :
    course (messages.map fun m => ⟨.dispatch m, []⟩) core =
      ((hearAll messages core.hub).1, { core with hub := (hearAll messages core.hub).2 }) := by
  induction messages generalizing core with
  | nil => rfl
  | cons m rest ih =>
    have hact : (⟨.dispatch m, []⟩ : Episode).act core =
        ([(m.uid, .hub (.delivered (Hub.deliver m core.hub).1.isOk))],
          { core with hub := (Hub.deliver m core.hub).2 }, []) :=
      act_of_run rfl (run_delivery m core ⟨[], []⟩)
    have hplay : (⟨.dispatch m, []⟩ : Episode).play core =
        ([(m.uid, .hub (.delivered (Hub.deliver m core.hub).1.isOk))],
          { core with hub := (Hub.deliver m core.hub).2 }) := by
      rw [Episode.play, hact]
      rfl
    simp only [List.map_cons, course, hplay, ih]
    rfl

end Play

end Core

end GpioBridge
