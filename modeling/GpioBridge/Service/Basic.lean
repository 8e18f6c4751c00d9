import GpioBridge.FileTree.Basic
import GpioBridge.Hub.Control
import GpioBridge.Hub.Reply
import GpioBridge.Service.Report

namespace GpioBridge

structure Reporter where
  serviceName : String
  path : Option String
  interval : UInt64
  processId : UInt32 := 0
  phase : Phase := .starting
  -- When a report was last made, in milliseconds since the service was made.
  lastMade : Option UInt64 := none
  deriving DecidableEq, Repr, Inhabited

structure Service where
  hub : Hub
  reporter : Reporter
  pollInterval : UInt64
  -- The control messages that wait for the worker.
  queue : List Message := []
  -- Whether more may come.
  queueOpen : Bool := false
  running : Bool := true
  stopped : Bool := false
  deriving Repr, Inhabited

inductive ServiceDemand where
  | hub (demand : Demand)
  -- Waits a poll interval for a message.
  | receive
  -- Waits for the worker to end.
  | awaitWorker
  -- The milliseconds since the service was made.
  | clock
  | writeFile (path contents : String)
  | renameFile (source target : String)

def ServiceDemand.Answer : ServiceDemand → Type
  | hub demand => demand.Answer
  | receive => Except TransportFault (Option Message)
  | awaitWorker => Unit
  | clock => UInt64
  | writeFile _ _ => Except FileFault Unit
  | renameFile _ _ => Except FileFault Unit

abbrev ServiceProcess := Process Service ServiceDemand ServiceDemand.Answer

inductive WorkerDemand where
  | hub (demand : Demand)
  -- Waits for the message that has been queued longest, or for word that no more will come.
  | next

def WorkerDemand.Answer : WorkerDemand → Type
  | hub demand => demand.Answer
  | next => Option Message

-- The worker goes on by itself while messages are received, so that a reply can come through while
-- a control message is being carried out.
abbrev WorkerProcess := Process Hub WorkerDemand WorkerDemand.Answer

namespace Service

def create (settings : Settings) : Service where
  hub := { limit := settings.maxChips.map UInt64.toNat, patience := settings.replyTimeout }
  reporter := {
    serviceName := settings.serviceName
    path := settings.reportPath
    interval := settings.reportInterval }
  pollInterval := settings.pollInterval

def createdEvent (settings : Settings) : Event :=
  let limit := match settings.maxChips with
    | none => "None"
    | some limit => s!"Some({limit})"
  let patience := Duration.text settings.replyTimeout
  ⟨.info, .service,
    s!"BridgeService '{settings.serviceName}' created (reply timeout {patience}, max chips {limit})",
    []⟩

def onHub : HubProcess α → ServiceProcess α :=
  Process.lift hub (fun hub service => { service with hub }) .hub fun _ answer => answer

def say (severity : Severity) (text : String) : ServiceProcess Unit :=
  .log ⟨severity, .service, text, []⟩

def report (service : Service) (uptime : UInt64) : Report where
  serviceName := service.reporter.serviceName
  processId := service.reporter.processId
  phase := service.reporter.phase
  uptime := uptime
  chips := service.hub.summaries
  counters := service.hub.counters

def setPhase (phase : Phase) (service : Service) : Service :=
  { service with reporter.phase := phase }

def setLastMade (time : UInt64) (service : Service) : Service :=
  { service with reporter.lastMade := some time }

-- Writes a report, if there is a file for it: first beside that file and then in its place, so that
-- nobody reads half a report.
def publish : ServiceProcess (Except FileFault Unit) := do
  let time : UInt64 ← .ask .clock .done
  .modify (setLastMade time)
  let service ← .get
  match service.reporter.path with
  | none => return .ok ()
  | some path =>
    let draft := Report.draftPath path
    match ← .ask (.writeFile draft (service.report time).text) .done with
    | .error fault => return .error fault
    | .ok () =>
      match ← .ask (.renameFile draft path) .done with
      | .error fault => return .error fault
      | .ok () =>
        let count := service.hub.registry.size
        .log ⟨.debug, .report,
          s!"Published status (state={service.reporter.phase.name}, {count} chips)", []⟩
        return .ok ()

-- Writes a report unless the last one is still current.
def refresh : ServiceProcess (Except FileFault Unit) := do
  match (← .get).reporter.lastMade with
  | none => publish
  | some last =>
    let time : UInt64 ← .ask .clock .done
    if time - last < (← .get).reporter.interval then return .ok ()
    publish

-- That a report could not be written only goes to the log.
def tolerate (attempt : ServiceProcess (Except FileFault Unit)) : ServiceProcess Unit := do
  match ← attempt with
  | .ok () => return ()
  | .error fault => say .debug s!"Failed to publish status: {fault.message}"

def openQueue (service : Service) : Service := { service with queue := [], queueOpen := true }

def closeQueue (service : Service) : Service := { service with queueOpen := false }

def enqueue (m : Message) (service : Service) : Service :=
  { service with queue := service.queue ++ [m] }

def dequeue (service : Service) : Option Message × Service :=
  (service.queue.head?, { service with queue := service.queue.tail })

def route (m : Message) : ServiceProcess Unit := do
  if m.isLineReply then
    let _ ← onHub (Hub.dispatch m)
  else if m.isControl then
    .modify (enqueue m)
  else
    say .trace s!"Ignoring {m.kind} for uid {m.uid}"

def carryOut : HubProcess α → WorkerProcess α :=
  Process.lift id (fun hub _ => hub) .hub fun _ answer => answer

-- Carries out what is queued, one message after the other, until no more will come, for at most so
-- many messages.
def working : (count : Nat) → WorkerProcess Unit
  | 0 => return ()
  | count + 1 => do
    let next? : Option Message ← .ask .next .done
    match next? with
    | none => .log ⟨.debug, .service, "Control worker exiting", []⟩
    | some m =>
      carryOut (Hub.answerControl m)
      working count

-- Lets the worker go on where it need not wait: an empty queue is word that no more will come.
def onQueue : WorkerProcess α → ServiceProcess α :=
  Process.serve hub (fun hub service => { service with hub }) fun
    | .hub demand => .ask (.hub demand) .done
    | .next => .update dequeue

-- What the worker does before it has to wait for more.
def workOff : ServiceProcess Unit := do onQueue (working (← .get).queue.length)

-- What the worker still does when no more will come.
def finishWork : ServiceProcess Unit := do onQueue (working ((← .get).queue.length + 1))

def begin : ServiceProcess Unit := do
  let interval := Duration.text (← .get).pollInterval
  say .info s!"Starting receive loop (poll interval {interval})"
  .modify (setPhase .running)
  tolerate publish

-- Receives until the service is told to stop or the transport closes, for at most so many polls.
def receiving : (polls : Nat) → ServiceProcess (Except TransportFault Unit)
  | 0 => return .ok ()
  | polls + 1 => do
    if !(← .get).running then return .ok ()
    match ← .ask .receive .done with
    | .ok (some m) => route m
    | .ok none => pure ()
    | .error .closed =>
      say .error "Transport closed, leaving receive loop"
      return .error .closed
    | .error fault => say .warn s!"Dropping inbound frame: {fault.message}"
    tolerate refresh
    receiving polls

def finish : ServiceProcess Unit := do
  .modify closeQueue
  .ask .awaitWorker .done
  let { sent, timedOut, dispatched, dropped } := (← .get).hub.counters
  say .info
    s!"Receive loop stopped ({sent} requests, {dispatched} replies dispatched, {dropped} dropped, {timedOut} timeouts)"

-- What is done beside the worker, from its start to its end.
def loop (polls : Nat) : ServiceProcess (Except TransportFault Unit) := do
  begin
  let result ← receiving polls
  finish
  return result

def run (polls : Nat) : ServiceProcess (Except TransportFault Unit) := do
  .modify openQueue
  loop polls

def beginShutdown (service : Service) : Bool × Service :=
  if service.stopped then (false, service)
  else (true, { service with running := false, stopped := true })

-- Ends the service: says goodbye to every bridge and tears everything down. Only the first shutdown
-- does anything.
def shutdown : ServiceProcess Unit := do
  if ← .update beginShutdown then
    say .info "Shutdown requested"
    onHub (Hub.sendBestEffort .goodbye)
    let count ← onHub Hub.teardown
    say .info s!"Shutdown complete ({count} chip(s) torn down)"
    .modify (setPhase .stopped)
    tolerate publish

end Service

end GpioBridge
