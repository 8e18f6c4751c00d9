import GpioBridge.CommandLine.Invocation
import GpioBridge.Settings.Reading
import GpioBridge.Simulation.Rig

namespace GpioBridge

structure Session where
  started : List Event
  -- Nothing, if the run did not get as far as to wait.
  ended : List Event := []
  exitCode : UInt32 := 0
  deriving DecidableEq, Repr

namespace Session

def say (severity : Severity) (text : String) : Event := ⟨severity, .program, text, []⟩

def failed (detail : String) (before : List Event := []) : Session where
  started := before ++ [say .error s!"vgpio core failed: {detail}"]
  exitCode := 1

-- The settings of a run. Without a path they are read from the standard path, if there is a file
-- there.
def settings (invocation : Invocation) (files : FileTree) : Except SettingsFault Settings := do
  let settings ← match invocation.settingsPath with
    | some path => Settings.load path files
    | none =>
      match Settings.load Settings.defaultPath files with
      | .error .fileNotFound => pure {}
      | result => result
  settings.check
  return settings

def threshold (invocation : Invocation) (settings : Except SettingsFault Settings) : Severity :=
  if invocation.verbose then .debug
  else
    match settings with
    | .ok settings => settings.logLevel
    | .error _ => ({} : Settings).logLevel

def descriptorText (descriptor : Descriptor) : String :=
  let names := ", ".intercalate (descriptor.names.map fun name => s!"\"{name}\"")
  s!"ChipDescriptor \x7b uid: {descriptor.uid}, label: \"{descriptor.label}\", names: [{names}] \x7d"

-- What is said about how the simulated bridge got its chip exposed.
def initEvent (table : LineTable ChipId) : Except Fault UInt32 → Event
  | .ok status =>
    if status = 0 then
      let chips := ", ".intercalate (table.descriptors.map descriptorText)
      say .info s!"Simulated chip registered: [{chips}]"
    else say .warn s!"Simulated chip refused (errno {status})"
  | .error fault => say .warn s!"Simulated bridge got no Init-Ack: {fault.message}"

def stopEvent : Event := say .info "Received shutdown signal"

def completeEvent : Event := say .info "vgpio core shutdown complete"

-- Stops the service of a rig; gives what was logged before and after that was asked for.
def stopped (before : List Event) (rig : Rig) : Session × Rig :=
  let started := before ++ rig.world.events
  let rig := { rig with world.events := [stopEvent] }.stop
  ({ started, ended := rig.world.events }, rig)

def simulated (invocation : Invocation) (settings : Settings) (files : FileTree)
    (before : List Event) : Session :=
  let mode := say .info
    s!"Simulation mode: chip uid {invocation.simUid} with {invocation.simLines} lines"
  let rig := Rig.onBus settings
  let (port, rig) := { rig with world.files := files }.addPeer
    (.create invocation.simUid invocation.simLines.toNat)
  let (result, rig) := (rig.perform Service.begin).runPeer port Peer.init
  let note := result.map (initEvent rig.world.table)
  let rig := { rig with world.events := rig.world.events ++ note.toList }
  let (session, rig) := stopped (before ++ [mode]) rig
  let farewell := (rig.world.peer? port).bind (·.farewell)
  let seen := farewell.map fun text => say .info s!"Simulated bridge saw exit: {text}"
  { session with ended := session.ended ++ seen.toList ++ [completeEvent] }

def networked (settings : Settings) (host : DatagramHost) (files : FileTree)
    (before : List Event) : Session :=
  match (do return (← settings.listenAddress, ← settings.peerAddresses) :
      Except SettingsFault (SocketAddress × List SocketAddress)) with
  | .error fault => failed fault.message before
  | .ok (listen, peers) =>
    match host.bind listen peers with
    | (.error fault, _) => failed fault.message before
    | (.ok number, host) =>
      let bound := [DatagramHost.boundEvent listen peers, say .info s!"Listening on {listen.text}",
        Service.createdEvent settings]
      let rig : Rig :=
        { service := .create settings
          world := { link := .socket number, host, files, events := bound } }
      let (session, _) := stopped before (rig.perform Service.begin)
      { session with ended := session.ended ++ [completeEvent] }

def full (invocation : Invocation) (host : DatagramHost) (files : FileTree) : Session :=
  match settings invocation files with
  | .error fault => failed fault.message
  | .ok settings =>
    let before := [say .info s!"vgpio core v{releaseVersion} starting..."]
    if invocation.simulate then simulated invocation settings files before
    else networked settings host files before

def filtered (least : Severity) (session : Session) : Session :=
  let keep := fun (event : Event) => least.rank ≤ event.severity.rank
  { session with started := session.started.filter keep, ended := session.ended.filter keep }

def run (invocation : Invocation) (host : DatagramHost) (files : FileTree) : Session :=
  (full invocation host files).filtered (threshold invocation (settings invocation files))

end Session

end GpioBridge
