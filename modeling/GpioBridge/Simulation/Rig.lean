import GpioBridge.Hub.Consumer
import GpioBridge.LineTable
import GpioBridge.Service.Basic
import GpioBridge.FileTree.Basic
import GpioBridge.Simulation.Peer
import GpioBridge.Transport.Datagram
import GpioBridge.Transport.Loopback

namespace GpioBridge

inductive Link where
  | port (id : Nat)
  | socket (number : Nat)
  deriving DecidableEq, Repr

structure World where
  link : Link
  bus : LoopbackBus := {}
  host : DatagramHost := {}
  table : LineTable ChipId := {}
  peers : List (Nat × Peer) := []
  files : FileTree := {}
  events : List Event := []

namespace World

def note (event : Event) (world : World) : World := { world with events := world.events ++ [event] }

def sendAt (port : Nat) (m : Message) (world : World) : Except TransportFault Unit × World :=
  let event := LoopbackBus.sendEvent port m world.bus
  match LoopbackBus.send port m world.bus with
  | (.error (.frame fault), bus) => (.error (.frame fault), { world with bus })
  | (result, bus) => (result, { world with bus }.note event)

def receiveAt (port : Nat) (world : World) : Except TransportFault (Option Message) × World :=
  let (result, bus) := LoopbackBus.receive port world.bus
  (result, { world with bus })

def send (m : Message) (world : World) : Except TransportFault Unit × World :=
  match world.link with
  | .port id => world.sendAt id m
  | .socket number =>
    let (result, host) := DatagramHost.send number m world.host
    (result, { world with host })

def receive (world : World) : Except TransportFault (Option Message) × World :=
  match world.link with
  | .port id => world.receiveAt id
  | .socket number =>
    let (result, host) := DatagramHost.receive number world.host
    (result, { world with host })

def waitingAt (port : Nat) (world : World) : Nat :=
  ((world.bus.port? port).map (·.queue.length)).getD 0

def waiting (world : World) : Nat :=
  match world.link with
  | .port id => world.waitingAt id
  | .socket number => (world.host.sockets[number]?.map (·.queue.length)).getD 0

-- What a bridge at a port runs in. Waiting changes nothing here.
def aroundPeer (port : Nat) : Process.Surroundings Peer World PeerDemand PeerDemand.Answer where
  answer
    | .send m, peer, world =>
      let (result, world) := world.sendAt port m
      (result, peer, world)
    | .receive, peer, world =>
      let (result, world) := world.receiveAt port
      (result, peer, world)
    | .wait, peer, world => ((), peer, world)
  hear := note

def peer? (port : Nat) (world : World) : Option Peer := world.peers.lookup port

def setPeer (port : Nat) (peer : Peer) (world : World) : World :=
  { world with peers := world.peers.map fun entry => if entry.1 = port then (port, peer) else entry }

def listenAt (port : Nat) (world : World) : World :=
  match world.peer? port with
  | none => world
  | some peer =>
    let ((), peer, world) :=
      (Peer.listen (world.waitingAt port)).run (aroundPeer port) peer world
    world.setPeer port peer

def listen (world : World) : World :=
  world.peers.foldl (fun world entry => world.listenAt entry.1) world

def aroundTable : Process.Surroundings (LineTable ChipId) World (FreeDemand ChipId)
    fun _ => Except Fault Unit where
  answer _ table world := (.ok (), table, world)
  hear := note

def onTable (p : TableProcess ChipId α) (world : World) : α × World :=
  let (a, table, world) := p.run aroundTable world.table world
  (a, { world with table })

-- What a service runs in: after each message it sends, others may react, and what the worker has
-- left to do when a run ends is done then.
def around (react finish : Service → World → Service × World) :
    Process.Surroundings Service World ServiceDemand ServiceDemand.Answer where
  answer
    | .hub (.send m), service, world =>
      let (result, world) := world.send m
      (result, react service world)
    | .hub (.expose descriptor chip), service, world =>
      let (result, world) := world.onTable (LineTable.expose descriptor chip)
      (result, service, world)
    | .hub (.conceal handle), service, world =>
      let ((), world) := world.onTable (LineTable.conceal handle)
      ((), service, world)
    | .hub (.isHeld handle pin), service, world =>
      (world.table.isHeld handle pin, service, world)
    | .receive, service, world =>
      let (result, world) := world.receive
      (result, service, world)
    | .awaitWorker, service, world => ((), finish service world)
    -- No time passes.
    | .clock, service, world => ((0 : UInt64), service, world)
    | .writeFile path contents, service, world =>
      let (result, files) := world.files.attempt (FileTree.write path contents)
      (result, service, { world with files })
    | .renameFile source target, service, world =>
      let (result, files) := world.files.attempt (FileTree.rename source target)
      (result, service, { world with files })
  hear := note

-- What a service runs in when reactions, and reactions to them, are followed to so many levels.
def reacting : (levels : Nat) → Process.Surroundings Service World ServiceDemand
    ServiceDemand.Answer
  | 0 => around Prod.mk Prod.mk
  | levels + 1 =>
    let run := fun (p : ServiceProcess Unit) service world =>
      (p.run (reacting levels) service world).2
    around
      (fun service world =>
        let world := world.listen
        run (do let _ ← Service.receiving world.waiting) service world)
      (run Service.finishWork)

end World

structure Rig where
  service : Service
  world : World

namespace Rig

-- How deep reactions go: a caller's request is answered, and the answer is handed on; the rest is
-- for what the worker does in between.
def levels : Nat := 3

def run (p : ServiceProcess α) (rig : Rig) : α × Rig :=
  let (a, service, world) := p.run (World.reacting levels) rig.service rig.world
  (a, { service, world })

def perform (p : ServiceProcess Unit) (rig : Rig) : Rig := (rig.run p).2

def runHub (p : HubProcess α) (rig : Rig) : α × Rig := rig.run (Service.onHub p)

-- One round: the bridges work off what waits for them, and so do the service and its worker.
def round (rig : Rig) : Rig :=
  let world := rig.world.listen
  { rig with world }.perform do
    let _ ← Service.receiving world.waiting
    Service.workOff

-- Rounds until nothing waits: in the first, requests and control messages are answered, and the
-- second takes the answers.
def settle (rig : Rig) : Rig := rig.round.round

def aroundTable : Process.Surroundings (LineTable ChipId) Rig (FreeDemand ChipId)
    fun _ => Except Fault Unit where
  answer demand table rig :=
    let (result, rig) :=
      { rig with world.table := table }.runHub (Hub.free demand.ops demand.pin)
    (result, rig.world.table, rig)
  hear event rig := { rig with world := rig.world.note event }

def runTable (p : TableProcess ChipId α) (rig : Rig) : α × Rig :=
  let (a, table, rig) := p.run aroundTable rig.world.table rig
  (a, { rig with world.table := table })

-- What a bridge at a port runs in when everyone goes on while it waits.
def aroundPeer (port : Nat) : Process.Surroundings Peer Rig PeerDemand PeerDemand.Answer where
  answer
    | .wait, peer, rig =>
      let rig := { rig with world := rig.world.setPeer port peer }.settle
      ((), (rig.world.peer? port).getD peer, rig)
    | demand, peer, rig =>
      let (result, peer, world) := (World.aroundPeer port).answer demand peer rig.world
      (result, peer, { rig with world })
  hear event rig := { rig with world := rig.world.note event }

def runPeer (port : Nat) (p : PeerProcess α) (rig : Rig) : Option α × Rig :=
  match rig.world.peer? port with
  | none => (none, rig)
  | some peer =>
    let (a, peer, rig) := p.run (aroundPeer port) peer rig
    (some a, { rig with world := rig.world.setPeer port peer })

def addPeer (peer : Peer) (rig : Rig) : Nat × Rig :=
  let (port, bus) := rig.world.bus.attach
  let world := { rig.world with bus, peers := rig.world.peers ++ [(port, peer)] }
  (port, ({ rig with world }.runPeer port Peer.start).2)

def modifyPeer (port : Nat) (f : Peer → Peer) (rig : Rig) : Rig :=
  match rig.world.peer? port with
  | none => rig
  | some peer => { rig with world := rig.world.setPeer port (f peer) }

-- Sends a message from a port that is attached for this alone, and gives the acknowledgement that
-- came back.
def exchange (m : Message) (rig : Rig) : Except TransportFault (Option Message) × Rig :=
  let (port, bus) := rig.world.bus.attach
  let (sent, world) := { rig.world with bus }.sendAt port m
  let rig := { rig with world }.settle
  let frames := ((rig.world.bus.port? port).map (·.queue)).getD []
  let heard := frames.filterMap fun frame => (Frame.decode frame).toOption
  (sent.map fun () => heard.find? fun ack => Peer.acknowledges ack m,
    { rig with world.bus := rig.world.bus.detach port })

def onBus (settings : Settings) : Rig :=
  let (id, bus) := LoopbackBus.attach {}
  { service := .create settings
    world := { link := .port id, bus, events := [Service.createdEvent settings] } }

def stop (rig : Rig) : Rig :=
  let rig := { rig with service.running := false }.perform (do Service.finish; Service.shutdown)
  { rig with world := rig.world.listen }

end Rig

end GpioBridge
