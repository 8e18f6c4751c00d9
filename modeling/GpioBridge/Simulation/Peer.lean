import GpioBridge.Process
import GpioBridge.Simulation.Responder

namespace GpioBridge

inductive Activity where
  -- It was not started, or was stopped.
  | idle
  | listening
  -- Its transport closed; only stopping gets it out of this.
  | ended
  deriving DecidableEq, Repr

-- Acknowledgements that come in while the bridge listens are kept until it asks for something.
structure Peer where
  uid : UInt64
  label : String
  names : List String
  lines : List SimLine
  responder : Responder := SimLine.echo
  activity : Activity := .idle
  requests : UInt64 := 0
  farewell : Option String := none
  acks : List Message := []

inductive PeerDemand where
  | send (m : Message)
  | receive
  -- Waits while the bridge goes on listening.
  | wait

def PeerDemand.Answer : PeerDemand → Type
  | send _ => Except TransportFault Unit
  | receive => Except TransportFault (Option Message)
  | wait => Unit

abbrev PeerProcess := Process Peer PeerDemand PeerDemand.Answer

namespace Peer

-- A bridge that was not started, with names of its own unless it is given some. The number of its
-- lines does not depend on the names.
def create (uid : UInt64) (lineCount : Nat) (label : Option String := none)
    (names : Option (List String) := none) : Peer where
  uid := uid
  label := label.getD s!"sim-{uid}"
  names := names.getD ((List.range lineCount).map fun pin => s!"sim-{uid}-gpio-{pin}")
  lines := SimLine.fresh lineCount

def say (severity : Severity) (text : String) : PeerProcess Unit :=
  .log ⟨severity, .simulation, text, []⟩

def send (m : Message) : PeerProcess (Except TransportFault Unit) := .ask (.send m) .done

def begin (peer : Peer) : Bool × Peer :=
  if peer.activity = .idle then (true, { peer with activity := .listening }) else (false, peer)

def start : PeerProcess Unit := do
  if ← .update begin then
    say .debug s!"simulated bridge uid {(← .get).uid} started"

def stop (peer : Peer) : Peer := { peer with activity := .idle }

def drive (pin : UInt32) (level : Bool) (peer : Peer) : Peer :=
  { peer with lines := SimLine.drive pin level peer.lines }

def owns (peer : Peer) (m : Message) : Bool := m.isLineRequest && m.uid == peer.uid

def respond (m : Message) (peer : Peer) : Option Message × Peer :=
  let (reply, lines) := peer.responder m peer.lines
  (reply, { peer with lines, requests := peer.requests + 1 })

def keepAck (ack : Message) (peer : Peer) : Peer := { peer with acks := peer.acks ++ [ack] }

-- Does what a received message calls for. Messages for others are passed over, but a goodbye is for
-- everyone.
def hear (m : Message) : PeerProcess Unit := do
  match m with
  | .exit _ text =>
    say .info s!"core exited: {text}"
    .modify fun peer => { peer with farewell := some text }
  | .initAck uid _ | .deinitAck uid _ _ =>
    if uid == (← .get).uid then
      .modify (keepAck m)
  | _ =>
    if (← .get).owns m then
      match ← .update (respond m) with
      | none => return ()
      | some reply =>
        match ← send reply with
        | .ok () => return ()
        | .error fault => say .warn s!"simulated bridge could not reply: {fault.message}"

-- Listens for so many messages, unless the bridge is stopped or its transport closes.
def listen : (polls : Nat) → PeerProcess Unit
  | 0 => return ()
  | polls + 1 => do
    if (← .get).activity != .listening then return ()
    match ← .ask .receive .done with
    | .ok (some m) => hear m
    | .ok none => pure ()
    | .error .closed => .modify fun peer => { peer with activity := .ended }
    | .error fault => say .warn s!"simulated bridge dropped inbound frame: {fault.message}"
    listen polls

def acknowledges (ack m : Message) : Bool :=
  match ack, m with
  | .initAck uid _, .init wanted _ _ _ => uid == wanted
  | .deinitAck uid _ _, .deinit wanted => uid == wanted
  | _, _ => false

def forgetAcks (peer : Peer) : Peer := { peer with acks := [] }

-- Takes acknowledgements up to the first that answers a message, with those that came before.
def takeAck (m : Message) (peer : Peer) : (List Message × Option Message) × Peer :=
  let stale := peer.acks.takeWhile fun ack => !acknowledges ack m
  let rest := peer.acks.drop stale.length
  ((stale, rest.head?), { peer with acks := rest.tail })

-- Sends a control message and waits for its acknowledgement. That nobody listens is found out only
-- by waiting in vain.
def exchange (m : Message) : PeerProcess (Except Fault Message) := do
  .modify forgetAcks
  match ← send m with
  | .ok () | .error .noSubscribers =>
    .ask .wait .done
    let (stale, answer) ← .update (takeAck m)
    stale.forM fun ack => say .trace s!"ignoring stale {ack.kind}"
    match answer with
    | some ack => return .ok ack
    | none => return .error .unresponsive
  | .error fault => return .error (.sendFailed fault.message)

def unexpected (m : Message) : Fault := .violation s!"unexpected {m.kind}"

def init : PeerProcess (Except Fault UInt32) := do
  let { uid, label, names, .. } ← .get
  match ← exchange (.init uid (UInt32.ofNat names.length) label names) with
  | .ok (.initAck _ status) => return .ok status
  | .ok other => return .error (unexpected other)
  | .error fault => return .error fault

def deinit : PeerProcess (Except Fault (UInt32 × ApiVersion)) := do
  match ← exchange (.deinit (← .get).uid) with
  | .ok (.deinitAck _ status version) => return .ok (status, version)
  | .ok other => return .error (unexpected other)
  | .error fault => return .error fault

end Peer

end GpioBridge
