import GpioBridge.Event
import GpioBridge.Transport.Address
import GpioBridge.Wire.Frame

namespace GpioBridge

inductive Delivery where
  | sent
  | refused
  | failed (detail : String)
  deriving DecidableEq, Repr

namespace Datagram

-- Offers a frame to peers, one after the other, after so many were sent to already. A peer that
-- refuses counts as not listening; any other failure ends the sending.
def offer (sendTo : SocketAddress → ν → Delivery × ν) :
    (peers : List SocketAddress) → (sent : Nat) → ν → Except TransportFault Unit × ν
  | [], sent, net => (if sent = 0 then .error .noSubscribers else .ok (), net)
  | peer :: rest, sent, net =>
    match sendTo peer net with
    | (.sent, net) => offer sendTo rest (sent + 1) net
    | (.refused, net) => offer sendTo rest sent net
    | (.failed detail, net) => (.error (.io detail), net)

-- Sends a message to peers; one that cannot be encoded is offered to nobody.
def send (sendTo : List UInt8 → SocketAddress → ν → Delivery × ν) (peers : List SocketAddress)
    (m : Message) (net : ν) : Except TransportFault Unit × ν :=
  match Frame.encode m with
  | .error fault => (.error (.frame fault), net)
  | .ok frame => offer (sendTo frame) peers 0 net

def maxPayload : Nat := 65507

-- The length field of a packet cannot say more than this.
def maxLength : Nat := 65535

end Datagram

structure DatagramSocket where
  address : SocketAddress
  peers : List SocketAddress
  queue : List (List UInt8) := []
  deriving DecidableEq, Repr, Inhabited

structure DatagramHost where
  sockets : List DatagramSocket := []
  -- Whether there is a way to any address.
  routed : Bool := true
  deriving DecidableEq, Repr, Inhabited

namespace SocketAddress

def portNumber : SocketAddress → Nat
  | v4 _ port | v6 _ _ port => port

def withPort (number : Nat) : SocketAddress → SocketAddress
  | v4 octets _ => v4 octets number
  | v6 groups scope _ => v6 groups scope number

-- Whether a socket bound here hears what is sent to any address of the host.
def isUnspecified : SocketAddress → Bool
  | v4 octets _ => octets.all (· == 0)
  | v6 groups _ _ => groups.all (· == 0)

def isV4 : SocketAddress → Bool
  | v4 .. => true
  | v6 .. => false

def isLocal : SocketAddress → Bool
  | v4 octets _ => octets.head? == some 127 || octets.all (· == 0)
  | v6 groups _ _ => groups.all (· == 0) || groups == [0, 0, 0, 0, 0, 0, 0, 1]

-- Whether a socket bound to the first address hears what is sent to the second. One that is bound
-- to no IPv6 address in particular hears IPv4 as well.
def covers (bound target : SocketAddress) : Bool :=
  bound.unmapped == target.unmapped ||
    bound.isUnspecified && (target.unmapped.isV4 || !bound.isV4) &&
      bound.portNumber == target.portNumber

-- Where a datagram for an address arrives: for no address in particular, at the host itself.
def destination : SocketAddress → SocketAddress
  | v4 octets port => v4 (if octets.all (· == 0) then [127, 0, 0, 1] else octets) port
  | v6 groups scope port =>
    v6 (if groups.all (· == 0) then [0, 0, 0, 0, 0, 0, 0, 1] else groups) scope port

end SocketAddress

namespace DatagramHost

-- The first port given to sockets that ask for none. No address that can be written has such a
-- port, so nobody guesses it.
def firstFreePort : Nat := 65536

def isTaken (host : DatagramHost) (address : SocketAddress) : Bool :=
  host.sockets.any fun socket => socket.address.covers address || address.covers socket.address

-- The address a socket gets: port zero asks for any port nobody uses.
def resolve (host : DatagramHost) (address : SocketAddress) : SocketAddress :=
  if address.portNumber = 0 then
    let free := ((List.range (host.sockets.length + 1)).map (firstFreePort + ·)).find? fun port =>
      host.sockets.all fun socket => socket.address.portNumber != port
    address.withPort (free.getD firstFreePort)
  else address

def boundEvent (listen : SocketAddress) (peers : List SocketAddress) : Event :=
  ⟨.debug, .datagram, s!"UDP transport bound to {listen.text} ({peers.length} peers)", []⟩

-- Whether a socket may be bound to an address. A host without routes has no address of its own in
-- IPv6, and in IPv4 it cannot tell which ones are.
def admits (host : DatagramHost) (address : SocketAddress) : Bool :=
  if host.routed then address.unmapped.isLocal
  else address.unmapped.isV4 || address.isUnspecified

def bind (listen : SocketAddress) (peers : List SocketAddress) (host : DatagramHost) :
    Except TransportFault Nat × DatagramHost :=
  if !host.admits listen then (.error (.io "Cannot assign requested address (os error 99)"), host)
  else
    let address := host.resolve listen
    if host.isTaken address then (.error (.io "Address already in use (os error 98)"), host)
    else
      (.ok host.sockets.length, { host with sockets := host.sockets ++ [{ address, peers }] })

def addPeer (socket : Nat) (peer : SocketAddress) (host : DatagramHost) : DatagramHost :=
  { host with
    sockets := host.sockets.modify socket fun socket =>
      if socket.peers.contains peer then socket
      else { socket with peers := socket.peers ++ [peer] } }

-- Queues a datagram at the socket that hears an address. Datagrams to where nobody listens are
-- lost, which the sender cannot tell.
def deliver (frame : List UInt8) (target : SocketAddress) (host : DatagramHost) : DatagramHost :=
  match host.sockets.findIdx? fun socket => socket.address.covers target.destination with
  | none => host
  | some index =>
    { host with
      sockets := host.sockets.modify index fun socket =>
        { socket with queue := socket.queue ++ [frame] } }

-- Why the operating system refuses so many bytes from a socket at one address for another: the
-- first cause it comes upon. Only a way to the host itself needs no route, and that in IPv4.
def refusal? (source target : SocketAddress) (length : Nat) (host : DatagramHost) : Option String :=
  let inV4 := source.isV4 || target.isV4
  if inV4 && Datagram.maxLength < length then some "Message too long (os error 90)"
  else if source.isV4 && !target.isV4 then
    some "Address family not supported by protocol (os error 97)"
  else if target.portNumber = 0 then some "Invalid argument (os error 22)"
  else if !host.routed && !inV4 then some "Cannot assign requested address (os error 99)"
  else if !host.routed && !target.isUnspecified then
    some "Network is unreachable (os error 101)"
  else if Datagram.maxPayload < length then some "Message too long (os error 90)"
  else none

-- Hands a datagram from a socket at the first address to the operating system. Without routes even
-- one to the host itself is lost.
def sendTo (source : SocketAddress) (frame : List UInt8) (target : SocketAddress)
    (host : DatagramHost) : Delivery × DatagramHost :=
  let target := if source.isV4 then target else target.unmapped
  match host.refusal? source target frame.length with
  | some detail => (.failed detail, host)
  | none => (.sent, if host.routed then host.deliver frame target else host)

-- Sends a message from a socket to its peers; one that was never bound has none.
def send (socket : Nat) (m : Message) (host : DatagramHost) :
    Except TransportFault Unit × DatagramHost :=
  let sender := (host.sockets[socket]?).getD default
  Datagram.send (sendTo sender.address) sender.peers m host

def receive (socket : Nat) (host : DatagramHost) :
    Except TransportFault (Option Message) × DatagramHost :=
  match (host.sockets[socket]?.map (·.queue)).getD [] with
  | [] => (.ok none, host)
  | frame :: rest =>
    let host := { host with
      sockets := host.sockets.modify socket fun socket => { socket with queue := rest } }
    match Frame.decode (frame.take Frame.maxLength) with
    | .ok m => (.ok (some m), host)
    | .error fault => (.error (.frame fault), host)

end DatagramHost

end GpioBridge
