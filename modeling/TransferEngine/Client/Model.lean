import TransferEngine.Coordinator.Model
import TransferEngine.Lib.Decimal

/-!
# The program that `main` puts together

`PeerManager` of `peer_manager.hpp`, wired to the coordinator the way `main` does it: the
handshake callback of a connection has the coordinator register the peer, the disconnect
callback has it unregister the peer and takes the connection out of `active_peers_`, and a
peer that sent a bad piece is blacklisted.

## Who hears of a disconnection

A connection has one `on_disconnect` callback. `connect_to_peer` installs the one of the
peer manager; `register_peer` replaces it by the one of the coordinator, which unregisters
the peer and does nothing else. Which of the two is installed is what
`TransferEngine.Client.State.registered` says: a connection that is closed before its
handshake is taken out of `active_peers_`, and one that is closed afterwards is not.

All sends go to peers that the coordinator knows, so a connection that a failing send
closes has been registered. Closing it is in the model of the coordinator.

## Steps

An event of a socket is given in small steps: bytes are received, and then
`process_rx_buffer` makes its passes one by one (`TransferEngine.Client.Input.pass`). What
the operating system answers is part of the input.
-/

namespace TransferEngine

/-- An address, the `ip` and the `port` of a peer. -/
structure Address where
  /-- The host. -/
  ip : List UInt8
  /-- The port. -/
  port : UInt16
  deriving DecidableEq

namespace Client

/-- A key of `active_peers_`, `ip:port`. -/
abbrev Key := List UInt8

/-- `make_peer_key`. -/
def makePeerKey (a : Address) : Key := a.ip ++ 0x3a :: Decimal.ofNat a.port.toNat

/-- How `PeerConnection::connect` ends. -/
inductive ConnectStatus
  /-- `connect_async` fails at once. -/
  | error
  /-- The socket cannot be registered with the event loop. -/
  | unregistered
  /-- The socket is connecting. -/
  | inProgress
  /-- The socket is connected at once, and the handshake is sent or not. -/
  | connected (sent : Bool)
  deriving DecidableEq

/-- The state of the program. -/
structure State (T : Torrent) where
  /-- The coordinator, with all connections. -/
  coordinator : Coordinator.State T
  /-- `active_peers_`. -/
  activePeers : AList fun _ : Key => PeerId := ∅
  /-- The keys that `blacklist_peer` was called with. -/
  blacklist : List Key := []
  /-- The number of connections made so far; they are numbered in order. -/
  created : ℕ := 0
  /-- The address of each connection. -/
  address : PeerId → Address := fun _ => ⟨[], 0⟩
  /-- Whether `register_peer` has installed its callbacks on a connection. -/
  registered : PeerId → Bool := fun _ => false
  /-- All that was received on each connection. -/
  heard : PeerId → List UInt8 := fun _ => []
  /-- The calls of `on_handshake`, the latest first. -/
  handshakes : List (PeerId × HandshakeMsg) := []

variable {T : Torrent}

namespace State

/-- Nothing is connected. -/
def init (T : Torrent) (disk : Disk) : State T := { coordinator := .init T disk }

/-- A connection. -/
def connection (w : State T) (p : PeerId) : PeerConnection := w.coordinator.connections p

/-- The key of a connection. -/
def key (w : State T) (p : PeerId) : Key := makePeerKey (w.address p)

/-- The peers that were reported to have sent a bad piece. -/
def corrupted (w : State T) : List PeerId :=
  w.coordinator.trace.filterMap fun
    | .peerCorrupted p => some p
    | _ => none

/-- `is_blacklisted`. A peer that sent a bad piece has been blacklisted by the callback of
`main`. -/
def isBlacklisted (w : State T) (key : Key) : Bool :=
  key ∈ w.blacklist || key ∈ w.corrupted.map w.key

/-- `active_connection_count`. -/
def activeConnectionCount (w : State T) : ℕ := w.activePeers.keys.length

/-- Replace a connection. -/
def setConnection (w : State T) (p : PeerId) (c : PeerConnection) : State T :=
  { w with coordinator := w.coordinator.setConnection p c }

end State

/-- The environment as `main` sets it up: a bad piece has its sender blacklisted. -/
def wired (env : Env) : Env := { env with blacklists := true }

/-- A connection is closed, and its `on_disconnect` callback called. The callback of the
peer manager takes it out of `active_peers_`. -/
def disconnect (p : PeerId) (w : State T) : State T :=
  if (w.connection p).state = .disconnected then w
  else
    { w with
      coordinator := Coordinator.disconnect p w.coordinator
      activePeers := if w.registered p then w.activePeers else w.activePeers.erase (w.key p) }

/-- `PeerConnection::connect`, on a new connection. -/
def connect (p : PeerId) (w : State T) : ConnectStatus → State T
  | .error | .unregistered => disconnect p w
  | .inProgress => w.setConnection p { w.connection p with state := .connecting }
  | .connected true => w.setConnection p { w.connection p with state := .handshaking }
  | .connected false =>
    disconnect p (w.setConnection p { w.connection p with state := .handshaking })

/-- `connect_to_peer`. -/
def connectToPeer (maxConnections : ℕ) (w : State T) (a : Address) (status : ConnectStatus) :
    State T :=
  let key := makePeerKey a
  if maxConnections ≤ w.activeConnectionCount then w
  else if w.isBlacklisted key then w
  else if (w.activePeers.lookup key).isSome then w
  else
    let p := w.created
    connect p
      { w with
        activePeers := w.activePeers.insert key p
        created := w.created + 1
        address := Function.update w.address p a } status

/-- The loop of `add_peers`; its checks are those of `connect_to_peer`, save that it ends
when there is no room. -/
def addPeers (maxConnections : ℕ) : List (Address × ConnectStatus) → State T → State T
  | [], w => w
  | (a, status) :: peers, w =>
    if maxConnections ≤ w.activeConnectionCount then w
    else if w.isBlacklisted (makePeerKey a) then addPeers maxConnections peers w
    else if (w.activePeers.lookup (makePeerKey a)).isSome then addPeers maxConnections peers w
    else addPeers maxConnections peers (connectToPeer maxConnections w a status)

/-- `blacklist_peer`. -/
def blacklistPeer (a : Address) (w : State T) : State T :=
  let w := { w with blacklist := makePeerKey a :: w.blacklist }
  match w.activePeers.lookup (makePeerKey a) with
  | none => w
  | some p => disconnect p w

/-- The socket of a connection is connected, or connecting has failed; then the handshake is
sent, or not. -/
def established (p : PeerId) (ok : Bool) (w : State T) : State T :=
  if (w.connection p).state = .connecting then
    if ok then w.setConnection p { w.connection p with state := .handshaking } else disconnect p w
  else w

/-- The `on_handshake` callback: `main` has the coordinator register the peer, and the peer
manager then sends its Interested. -/
def onHandshake (env : Env) (p : PeerId) (h : HandshakeMsg) (w : State T) : State T :=
  { w with
    coordinator :=
      Coordinator.sendMessage env p .interestedMsg (Coordinator.registerPeer p w.coordinator)
    registered := Function.update w.registered p true
    handshakes := (p, h) :: w.handshakes }

/-- One pass of `process_rx_buffer`. What comes of a read past the end of the buffer is not
followed. -/
def pass (env : Env) (p : PeerId) (w : State T) : State T :=
  match (w.connection p).rxPass with
  | .error _ => w
  | .ok (.stop c) => w.setConnection p c
  | .ok (.refuse c) => disconnect p (w.setConnection p c)
  | .ok (.handshake h c) => onHandshake env p h (w.setConnection p c)
  | .ok (.frame none c) => w.setConnection p c
  | .ok (.frame (some m) c) =>
    { w with
      coordinator :=
        Coordinator.step env (w.coordinator.setConnection p c) (.message p m) }

/-- What can happen. -/
inductive Input
  /-- `add_peers`, with how connecting to each peer ends. -/
  | addPeers (peers : List (Address × ConnectStatus))
  /-- `connect_to_peer`. -/
  | connectToPeer (a : Address) (status : ConnectStatus)
  /-- `blacklist_peer`. -/
  | blacklistPeer (a : Address)
  /-- Connecting ends, well or not. -/
  | established (p : PeerId) (ok : Bool)
  /-- Bytes are received on a connection. -/
  | received (p : PeerId) (bytes : List UInt8)
  /-- A pass of `process_rx_buffer`. -/
  | pass (p : PeerId)
  /-- A connection is closed, by the peer, by an error or by us. -/
  | disconnect (p : PeerId)
  deriving DecidableEq

/-- The `recv` calls of `handle_read` append what they read to the buffer. A socket that is not
connected has nothing to be read. -/
def receive (p : PeerId) (bytes : List UInt8) (w : State T) : State T :=
  let c := w.connection p
  if c.state = .handshaking ∨ c.state = .active then
    { w.setConnection p { c with rxBuffer := c.rxBuffer ++ bytes } with
      heard := Function.update w.heard p (w.heard p ++ bytes) }
  else w

/-- **One step of the program.** An event of a connection that does not exist is none. -/
def step (env : Env) (maxConnections : ℕ) (w : State T) : Input → State T
  | .addPeers peers => addPeers maxConnections peers w
  | .connectToPeer a status => connectToPeer maxConnections w a status
  | .blacklistPeer a => blacklistPeer a w
  | .established p ok => if p < w.created then established p ok w else w
  | .received p bytes => if p < w.created then receive p bytes w else w
  | .pass p => if p < w.created then pass (wired env) p w else w
  | .disconnect p => if p < w.created then disconnect p w else w

end Client

end TransferEngine
