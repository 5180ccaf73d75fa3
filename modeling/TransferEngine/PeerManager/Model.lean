import TransferEngine.Client.Model
import TransferEngine.Lib.Maps
import TransferEngine.Lib.Runs

/-!
# The peer manager

`PeerManager` of `peer_manager.hpp` on its own: whom it connects to, whatever it is wired to.
Its callbacks, and those of its connections, run code of the caller, which may call the manager
again, close any connection, and replace the `on_disconnect` callback of a connection, as
`DownloadCoordinator::register_peer` does. So the manager is given with the functions that are
under way, like a connection (`TransferEngine.Endpoint`), and what `main` wires it to is one way
for the code of the caller to behave.

Of a connection only the address, the state and the callback matter here. It is closed by its
peer, by an error, by a send that fails or by the caller; each of these is
`TransferEngine.PeerManager.Input.disconnect`, and closing it calls its `on_disconnect` callback. A
connection is numbered by the order in which it was made.
-/

namespace TransferEngine

/-- A connection, as its manager sees it. -/
structure Peer where
  /-- The address it was made for. -/
  address : Address := ⟨[], 0⟩
  /-- Its state. -/
  state : ConnectionState := .idle
  /-- Whether its `on_disconnect` callback is the one of the manager. -/
  managed : Bool := true

namespace PeerManager

open Client (Key makePeerKey)

/-- What is still to be done. -/
inductive Task
  /-- Code of the caller, in a callback. -/
  | caller
  /-- The rest of the loop of `add_peers`. -/
  | addPeers (peers : List Address)
  /-- The call of `connect` that ends `connect_to_peer`. -/
  | connect (p : ℕ)
  /-- The Interested that ends the `on_handshake` callback. -/
  | interested (p : ℕ)
  /-- The `active_peers_.erase` that ends the `on_disconnect` callback. -/
  | erase (key : Key)
  deriving DecidableEq

/-- The state of a manager. -/
structure State where
  /-- `active_peers_`. -/
  activePeers : AList fun _ : Key => ℕ := ∅
  /-- `blacklist_`. -/
  blacklist : List Key := []
  /-- The number of connections made so far. -/
  created : ℕ := 0
  /-- The connections. -/
  peer : ℕ → Peer := fun _ => {}
  /-- What is under way, the innermost first. -/
  todo : List Task := []

namespace State

/-- The key of a connection. -/
def key (w : State) (p : ℕ) : Key := makePeerKey (w.peer p).address

/-- The connection is not `Disconnected`. -/
def live (w : State) (p : ℕ) : Bool := (w.peer p).state ≠ .disconnected

/-- `is_blacklisted`. -/
def isBlacklisted (w : State) (key : Key) : Bool := w.blacklist.contains key

/-- `active_connection_count`. -/
def activeConnectionCount (w : State) : ℕ := w.activePeers.keys.length

/-- Put a connection into a state. -/
def setState (w : State) (p : ℕ) (σ : ConnectionState) : State :=
  { w with peer := Function.update w.peer p { w.peer p with state := σ } }

end State

/-- `PeerConnection::disconnect`, with the `on_disconnect` callback: that of the manager runs
code of the caller and then takes the connection out of `active_peers_`. -/
def disconnect (p : ℕ) (w : State) : State :=
  if (w.peer p).state = .disconnected then w
  else
    let w := w.setState p .disconnected
    { w with
      todo := if (w.peer p).managed then .caller :: .erase (w.key p) :: w.todo
        else .caller :: w.todo }

/-- `PeerConnection::connect`. -/
def connect (p : ℕ) (status : Client.ConnectStatus) (w : State) : State :=
  if (w.peer p).state ≠ .idle then w
  else
    match status with
    | .error | .unregistered => disconnect p w
    | .inProgress => w.setState p .connecting
    | .connected true => w.setState p .handshaking
    | .connected false => disconnect p (w.setState p .handshaking)

variable (maxConnections : ℕ)

/-- `connect_to_peer`, up to its call of `connect`. -/
def connectToPeer (a : Address) (w : State) : State :=
  let key := makePeerKey a
  if maxConnections ≤ w.activeConnectionCount then w
  else if w.isBlacklisted key then w
  else if (w.activePeers.lookup key).isSome then w
  else
    { w with
      activePeers := w.activePeers.insert key w.created
      created := w.created + 1
      peer := Function.update w.peer w.created { address := a }
      todo := .connect w.created :: w.todo }

/-- A round of the loop of `add_peers`, with these peers left. -/
def addPeersRound (peers : List Address) (w : State) : State :=
  match peers with
  | [] => w
  | a :: peers =>
    let key := makePeerKey a
    let next := { w with todo := .addPeers peers :: w.todo }
    if maxConnections ≤ w.activeConnectionCount then w
    else if w.isBlacklisted key then next
    else if (w.activePeers.lookup key).isSome then next
    else connectToPeer maxConnections a next

/-- `blacklist_peer`. -/
def blacklistPeer (a : Address) (w : State) : State :=
  let w := { w with blacklist := makePeerKey a :: w.blacklist }
  match w.activePeers.lookup (makePeerKey a) with
  | none => w
  | some p => disconnect p w

/-! ### Runs -/

/-- What can happen next. -/
inductive Input
  /-- The caller calls `add_peers`. -/
  | addPeers (peers : List Address)
  /-- The caller calls `connect_to_peer`. -/
  | connectToPeer (a : Address)
  /-- The caller calls `blacklist_peer`. -/
  | blacklistPeer (a : Address)
  /-- The caller sets the `on_disconnect` callback of a connection. -/
  | onDisconnect (p : ℕ)
  /-- A connection is closed. -/
  | disconnect (p : ℕ)
  /-- A connection is established, and the handshake is sent or not. -/
  | established (p : ℕ) (sent : Bool)
  /-- A handshake arrives. -/
  | handshake (p : ℕ)
  /-- The callback at hand returns. -/
  | returns
  /-- The piece of work that is next is done; how connecting ends, and whether a send does. -/
  | work (status : Client.ConnectStatus) (sent : Bool)

/-- The next piece of work. -/
def work (status : Client.ConnectStatus) (sent : Bool) (w : State) : State :=
  let rest := { w with todo := w.todo.tail }
  match w.todo with
  | .addPeers peers :: _ => addPeersRound maxConnections peers rest
  | .connect p :: _ => connect p status rest
  | .interested p :: _ => if sent then rest else disconnect p rest
  | .erase key :: _ => { rest with activePeers := rest.activePeers.erase key }
  | _ => w

/-- **One step.** -/
def step (w : State) : Input → State
  | .addPeers peers => { w with todo := .addPeers peers :: w.todo }
  | .connectToPeer a => connectToPeer maxConnections a w
  | .blacklistPeer a => blacklistPeer a w
  | .onDisconnect p =>
    { w with peer := Function.update w.peer p { w.peer p with managed := false } }
  | .disconnect p => disconnect p w
  | .established p sent =>
    if sent then w.setState p .handshaking else disconnect p (w.setState p .handshaking)
  | .handshake p =>
    { w.setState p .active with todo := .caller :: .interested p :: w.todo }
  | .returns => { w with todo := w.todo.tail }
  | .work status sent => work maxConnections status sent w

/-- Code of the caller is running. -/
def InCaller (w : State) : Prop := w.todo = [] ∨ w.todo.head? = some .caller

/-- **What the program allows to happen** where it stands. Events of sockets come when nothing
is under way. -/
def Enabled (w : State) : Input → Prop
  | .addPeers _ => InCaller w
  | .connectToPeer _ => InCaller w
  | .blacklistPeer _ => InCaller w
  | .onDisconnect p => InCaller w ∧ p < w.created
  | .disconnect p => InCaller w ∧ p < w.created
  | .established p _ => w.todo = [] ∧ p < w.created ∧ (w.peer p).state = .connecting
  | .handshake p => w.todo = [] ∧ p < w.created ∧ (w.peer p).state = .handshaking
  | .returns => w.todo.head? = some .caller
  | .work _ _ => ¬InCaller w

instance (w : State) : Decidable (InCaller w) := inferInstanceAs (Decidable (_ ∨ _))

instance (w : State) : (a : Input) → Decidable (Enabled w a)
  | .addPeers _ => inferInstanceAs (Decidable (InCaller w))
  | .connectToPeer _ => inferInstanceAs (Decidable (InCaller w))
  | .blacklistPeer _ => inferInstanceAs (Decidable (InCaller w))
  | .onDisconnect _ => inferInstanceAs (Decidable (_ ∧ _))
  | .disconnect _ => inferInstanceAs (Decidable (_ ∧ _))
  | .established _ _ => inferInstanceAs (Decidable (_ ∧ _))
  | .handshake _ => inferInstanceAs (Decidable (_ ∧ _))
  | .returns => inferInstanceAs (Decidable (_ = _))
  | .work _ _ => inferInstanceAs (Decidable (¬_))

/-- **A run** from one state of the manager to another. -/
abbrev Run : State → List Input → State → Prop := Runs.Reach (step maxConnections) Enabled

end PeerManager

end TransferEngine
