import TransferEngine.Lib.Runs
import TransferEngine.Receiving.Model

/-!
# A connection with its callbacks

`PeerConnection` in full: connecting, receiving, sending and closing, with code of the caller
running in the callbacks. That code may call back into the connection, which may then be
closed under the function that called it; what matters is what the interrupted functions do
when they go on.

So a connection is given with the functions that are under way
(`TransferEngine.Endpoint.todo`): what is still to be done when the callback at hand returns,
the innermost first. The inputs are the calls of the caller, which are possible when nothing is
under way or a callback is running, the events of the socket, which come when nothing is under
way and the socket is registered with the event loop, and the pieces of work that are next.
Everything that happens on the outside is recorded (`TransferEngine.Happening`).

A callback that is not set is one that does nothing. `update_epoll_interests` has no part here:
which events the loop is asked to watch only limits which of them come. What `recv` and `send`
answer comes with the work that calls them, not with the event. A read or a write out of bounds
ends the run (`TransferEngine.Task.crashed`).
-/

namespace TransferEngine

/-- What a call of `send` answers. -/
inductive Sent
  /-- So many bytes are accepted. -/
  | bytes (n : ℕ)
  /-- `EAGAIN`: no more for now. -/
  | again
  /-- `EINTR`. -/
  | interrupted
  /-- Any other error. -/
  | error
  deriving DecidableEq

/-- What `connect_async` returns. -/
inductive ConnectStatus
  | connected
  | inProgress
  | error
  deriving DecidableEq

/-- What is still to be done. -/
inductive Task
  /-- Code of the caller, in a callback. -/
  | caller
  /-- A call of `handle_read`. -/
  | handleRead
  /-- The rest of the loop of `process_rx_buffer`. -/
  | rxLoop
  /-- A call of `handle_write`. -/
  | handleWrite
  /-- Nothing: a buffer was left. -/
  | crashed
  deriving DecidableEq

/-- What happens on the outside of a connection. -/
inductive Happening
  /-- The connection enters a state. -/
  | entered (state : ConnectionState)
  /-- A callback is called. -/
  | call (e : Callback)
  /-- Bytes are appended to `tx_buffer_`. -/
  | queued (bytes : List UInt8)
  /-- Bytes are handed to the socket, which accepts so many of them. -/
  | handed (bytes : List UInt8) (accepted : ℕ)
  deriving DecidableEq

/-- A connection, with the functions that are under way. -/
structure Endpoint where
  /-- The state, the flags and the receive buffer. -/
  connection : PeerConnection := {}
  /-- Bytes to be sent. -/
  txBuffer : List UInt8 := []
  /-- The socket is open and registered with the event loop. -/
  registered : Bool := false
  /-- What is under way, the innermost first. -/
  todo : List Task := []
  /-- What happened so far. -/
  trace : List Happening := []

/-- The loop of `handle_write` over what `send` answers: what happens, the bytes that are left,
and whether the loop ends in an error. -/
def writeLoop : List UInt8 → List Sent → List Happening × List UInt8 × Bool
  | [], _ => ([], [], false)
  | a :: tx, .bytes n :: answers =>
    let out := writeLoop ((a :: tx).drop n) answers
    (.handed (a :: tx) (min n (tx.length + 1)) :: out.1, out.2)
  | a :: tx, .interrupted :: answers =>
    let out := writeLoop (a :: tx) answers
    (.handed (a :: tx) 0 :: out.1, out.2)
  | a :: tx, .error :: _ => ([.handed (a :: tx) 0], a :: tx, true)
  | a :: tx, .again :: _ => ([.handed (a :: tx) 0], a :: tx, false)
  | a :: tx, [] => ([.handed (a :: tx) 0], a :: tx, false)

namespace Endpoint

/-- Enter a state. -/
def enter (σ : ConnectionState) (c : Endpoint) : Endpoint :=
  { c with
    connection := { c.connection with state := σ }
    trace := c.trace ++ [.entered σ] }

/-- Call a callback: code of the caller runs now. -/
def call (e : Callback) (c : Endpoint) : Endpoint :=
  { c with
    todo := .caller :: c.todo
    trace := c.trace ++ [.call e] }

/-- Append bytes to `tx_buffer_`. -/
def queue (bytes : List UInt8) (c : Endpoint) : Endpoint :=
  { c with
    txBuffer := c.txBuffer ++ bytes
    trace := c.trace ++ [.queued bytes] }

/-- Something has to be done first. -/
def push (t : Task) (c : Endpoint) : Endpoint := { c with todo := t :: c.todo }

/-- `disconnect`. -/
def disconnect (c : Endpoint) : Endpoint :=
  if c.connection.state = .disconnected then c
  else
    let c := c.enter .disconnected
    { c with
      registered := false
      connection := { c.connection with rxBuffer := [] }
      txBuffer := [] }.call .onDisconnect

/-- Connecting has failed at once. The buffers are not cleared here. -/
def refused (c : Endpoint) : Endpoint := (c.enter .disconnected).call .onDisconnect

variable (infoHash ourPeerId : Vector UInt8 20)

/-- The handshake we send. -/
def ourHandshake : HandshakeMsg :=
  { reserved := Vector.replicate 8 0, infoHash := infoHash, peerId := ourPeerId }

/-- `send_handshake`, up to its call of `handle_write`. -/
def sendHandshake (c : Endpoint) : Endpoint :=
  (c.queue (ourHandshake infoHash ourPeerId).serialize).push .handleWrite

/-- `create_with_socket`: a connection over a socket that is connected already. -/
def createWithSocket : Endpoint :=
  sendHandshake infoHash ourPeerId { connection := { state := .handshaking }, registered := true }

/-- `connect`. -/
def connect (status : ConnectStatus) (regOk : Bool) (c : Endpoint) : Endpoint :=
  if c.connection.state ≠ .idle then c
  else
    let c := c.enter .connecting
    if status = .error then c.refused
    else if regOk = false then c.refused
    else
      let c := { c with registered := true }
      if status = .connected then (c.enter .handshaking).sendHandshake infoHash ourPeerId
      else c

/-- `send_message`, up to its call of `handle_write`. -/
def sendMessage (msg : PeerMessage) (c : Endpoint) : Endpoint :=
  if c.connection.state = .disconnected then c
  else
    let c := { c with connection := c.connection.sending msg }
    match msg.serialize with
    | .error _ => c.push .crashed
    | .ok bytes =>
      let c := c.queue bytes
      if c.connection.state = .handshaking ∨ c.connection.state = .active then
        c.push .handleWrite
      else c

/-- What `handle_events` does last. -/
def whenReady (e : Readiness) : List Task :=
  (if e.readable then [.handleRead] else []) ++ (if e.writable then [.handleWrite] else [])

/-- `handle_events`, up to the first call of a function it calls. -/
def handleEvents (e : Readiness) (c : Endpoint) : Endpoint :=
  if e.failure then c.disconnect
  else if e.rdhup then c.disconnect
  else if c.connection.state = .connecting ∧ e.writable then
    if e.socketError then c.disconnect
    else
      let c := { c with todo := whenReady e ++ c.todo }
      (c.enter .handshaking).sendHandshake infoHash ourPeerId
  else { c with todo := whenReady e ++ c.todo }

/-- `handle_read`, up to its call of `process_rx_buffer`. A closed socket has nothing to
read. -/
def handleRead (answers : List Recv) (c : Endpoint) : Endpoint :=
  let out := readLoop (if c.registered then answers else [.error])
  let c := { c with
    connection := { c.connection with rxBuffer := c.connection.rxBuffer ++ out.1 } }
  match out.2 with
  | .closed => c.disconnect
  | .error => c.disconnect
  | .again => c.push .rxLoop

/-- One pass of the loop of `process_rx_buffer`. -/
def rxStep (c : Endpoint) : Endpoint :=
  match c.connection.rxPass with
  | .error _ => c.push .crashed
  | .ok (.stop conn) => { c with connection := conn }
  | .ok (.refuse conn) => { c with connection := conn }.disconnect
  | .ok (.handshake h conn) =>
    (({ c with connection := conn }.enter .active).push .rxLoop).call (.onHandshake h)
  | .ok (.frame none conn) => { c with connection := conn }.push .rxLoop
  | .ok (.frame (some m) conn) => ({ c with connection := conn }.push .rxLoop).call (.onMessage m)

/-- `handle_write`. -/
def handleWrite (answers : List Sent) (c : Endpoint) : Endpoint :=
  if c.txBuffer = [] then c
  else
    let out := writeLoop c.txBuffer (if c.registered then answers else [.error])
    let c := { c with txBuffer := out.2.1, trace := c.trace ++ out.1 }
    if out.2.2 then c.disconnect else c

/-! ### Runs -/

/-- What can happen next. -/
inductive Input
  /-- The caller calls `connect`; what `connect_async` and `register_fd` return. -/
  | connect (status : ConnectStatus) (regOk : Bool)
  /-- The caller calls `disconnect`. -/
  | disconnect
  /-- The caller calls `send_message`. -/
  | sendMessage (msg : PeerMessage)
  /-- The callback at hand returns. -/
  | returns
  /-- The event loop reports an event of the socket. -/
  | events (e : Readiness)
  /-- `handle_read` is executed; what `recv` answers. -/
  | handleRead (answers : List Recv)
  /-- A pass of the receive loop is executed. -/
  | rxStep
  /-- `handle_write` is executed; what `send` answers. -/
  | handleWrite (answers : List Sent)

/-- **One step.** -/
def step (c : Endpoint) : Input → Endpoint
  | .connect status regOk => c.connect infoHash ourPeerId status regOk
  | .disconnect => c.disconnect
  | .sendMessage msg => c.sendMessage msg
  | .returns => { c with todo := c.todo.tail }
  | .events e => c.handleEvents infoHash ourPeerId e
  | .handleRead answers => { c with todo := c.todo.tail }.handleRead answers
  | .rxStep => { c with todo := c.todo.tail }.rxStep
  | .handleWrite answers => { c with todo := c.todo.tail }.handleWrite answers

/-- Code of the caller is running. -/
def InCaller (c : Endpoint) : Prop := c.todo = [] ∨ c.todo.head? = some .caller

/-- **What the program allows to happen** where it stands. -/
def Enabled (c : Endpoint) : Input → Prop
  | .connect _ _ => c.InCaller
  | .disconnect => c.InCaller
  | .sendMessage _ => c.InCaller
  | .returns => c.todo.head? = some .caller
  | .events _ => c.todo = [] ∧ c.registered = true
  | .handleRead _ => c.todo.head? = some .handleRead
  | .rxStep => c.todo.head? = some .rxLoop
  | .handleWrite _ => c.todo.head? = some .handleWrite

instance (c : Endpoint) : (a : Input) → Decidable (c.Enabled a)
  | .connect _ _ => inferInstanceAs (Decidable (_ ∨ _))
  | .disconnect => inferInstanceAs (Decidable (_ ∨ _))
  | .sendMessage _ => inferInstanceAs (Decidable (_ ∨ _))
  | .returns => inferInstanceAs (Decidable (_ = _))
  | .events _ => inferInstanceAs (Decidable (_ ∧ _))
  | .handleRead _ => inferInstanceAs (Decidable (_ = _))
  | .rxStep => inferInstanceAs (Decidable (_ = _))
  | .handleWrite _ => inferInstanceAs (Decidable (_ = _))

/-- **A run** from a new connection. -/
abbrev Run (infoHash ourPeerId : Vector UInt8 20) : List Input → Endpoint → Prop :=
  Runs.Reach (step infoHash ourPeerId) Enabled {}

end Endpoint

end TransferEngine
