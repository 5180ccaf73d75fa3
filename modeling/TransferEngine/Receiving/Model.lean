import TransferEngine.PeerConnection

/-!
# Receiving

What `PeerConnection` does with the bytes that arrive: the loop of `process_rx_buffer`, the
reads of `handle_read` and the dispatch of `handle_events`, with the callbacks they call.

A callback may close the connection it is called for. Whether it does is left open: it is a
function of all the calls so far (`TransferEngine.Callbacks`).

The receive loop takes its passes one at a time, from
`TransferEngine.PeerConnection.rxPass`. A pass that does not end the loop consumes at least
one byte, save when the length of a frame wraps: then the same message may be handed on
again and again. So there is a bound on the passes, one more than the bytes in the buffer,
and reaching it is recorded as `TransferEngine.RxFault.endless`. A read past the end of the
buffer is recorded as `TransferEngine.RxFault.outOfBounds`.
-/

namespace TransferEngine

/-- A call of one of the callbacks of a connection. -/
inductive Callback
  | onHandshake (h : HandshakeMsg)
  | onMessage (m : PeerMessage)
  | onDisconnect
  deriving DecidableEq

/-- Whether the last of the calls so far closes the connection. -/
abbrev Callbacks := List Callback → Bool

/-- Callbacks that never close the connection. -/
def Callbacks.quiet : Callbacks := fun _ => false

/-- What a run of the receive loop ends in when it does not return. -/
inductive RxFault
  /-- A read left the buffer. -/
  | outOfBounds
  /-- The loop goes on without consuming anything. -/
  | endless
  deriving DecidableEq, Repr

/-- A connection, and what has come of it. -/
structure Receiver where
  /-- The connection. -/
  connection : PeerConnection
  /-- The callbacks that were called, the earliest first. -/
  calls : List Callback := []
  /-- Whether a receive loop did not return. -/
  fault : Option RxFault := none

namespace Receiver

/-- A connection that waits for the handshake. -/
def start : Receiver := { connection := { state := .handshaking } }

/-- `PeerConnection::disconnect`. -/
def disconnect (r : Receiver) : Receiver :=
  if r.connection.state = .disconnected then r
  else
    { r with
      connection := { r.connection with state := .disconnected, rxBuffer := [] }
      calls := r.calls ++ [.onDisconnect] }

/-- Call a callback. -/
def call (callbacks : Callbacks) (e : Callback) (r : Receiver) : Receiver :=
  let r := { r with calls := r.calls ++ [e] }
  if callbacks r.calls then r.disconnect else r

/-- The loop of `process_rx_buffer`, with a bound on the number of passes. -/
def rxLoop (callbacks : Callbacks) : ℕ → Receiver → Receiver
  | 0, r => { r with fault := some .endless }
  | fuel + 1, r =>
    match r.connection.rxPass with
    | .error _ => { r with fault := some .outOfBounds }
    | .ok (.stop c) => { r with connection := c }
    | .ok (.refuse c) => { r with connection := c }.disconnect
    | .ok (.handshake h c) =>
      rxLoop callbacks fuel ({ r with connection := c }.call callbacks (.onHandshake h))
    | .ok (.frame none c) => rxLoop callbacks fuel { r with connection := c }
    | .ok (.frame (some m) c) =>
      rxLoop callbacks fuel ({ r with connection := c }.call callbacks (.onMessage m))

/-- `process_rx_buffer`. -/
def processRxBuffer (callbacks : Callbacks) (r : Receiver) : Receiver :=
  rxLoop callbacks (r.connection.rxBuffer.length + 1) r

/-- Bytes are appended to the buffer. -/
def append (r : Receiver) (bytes : List UInt8) : Receiver :=
  { r with connection := { r.connection with rxBuffer := r.connection.rxBuffer ++ bytes } }

/-- A chunk arrives and is worked through. Nothing happens any more once a loop has not
returned. -/
def feed (callbacks : Callbacks) (r : Receiver) (chunk : List UInt8) : Receiver :=
  if r.fault.isSome then r else (r.append chunk).processRxBuffer callbacks

end Receiver

/-! ### Readiness events -/

/-- What a call of `recv` answers. -/
inductive Recv
  /-- Some bytes. -/
  | bytes (b : List UInt8)
  /-- Zero: the peer has closed its side. -/
  | closed
  /-- `EAGAIN`: nothing more for now. -/
  | again
  /-- `EINTR`. -/
  | interrupted
  /-- Any other error. -/
  | error
  deriving DecidableEq

/-- How the reads of one event end. -/
inductive ReadEnd
  | closed
  | again
  | error
  deriving DecidableEq

/-- The loop of `handle_read` over what `recv` answers: the bytes read, and how the loop
ends. -/
def readLoop : List Recv → List UInt8 × ReadEnd
  | [] => ([], .again)
  | .bytes b :: answers => (b ++ (readLoop answers).1, (readLoop answers).2)
  | .closed :: _ => ([], .closed)
  | .again :: _ => ([], .again)
  | .interrupted :: answers => readLoop answers
  | .error :: _ => ([], .error)

/-- An event of the socket, with what the operating system answers while it is handled. -/
structure Readiness where
  /-- `EPOLLERR` or `EPOLLHUP`. -/
  failure : Bool := false
  /-- `EPOLLRDHUP`: the peer has closed its side. -/
  rdhup : Bool := false
  /-- `EPOLLIN`. -/
  readable : Bool := false
  /-- `EPOLLOUT`. -/
  writable : Bool := false
  /-- Whether `getsockopt` reports that connecting failed. -/
  socketError : Bool := false
  /-- Whether writing to the socket fails. -/
  writeFails : Bool := false
  /-- What `recv` answers, call by call. -/
  answers : List Recv := []

namespace Receiver

/-- `handle_read`: a connection found closed is closed here too, and what was read is
worked through otherwise. -/
def handleRead (callbacks : Callbacks) (answers : List Recv) (r : Receiver) : Receiver :=
  let r := r.append (readLoop answers).1
  match (readLoop answers).2 with
  | .closed => r.disconnect
  | .error => r.disconnect
  | .again => r.processRxBuffer callbacks

/-- `handle_write`, as far as the connection state goes. -/
def handleWrite (fails : Bool) (r : Receiver) : Receiver := if fails then r.disconnect else r

/-- The end of connecting: the handshake is sent. -/
def established (e : Readiness) (r : Receiver) : Receiver :=
  if e.socketError then r.disconnect
  else handleWrite e.writeFails { r with connection := { r.connection with state := .handshaking } }

/-- **`handle_events`.** Once the connection is closed the rest of the function finds a
closed socket, and does nothing. -/
def handleEvents (callbacks : Callbacks) (r : Receiver) (e : Readiness) : Receiver :=
  if e.failure then r.disconnect
  else if e.rdhup then r.disconnect
  else
    let r := if r.connection.state = .connecting ∧ e.writable then r.established e else r
    if r.connection.state = .disconnected then r
    else
      let r := if e.readable then r.handleRead callbacks e.answers else r
      if e.writable then r.handleWrite e.writeFails else r

end Receiver

end TransferEngine
