import Mathlib.Data.List.AList
import TransferEngine.DiskIOManager
import TransferEngine.PeerConnection
import TransferEngine.PieceManager.Model
import TransferEngine.PiecePicker

/-!
# The download coordinator

`DownloadCoordinator` of `download_coordinator.hpp`, together with what it runs in: the
piece manager and the piece picker it shares, the peer connections it sends on, and the
callbacks that `main` hangs on it. A step (`TransferEngine.Coordinator.step`) is one event
of the event loop, with everything the source does before it returns to the loop.

What the program does not decide is in `TransferEngine.Env`: the digest function, which
sends fail, the random draws, the order in which the hash map is walked, what the disk
answers. Each is a function of the trace so far, so it may answer differently every time.

## References into the map

A send can fail; the connection is then closed on the spot, and closing it takes the peer
out of `peers_`. Handlers hold references and iterators into `peers_` across sends. Here
`peers` is a keyed map and every use of such a reference is a lookup: where it fails, the
source touches an entry that is gone, and the trace records `Event.dangling`.

What the source does from there on is undefined. The step is total all the same: the loop or the
handler that used the entry returns, the walks of `cancel_piece_requests` and of the announcement
go on to the next key, and the run goes on. Nothing that happens after such an event tells
anything about the program, so what is said of the state or of the trace at the end of a run is
said of runs all of whose steps are defined (`TransferEngine.Coordinator.Defined`), unless it only
says when such an event occurs. The access to `piece_hashes` past its end is recorded as
`Event.hashOutOfBounds`; what is read there may be any digest.
-/

namespace TransferEngine

/-- A connection, the key of `peers_`. -/
abbrev PeerId := ℕ

/-- What is recorded of a run, besides the state. -/
inductive Event
  /-- A message went to a connection that was not closed. -/
  | sent (p : PeerId) (m : PeerMessage)
  /-- A piece was picked for a peer. -/
  | picked (p : PeerId) (i : ℕ)
  /-- `on_piece_completed` was called. -/
  | pieceCompleted (i : ℕ) (d : List UInt8)
  /-- `write_piece` was called. Whether it threw is what the program learns of the outcome. -/
  | wrote (i : ℕ) (d : List UInt8) (outcome : WriteOutcome)
  /-- `on_peer_corrupted` was called. -/
  | peerCorrupted (p : PeerId)
  /-- An entry of `peers_` was used after it had been erased. What follows has no meaning. -/
  | dangling (p : PeerId)
  /-- `piece_hashes` was indexed past its end. -/
  | hashOutOfBounds (i : ℕ)
  deriving DecidableEq

/-- Whether the behaviour of the source is undefined from here on. -/
def Event.isFault : Event → Bool
  | .dangling _ => true
  | _ => false

/-- **What the program does not decide.** -/
structure Env where
  /-- SHA-1. -/
  sha1 : List UInt8 → Digest
  /-- What is read past the end of `piece_hashes`. -/
  garbage : ℕ → Digest
  /-- Whether a send fails, and closes its connection. -/
  sendFails : List Event → PeerId → PeerMessage → Bool
  /-- The number drawn for the piece picker. -/
  draw : List Event → ℕ
  /-- The order in which a walk through `peers_` meets the keys. -/
  order : List Event → List PeerId → List PeerId
  /-- A walk meets each key once. -/
  order_perm : ∀ tr keys, (order tr keys).Perm keys
  /-- What the operating system answers to opening and writing a file. -/
  io : List Event → FileInfo → IoOutcome
  /-- The output directory. -/
  outputDir : OutputDir
  /-- Whether `on_peer_corrupted` is the callback of `main`, which blacklists the peer and
  so closes its connection. -/
  blacklists : Bool

/-- A request that was sent and not answered. -/
structure RequestedBlock where
  /-- The piece. -/
  piece : ℕ
  /-- Offset in the piece. -/
  begin : ℕ
  /-- Number of bytes. -/
  length : ℕ
  deriving DecidableEq, Repr

/-- What the coordinator knows of a peer. -/
structure PeerState (T : Torrent) where
  /-- The pieces the peer has. -/
  bitfield : Bitfield T.count := Bitfield.empty T.count
  /-- The requests we wait for. -/
  outstanding : List RequestedBlock := []
  /-- The piece we are asking the peer for. -/
  activePiece : Option (Fin T.count) := none
  deriving DecidableEq

/-- The request for a block. -/
def Block.request (block : Block) : RequestedBlock := ⟨block.piece, block.begin, block.length⟩

/-- The Request message for a block. -/
def Block.requestMsg (block : Block) : PeerMessage :=
  .requestMsg (.ofNat block.piece) (.ofNat block.begin) (.ofNat block.length)

/-- The Cancel message for a request. -/
def RequestedBlock.cancelMsg (r : RequestedBlock) : PeerMessage :=
  .cancelMsg (.ofNat r.piece) (.ofNat r.begin) (.ofNat r.length)

/-- The peer after a block of piece `i` is requested from it. -/
def PeerState.push {T : Torrent} (state : PeerState T) (i : Fin T.count) (block : Block) :
    PeerState T :=
  { state with activePiece := some i, outstanding := state.outstanding ++ [block.request] }

namespace Coordinator

/-- The state of the coordinator and of everything it shares. -/
structure State (T : Torrent) where
  /-- The piece manager. -/
  pieceManager : PieceManager T
  /-- The piece picker. -/
  piecePicker : PiecePicker T.count
  /-- The registered peers. -/
  peers : AList fun _ : PeerId => PeerState T
  /-- All connections. -/
  connections : PeerId → PeerConnection
  /-- The disk. -/
  disk : Disk
  /-- What happened, the latest first. -/
  trace : List Event

variable {T : Torrent}

namespace State

/-- Nothing downloaded, nobody connected. -/
def init (T : Torrent) (disk : Disk) : State T where
  pieceManager := PieceManager.init T
  piecePicker := PiecePicker.init T.count
  peers := ∅
  connections := fun _ => {}
  disk := disk
  trace := []

/-- Record an event. -/
def log (s : State T) (e : Event) : State T := { s with trace := e :: s.trace }

/-- Replace the entry of a peer. -/
def setPeer (s : State T) (p : PeerId) (state : PeerState T) : State T :=
  { s with peers := s.peers.insert p state }

/-- Replace a connection. -/
def setConnection (s : State T) (p : PeerId) (c : PeerConnection) : State T :=
  { s with connections := Function.update s.connections p c }

/-- Whether the peer chokes us. -/
def choking (s : State T) (p : PeerId) : Bool := (s.connections p).peerChoking

end State

/-! ### Leaving -/

/-- Return requests to the piece manager. -/
def failRequests (pm : PieceManager T) (reqs : List RequestedBlock) : PieceManager T :=
  reqs.foldl (fun pm req => pm.blockRequestFailed req.piece req.begin) pm

/-- `register_peer`. An entry that is there already is overwritten. -/
def registerPeer (p : PeerId) (s : State T) : State T := s.setPeer p {}

/-- `unregister_peer`. -/
def unregisterPeer (p : PeerId) (s : State T) : State T :=
  match s.peers.lookup p with
  | none => s
  | some state =>
    { s with
      piecePicker := s.piecePicker.removePeerBitfield state.bitfield
      pieceManager := failRequests s.pieceManager state.outstanding
      peers := s.peers.erase p }

/-- `PeerConnection::disconnect`, with `on_disconnect` unregistering the peer. -/
def disconnect (p : PeerId) (s : State T) : State T :=
  let c := s.connections p
  if c.state = .disconnected then s
  else unregisterPeer p (s.setConnection p { c with state := .disconnected, rxBuffer := [] })

/-- `PeerConnection::send_message`. In the states in which the socket is written at once
the write may fail, and the connection is closed. -/
def sendMessage (env : Env) (p : PeerId) (m : PeerMessage) (s : State T) : State T :=
  let c := s.connections p
  if c.state = .disconnected then s
  else
    let s := (s.setConnection p (c.sending m)).log (.sent p m)
    if (c.state = .handshaking ∨ c.state = .active) ∧ env.sendFails s.trace p m = true then
      disconnect p s
    else s

/-! ### Asking for blocks -/

/-- `completed_or_full`: the pieces there is nothing to ask for in. -/
def completedOrFull (pm : PieceManager T) : Bitfield T.count :=
  (List.range T.count).foldl
    (fun b i => if pm.hasPendingBlocks i then b else b.set i true) pm.bitfield

/-- The piece to ask a peer for: its active piece, or a newly picked one. -/
def choosePiece (env : Env) (p : PeerId) (state : PeerState T) (s : State T) :
    Option (Fin T.count × State T) :=
  match state.activePiece with
  | some i => some (i, s)
  | none =>
    match s.piecePicker.pickPiece state.bitfield (completedOrFull s.pieceManager)
        (env.draw s.trace) with
    | none => none
    | some i => some (i, s.log (.picked p i))

/-- The loop of `fill_request_pipeline`, with a bound on the number of rounds. -/
def fillLoop (env : Env) (p : PeerId) : ℕ → State T → State T
  | 0, s => s
  | fuel + 1, s =>
    match s.peers.lookup p with
    | none => s.log (.dangling p)
    | some state =>
      if state.outstanding.length < 5 then
        match choosePiece env p state s with
        | none => s
        | some (i, s) =>
          match s.pieceManager.getNextBlock i with
          | (none, pm) =>
            fillLoop env p fuel
              ({ s with pieceManager := pm }.setPeer p { state with activePiece := none })
          | (some block, pm) =>
            fillLoop env p fuel (sendMessage env p block.requestMsg
              ({ s with pieceManager := pm }.setPeer p (state.push i block)))
      else s

/-- `fill_request_pipeline`. A round sends one of at most five requests, gives up a piece,
or opens an empty piece, and there are no more rounds than this. -/
def fillRequestPipeline (env : Env) (p : PeerId) (s : State T) : State T :=
  if s.choking p then s
  else
    match s.peers.lookup p with
    | none => s
    | some _ => fillLoop env p (T.count + 12) s

/-! ### Finishing a piece -/

/-- The inner loop of `cancel_piece_requests`: `kept` has been passed over, `rest` is still
to be looked at, and the list of the peer is the two together. -/
def cancelLoop (env : Env) (pieceIdx : ℕ) (q : PeerId) (kept : List RequestedBlock) :
    List RequestedBlock → State T → State T
  | [], s => s
  | r :: rest, s =>
    if r.piece = pieceIdx then
      let s := sendMessage env q r.cancelMsg s
      match s.peers.lookup q with
      | none => s.log (.dangling q)
      | some state =>
        cancelLoop env pieceIdx q kept rest
          (s.setPeer q { state with outstanding := kept ++ rest })
    else cancelLoop env pieceIdx q (kept ++ [r]) rest s

/-- Forget the active piece of a peer, if it is the one given. -/
def deactivate (pieceIdx : ℕ) (q : PeerId) (state : PeerState T) (s : State T) : State T :=
  if state.activePiece.map Fin.val = some pieceIdx then
    s.setPeer q { state with activePiece := none }
  else s

/-- The body of the walk of `cancel_piece_requests`. A fault inside the loop has been
recorded there. -/
def cancelPeer (env : Env) (pieceIdx : ℕ) (s : State T) (q : PeerId) : State T :=
  match s.peers.lookup q with
  | none => s
  | some state =>
    let s := cancelLoop env pieceIdx q [] state.outstanding s
    match s.peers.lookup q with
    | none => s
    | some state => deactivate pieceIdx q state s

/-- `cancel_piece_requests`. -/
def cancelPieceRequests (env : Env) (pieceIdx : ℕ) (s : State T) : State T :=
  (env.order s.trace s.peers.keys).foldl (cancelPeer env pieceIdx) s

/-- The body of the walk that announces a piece. The walk goes on from the entry it is at,
so the entry has to be there after the send. -/
def announce (env : Env) (pieceIdx : ℕ) (s : State T) (q : PeerId) : State T :=
  let s := sendMessage env q (.haveMsg (.ofNat pieceIdx)) s
  match s.peers.lookup q with
  | none => s.log (.dangling q)
  | some _ => s

/-- The announcement of a piece to every peer. -/
def broadcastHave (env : Env) (pieceIdx : ℕ) (s : State T) : State T :=
  (env.order s.trace s.peers.keys).foldl (announce env pieceIdx) s

/-- The callback `on_piece_completed` of `main`: write the piece, and let an exception
pass with a word in the log. -/
def onPieceCompleted (env : Env) (pieceIdx : ℕ) (d : List UInt8) (s : State T) : State T :=
  let s := s.log (.pieceCompleted pieceIdx d)
  let (_, disk) := DiskIOManager.writePiece T (env.io s.trace) env.outputDir pieceIdx d s.disk
  let outcome := DiskIOManager.writeOutcome T (env.io s.trace) env.outputDir pieceIdx d s.disk
  { s with disk := disk }.log (.wrote pieceIdx d outcome)

/-- A piece that passed its check is handed on, and then counted as complete. -/
def completePiece (env : Env) (pieceIdx : ℕ) (s : State T) : State T :=
  let s := onPieceCompleted env pieceIdx (s.pieceManager.getPieceData pieceIdx) s
  { s with pieceManager := s.pieceManager.pieceCompleted pieceIdx }

/-- The callback `on_peer_corrupted`. -/
def onPeerCorrupted (env : Env) (p : PeerId) (s : State T) : State T :=
  let s := s.log (.peerCorrupted p)
  if env.blacklists then disconnect p s else s

/-- The end of the Piece handler uses its reference to the entry of the peer once more. -/
def lastUse (p : PeerId) (pieceIdx : ℕ) (s : State T) : State T :=
  match s.peers.lookup p with
  | none => s.log (.dangling p)
  | some state => deactivate pieceIdx p state s

/-- The part of the Piece handler that runs when a piece is fully received: validate it,
then complete it or discard it. -/
def finishPiece (env : Env) (p : PeerId) (pieceIdx : ℕ) (s : State T) : State T :=
  let s := if pieceIdx < T.pieceHashes.length then s else s.log (.hashOutOfBounds pieceIdx)
  let s :=
    if s.pieceManager.validatePiece env.sha1 (env.garbage pieceIdx) pieceIdx then
      broadcastHave env pieceIdx (cancelPieceRequests env pieceIdx (completePiece env pieceIdx s))
    else
      onPeerCorrupted env p { s with pieceManager := s.pieceManager.pieceFailed pieceIdx }
  lastUse p pieceIdx s

/-! ### Messages -/

/-- The Choke handler. -/
def handleChoke (p : PeerId) (state : PeerState T) (s : State T) : State T :=
  { s with pieceManager := failRequests s.pieceManager state.outstanding }.setPeer p
    { state with outstanding := [], activePiece := none }

/-- Express interest, unless we have. -/
def expressInterest (env : Env) (p : PeerId) (wanted : Bool) (s : State T) : State T :=
  if wanted && !(s.connections p).amInterested then sendMessage env p .interestedMsg s else s

/-- Fill the pipeline of a peer that does not choke us. -/
def topOff (env : Env) (p : PeerId) (s : State T) : State T :=
  if s.choking p then s else fillRequestPipeline env p s

/-- The first half of the Bitfield handler: the new bitfield takes the place of the old
one, in the entry of the peer and in the histogram. -/
def recordBitfield (p : PeerId) (bits : List UInt8) (state : PeerState T) (s : State T) : State T :=
  let bitfield := Bitfield.ofBytes bits T.count
  let picker := (s.piecePicker.removePeerBitfield state.bitfield).addPeerBitfield bitfield
  { s with piecePicker := picker }.setPeer p { state with bitfield := bitfield }

/-- The Bitfield handler. -/
def handleBitfield (env : Env) (p : PeerId) (bits : List UInt8) (state : PeerState T)
    (s : State T) : State T :=
  let s := recordBitfield p bits state s
  let interested := (List.range T.count).any fun i =>
    (Bitfield.ofBytes bits T.count).has i && !s.pieceManager.hasPiece i
  topOff env p (expressInterest env p interested s)

/-- The first half of the Have handler: one more piece in the bitfield of the peer. -/
def recordHave (p : PeerId) (idx : ℕ) (state : PeerState T) (s : State T) : State T :=
  if idx < T.count ∧ state.bitfield.has idx = false then
    { s with piecePicker := s.piecePicker.addAvailability idx }.setPeer p
      { state with bitfield := state.bitfield.set idx true }
  else s

/-- The Have handler. -/
def handleHave (env : Env) (p : PeerId) (idx : ℕ) (state : PeerState T) (s : State T) : State T :=
  let s := recordHave p idx state s
  if idx < T.count then expressInterest env p (!s.pieceManager.hasPiece idx) s else s

/-- The first half of the Piece handler: take the block off the list of the peer and give
it to the piece manager. The answer is whether the piece is fully received. -/
def deliver (p : PeerId) (pieceIdx begin : ℕ) (block : List UInt8) (state : PeerState T)
    (s : State T) : Bool × State T :=
  let s := s.setPeer p { state with
    outstanding := state.outstanding.eraseP fun r => r.piece == pieceIdx && r.begin == begin }
  let (completed, pm) := s.pieceManager.blockReceived pieceIdx begin block
  (completed, { s with pieceManager := pm })

/-- The Piece handler. -/
def handlePiece (env : Env) (p : PeerId) (pieceIdx begin : ℕ) (block : List UInt8)
    (state : PeerState T) (s : State T) : State T :=
  let (completed, s) := deliver p pieceIdx begin block state s
  topOff env p (if completed then finishPiece env p pieceIdx s else s)

/-- `handle_peer_message`. -/
def handlePeerMessage (env : Env) (p : PeerId) (m : PeerMessage) (s : State T) : State T :=
  match s.peers.lookup p with
  | none => s
  | some state =>
    match m with
    | .chokeMsg => handleChoke p state s
    | .unchokeMsg => fillRequestPipeline env p s
    | .bitfieldMsg bits => handleBitfield env p bits state s
    | .haveMsg idx => handleHave env p idx.toNat state s
    | .pieceMsg idx begin block => handlePiece env p idx.toNat begin.toNat block state s
    | _ => s

/-! ### Steps -/

/-- What the event loop can bring. -/
inductive Input
  /-- The handshake of a connection is accepted. -/
  | establish (p : PeerId)
  /-- `register_peer`. -/
  | register (p : PeerId)
  /-- `unregister_peer`. -/
  | unregister (p : PeerId)
  /-- `PeerManager` sends its own Interested, after the handshake. -/
  | interested (p : PeerId)
  /-- A connection is closed, by the peer, by an error or by us. -/
  | disconnect (p : PeerId)
  /-- A message arrives. -/
  | message (p : PeerId) (m : PeerMessage)
  deriving DecidableEq

/-- **One event.** A message of a connection that is not active is not delivered. -/
def step (env : Env) (s : State T) : Input → State T
  | .establish p =>
    let c := s.connections p
    if c.state = .disconnected then s else s.setConnection p { c with state := .active }
  | .register p => registerPeer p s
  | .unregister p => unregisterPeer p s
  | .interested p => sendMessage env p .interestedMsg s
  | .disconnect p => disconnect p s
  | .message p m =>
    let c := s.connections p
    if c.state = .active then handlePeerMessage env p m (s.setConnection p (c.received m)) else s

/-- The state after a run. -/
def run (env : Env) (disk : Disk) (l : List Input) : State T := l.foldl (step env) (.init T disk)

/-- **The step is defined**: no entry of `peers_` was used after it had been erased. -/
def Defined (env : Env) (s : State T) (a : Input) : Prop :=
  ∀ e ∈ (step env s a).trace, e.isFault = false

instance (env : Env) (s : State T) (a : Input) : Decidable (Defined env s a) :=
  inferInstanceAs (Decidable (∀ e ∈ (step env s a).trace, e.isFault = false))

/-- Every connection is registered at most once while it is registered, as the handshake
callback of `PeerManager` has it. -/
def RegistersOnce (s : State T) (a : Input) : Prop :=
  ∀ p, a = .register p → s.peers.lookup p = none

instance (s : State T) (a : Input) : Decidable (RegistersOnce s a) :=
  match a with
  | .register p =>
    decidable_of_iff ((s.peers.lookup p).isNone = true)
      ⟨fun h _ hp => by cases hp; exact Option.isNone_iff_eq_none.mp h,
        fun h => Option.isNone_iff_eq_none.mpr (h p rfl)⟩
  | .establish _ | .unregister _ | .interested _ | .disconnect _ | .message _ _ =>
    isTrue (by rintro _ ⟨⟩)

end Coordinator

/-! ### A small environment -/

/-- SHA-1 on the three shortest strings that small runs hash, and zeros elsewhere. -/
def shortDigest (d : List UInt8) : Digest :=
  if d = [] then
    .ofBytes [0xda, 0x39, 0xa3, 0xee, 0x5e, 0x6b, 0x4b, 0x0d, 0x32, 0x55,
      0xbf, 0xef, 0x95, 0x60, 0x18, 0x90, 0xaf, 0xd8, 0x07, 0x09]
  else if d = [0x61] then
    .ofBytes [0x86, 0xf7, 0xe4, 0x37, 0xfa, 0xa5, 0xa7, 0xfc, 0xe1, 0x5d,
      0x1d, 0xdc, 0xb9, 0xea, 0xea, 0xea, 0x37, 0x76, 0x67, 0xb8]
  else if d = [0x62] then
    .ofBytes [0xe9, 0xd7, 0x1f, 0x5e, 0xe7, 0xc9, 0x2d, 0x6d, 0xc9, 0xe9,
      0x2f, 0xfd, 0xad, 0x17, 0xb8, 0xbd, 0x49, 0x41, 0x8f, 0x98]
  else Vector.replicate 20 0

/-- An environment in which no send and no write fails, and nobody is blacklisted. -/
def Env.calm : Env where
  sha1 := shortDigest
  garbage := fun _ => Vector.replicate 20 0
  sendFails := fun _ _ _ => false
  draw := fun _ => 0
  order := fun _ keys => keys
  order_perm := fun _ _ => .refl _
  io := fun _ _ => .good
  outputDir := .plain []
  blacklists := false

/-- A peer connects, tells that it has the first piece, and unchokes us. -/
def Coordinator.arrival (p : PeerId) : List Coordinator.Input :=
  [.establish p, .register p, .message p (.bitfieldMsg [0x80]), .message p .unchokeMsg]

/-- A disk on which the file of `TransferEngine.Torrent.oneByte` has been allocated. -/
def Disk.oneByte : Disk := fun path => if path = [0x61] then some [0] else none

end TransferEngine
