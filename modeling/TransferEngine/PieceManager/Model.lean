import TransferEngine.Bitfield
import TransferEngine.Lib.Lists
import TransferEngine.Torrent

/-!
# The piece manager

`PieceManager` of `piece_manager.hpp`: which pieces are complete, and for each piece
in progress which of its blocks are pending, requested or received, together with
the bytes received so far. Every function below is the source's function of the
same name; a method that changes the object returns the changed object.

The map `in_progress_` is a partial function from piece indices. `operator[]`
inserts a default entry where there is none, which is
`TransferEngine.PieceManager.entry`. 32-bit values are natural numbers and the
narrowings are written out.
-/

namespace TransferEngine

/-- `Block::State`. -/
inductive BlockState
  | pending
  | requested
  | received
  deriving DecidableEq, Repr

/-- A block of a piece. -/
structure Block where
  /-- The piece, narrowed to 32 bits. -/
  piece : ℕ
  /-- Offset of the block in the piece. -/
  begin : ℕ
  /-- Number of bytes. -/
  length : ℕ
  /-- Where the block stands. -/
  state : BlockState := .pending
  deriving DecidableEq, Repr

/-- The block with another state. -/
def Block.withState (σ : BlockState) (b : Block) : Block := { b with state := σ }

/-- A piece in progress. -/
structure PieceState where
  /-- The piece, narrowed to 32 bits. -/
  index : ℕ := 0
  /-- Length of the piece. -/
  length : ℕ := 0
  /-- Its blocks. -/
  blocks : List Block := []
  /-- The bytes received so far, zero elsewhere. -/
  data : List UInt8 := []
  /-- The number of blocks accounted for. -/
  blocksReceived : ℕ := 0
  deriving DecidableEq

/-- The piece manager of a torrent. -/
structure PieceManager (T : Torrent) where
  /-- The completed pieces. -/
  bitfield : Bitfield T.count
  /-- The pieces in progress. -/
  inProgress : ℕ → Option PieceState

/-- `std::vector::resize(n, 0)`. -/
def resize (data : List UInt8) (n : ℕ) : List UInt8 :=
  data.take n ++ List.replicate (n - data.length) 0

/-- The block size the pieces are cut into, 16 KiB. -/
def blockSize : ℕ := 16384

/-- The loop of `init_piece_state` that cuts a piece of `length` bytes into blocks,
from `offset` on. A round covers at least one byte, so `length` rounds are enough. -/
def cutBlocks (piece length : ℕ) : ℕ → ℕ → List Block
  | 0, _ => []
  | fuel + 1, offset =>
    if offset < length then
      let len := min blockSize (length - offset)
      { piece := piece, begin := offset, length := len, state := .pending } ::
        cutBlocks piece length fuel (offset + len)
    else []

/-- The part of `block_received` that works on the entry of the piece: find the block
that starts at `begin`, mark it received and copy its bytes. The block is marked
before its size is looked at, and counted only if the bytes fit the piece. -/
def PieceState.storeBlock (state : PieceState) (begin : ℕ) (blockData : List UInt8) :
    PieceState :=
  match state.blocks.find? (·.begin == begin) with
  | some block =>
    if block.state ≠ .received then
      let state := { state with
        blocks := state.blocks.modifyFirst (·.begin == begin) (Block.withState .received) }
      if begin + blockData.length ≤ state.data.length then
        { state with
          data := state.data.overwrite begin blockData
          blocksReceived := state.blocksReceived + 1 }
      else state
    else state
  | none => state

namespace PieceManager

variable {T : Torrent}

/-- A piece manager with nothing downloaded. -/
def init (T : Torrent) : PieceManager T where
  bitfield := Bitfield.empty T.count
  inProgress := fun _ => none

/-- Whether the piece is complete and verified. -/
def hasPiece (pm : PieceManager T) (pieceIdx : ℕ) : Bool := pm.bitfield.has pieceIdx

/-- Set the bit of a piece and keep its buffers; nothing in the program calls it. -/
def markCompleted (pm : PieceManager T) (pieceIdx : ℕ) : PieceManager T :=
  { pm with bitfield := pm.bitfield.set pieceIdx true }

/-- `in_progress_[piece_idx]`: the entry, default-constructed where there is none. -/
def entry (pm : PieceManager T) (pieceIdx : ℕ) : PieceState :=
  (pm.inProgress pieceIdx).getD {}

/-- The manager with the entry of a piece replaced. -/
def put (pm : PieceManager T) (pieceIdx : ℕ) (st : PieceState) : PieceManager T :=
  { pm with inProgress := Function.update pm.inProgress pieceIdx (some st) }

/-- `in_progress_.erase(piece_idx)`. -/
def erase (pm : PieceManager T) (pieceIdx : ℕ) : PieceManager T :=
  { pm with inProgress := Function.update pm.inProgress pieceIdx none }

variable (T) in
/-- The blocks of a piece nobody has asked for yet. -/
def freshBlocks (pieceIdx : ℕ) : List Block :=
  cutBlocks (u32 pieceIdx) (T.getPieceLength pieceIdx) (T.getPieceLength pieceIdx) 0

/-- Make sure the piece has an entry with its blocks cut. -/
def initPieceState (pm : PieceManager T) (pieceIdx : ℕ) : PieceManager T :=
  let state := pm.entry pieceIdx
  if state.blocks ≠ [] then pm
  else
    pm.put pieceIdx
      { state with
        index := u32 pieceIdx
        length := T.getPieceLength pieceIdx
        data := resize state.data (T.getPieceLength pieceIdx)
        blocks := freshBlocks T pieceIdx }

/-- The next pending block of the piece, which becomes requested. -/
def getNextBlock (pm : PieceManager T) (pieceIdx : ℕ) : Option Block × PieceManager T :=
  if pm.hasPiece pieceIdx then (none, pm)
  else
    let pm := pm.initPieceState pieceIdx
    let state := pm.entry pieceIdx
    match state.blocks.find? (·.state == .pending) with
    | some block =>
      (some (block.withState .requested),
        pm.put pieceIdx { state with
          blocks := state.blocks.modifyFirst (·.state == .pending) (Block.withState .requested) })
    | none => (none, pm)

/-- Take in the bytes of a block. The answer is whether the piece is now fully
received. -/
def blockReceived (pm : PieceManager T) (pieceIdx begin : ℕ) (blockData : List UInt8) :
    Bool × PieceManager T :=
  if pm.hasPiece pieceIdx then (false, pm)
  else
    let pm := pm.initPieceState pieceIdx
    let state := (pm.entry pieceIdx).storeBlock begin blockData
    (state.blocksReceived == state.blocks.length, pm.put pieceIdx state)

/-- The bytes of a piece in progress. -/
def getPieceData (pm : PieceManager T) (pieceIdx : ℕ) : List UInt8 :=
  match pm.inProgress pieceIdx with
  | some st => st.data
  | none => []

/-- Compare the digest of a piece in progress with the one of the metadata. The
access `piece_hashes[piece_idx]` is unchecked: past the end it reads whatever lies
there, which is the argument `garbage`. -/
def validatePiece (pm : PieceManager T) (sha1 : List UInt8 → Digest) (garbage : Digest)
    (pieceIdx : ℕ) : Bool :=
  match pm.inProgress pieceIdx with
  | none => false
  | some st => sha1 st.data == (T.pieceHashes[pieceIdx]?).getD garbage

/-- The piece is complete: set its bit, drop its buffers. -/
def pieceCompleted (pm : PieceManager T) (pieceIdx : ℕ) : PieceManager T :=
  { pm with bitfield := pm.bitfield.set pieceIdx true }.erase pieceIdx

/-- The piece failed its check: drop its buffers. -/
def pieceFailed (pm : PieceManager T) (pieceIdx : ℕ) : PieceManager T := pm.erase pieceIdx

/-- Whether a piece has an entry. -/
def isInProgress (pm : PieceManager T) (pieceIdx : ℕ) : Bool := (pm.inProgress pieceIdx).isSome

/-- Whether some block of the piece is still to be asked for. -/
def hasPendingBlocks (pm : PieceManager T) (pieceIdx : ℕ) : Bool :=
  if pm.hasPiece pieceIdx then false
  else
    match pm.inProgress pieceIdx with
    | none => true
    | some st => st.blocks.any (·.state == .pending)

/-- A request came to nothing: a requested block is pending again. -/
def blockRequestFailed (pm : PieceManager T) (pieceIdx begin : ℕ) : PieceManager T :=
  match pm.inProgress pieceIdx with
  | none => pm
  | some state =>
    match state.blocks.find? (·.begin == begin) with
    | some block =>
      if block.state = .requested then
        pm.put pieceIdx { state with
          blocks := state.blocks.modifyFirst (·.begin == begin) (Block.withState .pending) }
      else pm
    | none => pm

end PieceManager

end TransferEngine
