import Mathlib.Algebra.Ring.Int.Defs
import Mathlib.Algebra.Ring.Nat
import Mathlib.Data.Int.Basic
import Mathlib.Data.List.Basic

/-!
# Torrent metadata

`TorrentMetadata` of `torrent.hpp`, reduced to what the download reads: the piece
geometry, the digest of every piece and the file layout. Integers are the source's
`int64_t` and `int32_t`, here unbounded; where the source narrows one of them the
narrowing is written out.

What the parser guarantees about the piece table, and everything downstream leans
on, is carried by `TransferEngine.Torrent`: the piece count is the number of digests,
and it is a nonnegative `int32_t`.
-/

namespace TransferEngine

/-- A SHA-1 digest, `std::array<uint8_t, 20>`. -/
abbrev Digest := Vector UInt8 20

/-- The digest with the given bytes. -/
def Digest.ofBytes (bs : List UInt8) : Digest :=
  ⟨((List.range 20).map fun i => bs.getD i 0).toArray, by simp⟩

/-- One file of the torrent. -/
structure FileInfo where
  /-- Path relative to the output directory, as bytes. -/
  path : List UInt8
  /-- Size in bytes. -/
  length : ℤ
  /-- Offset in the concatenation of all files. -/
  offset : ℤ
  deriving DecidableEq

/-- The fields of `TorrentMetadata` that the download reads. -/
structure TorrentMetadata where
  /-- Bytes per piece. -/
  pieceLength : ℤ
  /-- Bytes of all files together. -/
  totalLength : ℤ
  /-- Number of pieces. -/
  numPieces : ℤ
  /-- The digest of each piece. -/
  pieceHashes : List Digest
  /-- The file layout. -/
  files : List FileInfo
  deriving DecidableEq

/-- A narrowing `static_cast<uint32_t>`. -/
def u32 (x : ℤ) : ℕ := (x % 2 ^ 32).toNat

theorem u32_of_lt {n : ℕ} (h : n < 2 ^ 32) : u32 n = n := by
  rw [u32]
  omega

/-- `static_cast<size_t>(num_pieces)`. -/
def TorrentMetadata.count (M : TorrentMetadata) : ℕ := M.numPieces.toNat

/-- **Metadata with a consistent piece table**: there is one digest per piece, and
the count is a nonnegative `int32_t`. -/
structure Torrent extends TorrentMetadata where
  /-- The count is not negative. -/
  numPieces_nonneg : 0 ≤ numPieces
  /-- The count is an `int32_t`. -/
  numPieces_lt : numPieces < 2 ^ 31
  /-- There is one digest per piece. -/
  hashes_length : pieceHashes.length = toTorrentMetadata.count

namespace Torrent

variable {T : Torrent} {i : ℕ}

/-- A piece index fits a 32-bit field. -/
theorem lt_of_lt_count (h : i < T.count) : i < 2 ^ 32 := by
  have hc := T.numPieces_lt
  rw [TorrentMetadata.count] at h
  omega

theorem u32_of_lt_count (h : i < T.count) : u32 i = i :=
  u32_of_lt (lt_of_lt_count h)

variable (T) in
/-- `PieceManager::get_piece_length`: the common length, the remainder for the last
piece, and zero past the end. The result is narrowed to 32 bits. -/
def getPieceLength (pieceIdx : ℕ) : ℕ :=
  if T.count ≤ pieceIdx then 0
  else if pieceIdx < (T.numPieces - 1).toNat then u32 T.pieceLength
  else u32 (T.totalLength - (T.numPieces - 1) * T.pieceLength)

theorem getPieceLength_of_le (h : T.count ≤ i) : T.getPieceLength i = 0 := by
  rw [getPieceLength, if_pos h]

/-- The length of a piece fits 32 bits. -/
theorem getPieceLength_lt : T.getPieceLength i < 2 ^ 32 := by
  rw [getPieceLength, u32, u32]
  split
  case isTrue => decide
  case isFalse => split <;> omega

theorem lt_count_of_getPieceLength (h : T.getPieceLength i ≠ 0) : i < T.count := by
  by_contra hc
  exact h (getPieceLength_of_le (by omega))

/-- Piece `i` has a digest. -/
theorem lt_hashes (h : i < T.count) : i < T.pieceHashes.length := by
  rw [T.hashes_length]
  exact h

/-- The smallest torrent there is: one piece of one byte, the letter `a`, in one file
of that name. -/
def oneByte : Torrent where
  pieceLength := 1
  totalLength := 1
  numPieces := 1
  pieceHashes := [.ofBytes [0x86, 0xf7, 0xe4, 0x37, 0xfa, 0xa5, 0xa7, 0xfc, 0xe1, 0x5d,
    0x1d, 0xdc, 0xb9, 0xea, 0xea, 0xea, 0x37, 0x76, 0x67, 0xb8]]
  files := [{ path := [0x61], length := 1, offset := 0 }]
  numPieces_nonneg := by decide
  numPieces_lt := by decide
  hashes_length := rfl

/-- Two pieces of one byte, the letters `a` and `b`, each in a file of that name. -/
def twoBytes : Torrent where
  pieceLength := 1
  totalLength := 2
  numPieces := 2
  pieceHashes := [
    .ofBytes [0x86, 0xf7, 0xe4, 0x37, 0xfa, 0xa5, 0xa7, 0xfc, 0xe1, 0x5d,
      0x1d, 0xdc, 0xb9, 0xea, 0xea, 0xea, 0x37, 0x76, 0x67, 0xb8],
    .ofBytes [0xe9, 0xd7, 0x1f, 0x5e, 0xe7, 0xc9, 0x2d, 0x6d, 0xc9, 0xe9,
      0x2f, 0xfd, 0xad, 0x17, 0xb8, 0xbd, 0x49, 0x41, 0x8f, 0x98]]
  files := [{ path := [0x61], length := 1, offset := 0 },
    { path := [0x62], length := 1, offset := 1 }]
  numPieces_nonneg := by decide
  numPieces_lt := by decide
  hashes_length := rfl

/-- Pieces of one byte, all the letter `a`, in one file of that name. -/
def letters (n : ℕ) (h : n < 2 ^ 31 := by decide) : Torrent where
  pieceLength := 1
  totalLength := n
  numPieces := n
  pieceHashes := List.replicate n (.ofBytes [0x86, 0xf7, 0xe4, 0x37, 0xfa, 0xa5, 0xa7, 0xfc, 0xe1,
    0x5d, 0x1d, 0xdc, 0xb9, 0xea, 0xea, 0xea, 0x37, 0x76, 0x67, 0xb8])
  files := [{ path := [0x61], length := n, offset := 0 }]
  numPieces_nonneg := Int.natCast_nonneg n
  numPieces_lt := by omega
  hashes_length := List.length_replicate

/-- A torrent of one piece in two blocks: `0x01` and then 16384 zeros. -/
def twoBlocks : Torrent :=
  { oneByte with
    pieceLength := 16385
    totalLength := 16385
    pieceHashes := [.ofBytes [0x0c, 0x66, 0xb4, 0x9a, 0x5d, 0xfc, 0x46, 0x9a, 0xf5, 0xe8,
      0xd3, 0xda, 0xc1, 0x43, 0xa3, 0xee, 0x4a, 0xd4, 0x49, 0x09]]
    files := [{ path := [0x61], length := 16385, offset := 0 }]
    hashes_length := rfl }

/-- The content of `TransferEngine.Torrent.twoBlocks`. -/
def bytesTwoBlocks : List UInt8 := 1 :: List.replicate 16384 0

end Torrent

end TransferEngine
