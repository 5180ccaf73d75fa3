import Mathlib.Algebra.BigOperators.Intervals
import Mathlib.Algebra.Order.BigOperators.Group.Finset
import TransferEngine.Coordinator.Moves
import TransferEngine.TorrentFile.WellFormed

/-!
# The sizes of the pieces

The size of a piece is computed three times: by `PieceManager::get_piece_length`, which narrows it
to 32 bits, by `DiskIOManager::read_piece` and by `get_downloaded_bytes` of `main`. They agree, and
everything that is counted and written with them is right, exactly if no piece has `2 ^ 32` bytes
(`TransferEngine.Torrent.sizesAgree_iff`).
-/

namespace TransferEngine

open DiskIOManager

/-- A `static_cast<uint64_t>`, to which arithmetic is reduced. -/
def u64 (x : ℤ) : ℕ := (x % 2 ^ 64).toNat

namespace PieceManager

variable {T : Torrent}

variable (T) in
/-- What `get_downloaded_bytes` adds for a piece. -/
def downloadedSize (i : ℕ) : ℕ :=
  if i = (T.numPieces - 1).toNat then u64 (T.totalLength - (T.numPieces - 1) * T.pieceLength)
  else u64 T.pieceLength

/-- `get_downloaded_bytes`. -/
def getDownloadedBytes (pm : PieceManager T) : ℕ :=
  (List.range T.count).foldl
    (fun total i => if pm.hasPiece i then u64 (total + downloadedSize T i) else total) 0

end PieceManager

namespace Torrent

variable {T : Torrent} {i n : ℕ}

/-- **Metadata with bytes**: the lengths are positive `int64_t`, and the pieces are as many as it
takes. -/
structure Sized (T : Torrent) : Prop where
  /-- Pieces have bytes. -/
  pieceLength_pos : 0 < T.pieceLength
  /-- There are bytes. -/
  totalLength_pos : 0 < T.totalLength
  /-- The length of a piece is an `int64_t`. -/
  pieceLength_lt : T.pieceLength < 2 ^ 63
  /-- The total is an `int64_t`. -/
  totalLength_lt : T.totalLength < 2 ^ 63
  /-- The number of pieces is the total over the length of a piece, rounded up. -/
  numPieces_eq : T.numPieces = (T.totalLength + T.pieceLength - 1) / T.pieceLength

/-- **The sizes agree**, and what is counted and written with them is right. -/
structure SizesAgree (T : Torrent) : Prop where
  /-- The piece manager and the disk agree. -/
  eq_pieceSize : ∀ i < T.count, (T.getPieceLength i : ℤ) = pieceSize T i
  /-- The piece manager and the count of bytes agree. -/
  eq_downloadedSize : ∀ i < T.count, T.getPieceLength i = PieceManager.downloadedSize T i
  /-- A piece has bytes, and at most the common number. -/
  bounds : ∀ i < T.count, 1 ≤ T.getPieceLength i ∧ (T.getPieceLength i : ℤ) ≤ T.pieceLength
  /-- The sizes sum up to the total. -/
  sum_eq : ∑ i ∈ Finset.range T.count, (T.getPieceLength i : ℤ) = T.totalLength
  /-- No more is counted than there is. -/
  downloaded_le : ∀ pm : PieceManager T, (pm.getDownloadedBytes : ℤ) ≤ T.totalLength
  /-- All of it is counted exactly if all pieces are there. -/
  downloaded_eq : ∀ pm : PieceManager T, (pm.getDownloadedBytes : ℤ) = T.totalLength ↔
    ∀ i < T.count, pm.hasPiece i = true
  /-- What is written as a piece has its size. -/
  written : ∀ (env : Env) (disk : Disk) (l : List Coordinator.Input) (i : ℕ) (d : List UInt8)
    (outcome : WriteOutcome),
      .wrote i d outcome ∈ (Coordinator.run env disk l : Coordinator.State T).trace →
        i < T.count → (d.length : ℤ) = pieceSize T i

/-! ### One piece -/

theorem u64_of_lt {x : ℤ} (hlo : 0 ≤ x) (hhi : x < 2 ^ 64) : (u64 x : ℤ) = x := by
  rw [u64]
  omega

theorem u32_lt (x : ℤ) : u32 x < 2 ^ 32 := by
  rw [u32]
  omega

theorem cast_u32 {x : ℤ} (hlo : 0 ≤ x) (hhi : x < 2 ^ 32) : (u32 x : ℤ) = x := by
  rw [u32]
  omega

/-- The piece manager narrows the size that the disk uses. -/
theorem getPieceLength_eq (hi : i < T.count) : T.getPieceLength i = u32 (pieceSize T i) := by
  have hc := hi
  rw [TorrentMetadata.count] at hc
  rw [getPieceLength, if_neg (by omega), pieceSize]
  by_cases hlast : i = (T.numPieces - 1).toNat
  · rw [if_neg (by omega), if_pos hlast]
  · rw [if_pos (by omega), if_neg hlast]

theorem downloadedSize_eq (i : ℕ) : PieceManager.downloadedSize T i = u64 (pieceSize T i) := by
  rw [PieceManager.downloadedSize, pieceSize]
  split
  case isTrue => rfl
  case isFalse => rfl

namespace Sized

/-- **A piece has bytes**, at most the common number, and they are there. -/
theorem pieceSize_bounds (hT : T.Sized) (hi : i < T.count) :
    0 < pieceSize T i ∧ pieceSize T i ≤ T.pieceLength ∧ pieceSize T i ≤ T.totalLength := by
  have hpl := hT.pieceLength_pos
  have hstart : 0 ≤ (i : ℤ) * T.pieceLength := Int.mul_nonneg (by omega) hpl.le
  rcases pieceSize_cases hpl hT.numPieces_eq hi with ⟨-, hs, hlt⟩ | ⟨hlast, hpos, hs⟩
  · rw [Int.add_mul, Int.one_mul] at hlt
    omega
  · -- the pieces reach to the end
    have hnn := T.numPieces_nonneg
    have hcast : (i : ℤ) + 1 = T.numPieces := by
      rw [TorrentMetadata.count] at hlast
      omega
    have hreach : T.totalLength + T.pieceLength - 1 < (T.numPieces + 1) * T.pieceLength := by
      rw [hT.numPieces_eq]
      exact Int.lt_ediv_add_one_mul_self _ hpl
    rw [← hcast, Int.add_mul, Int.add_mul, Int.one_mul] at hreach
    omega

theorem count_pos (hT : T.Sized) : 0 < T.count := by
  have hpl := hT.pieceLength_pos
  have htotal := hT.totalLength_pos
  have hone : 1 ≤ T.numPieces := by
    rw [hT.numPieces_eq, Int.le_ediv_iff_mul_le hpl]
    omega
  rw [TorrentMetadata.count]
  omega

/-- The first piece is the largest. -/
theorem pieceSize_zero (hT : T.Sized) : pieceSize T 0 = min T.pieceLength T.totalLength := by
  have hb := hT.pieceSize_bounds hT.count_pos
  rcases pieceSize_cases hT.pieceLength_pos hT.numPieces_eq hT.count_pos with
    ⟨-, hs, -⟩ | ⟨-, -, hs⟩
  · omega
  · rw [Int.natCast_zero, Int.zero_mul] at hs
    omega

/-! ### Sums -/

/-- The pieces before the last have the common size. -/
theorem sum_lt (hT : T.Sized) (hn : n < T.count) :
    ∑ i ∈ Finset.range n, pieceSize T i = n * T.pieceLength := by
  induction n with
  | zero => simp
  | succ n ih =>
    rcases pieceSize_cases hT.pieceLength_pos hT.numPieces_eq (show n < T.count by omega) with
      ⟨-, hs, -⟩ | ⟨hlast, -⟩
    · rw [Finset.sum_range_succ, ih (by omega), hs]
      push_cast
      rw [Int.add_mul, Int.one_mul]
    · omega

/-- **The sizes of the pieces sum up to the total.** -/
theorem sum_pieceSize (hT : T.Sized) :
    ∑ i ∈ Finset.range T.count, pieceSize T i = T.totalLength := by
  obtain ⟨n, hn⟩ : ∃ n, T.count = n + 1 := Nat.exists_eq_add_one.mpr hT.count_pos
  rcases pieceSize_cases hT.pieceLength_pos hT.numPieces_eq (show n < T.count by omega) with
    ⟨hlt, -⟩ | ⟨-, -, hs⟩
  · omega
  · rw [hn, Finset.sum_range_succ, hT.sum_lt (by omega), hs]

/-! ### Counting bytes -/

/-- The bytes of the pieces that are there. -/
theorem sum_filter_le (hT : T.Sized) (pm : PieceManager T) (hn : n ≤ T.count) :
    ∑ i ∈ (Finset.range n).filter (pm.hasPiece ·), pieceSize T i ≤ T.totalLength := by
  rw [← hT.sum_pieceSize]
  refine Finset.sum_le_sum_of_subset_of_nonneg ?_ fun i hi _ => ?_
  · exact (Finset.filter_subset _ _).trans (Finset.range_mono hn)
  · exact (hT.pieceSize_bounds (Finset.mem_range.mp hi)).1.le

/-- **What `get_downloaded_bytes` counts**: nothing overflows. -/
theorem getDownloadedBytes_eq (hT : T.Sized) (pm : PieceManager T) :
    (pm.getDownloadedBytes : ℤ) =
      ∑ i ∈ (Finset.range T.count).filter (pm.hasPiece ·), pieceSize T i := by
  have hlt := hT.totalLength_lt
  -- the loop, up to piece `n`
  have hloop : ∀ n ≤ T.count, (((List.range n).foldl (fun total i =>
      if pm.hasPiece i then u64 (total + PieceManager.downloadedSize T i) else total) 0 : ℕ) : ℤ) =
        ∑ i ∈ (Finset.range n).filter (pm.hasPiece ·), pieceSize T i := by
    intro n hn
    induction n with
    | zero => rfl
    | succ n ih =>
      have hle := hT.sum_filter_le pm hn
      obtain ⟨hpos, -, hsize⟩ := hT.pieceSize_bounds (show n < T.count by omega)
      rw [Finset.range_add_one, Finset.filter_insert] at hle ⊢
      rw [List.range_succ, List.foldl_append, List.foldl_cons, List.foldl_nil]
      by_cases hhas : pm.hasPiece n = true
      · have hsum := ih (by omega)
        have hnonneg : 0 ≤ ∑ i ∈ (Finset.range n).filter (pm.hasPiece ·), pieceSize T i := by
          rw [← hsum]
          exact Int.natCast_nonneg _
        rw [if_pos hhas, Finset.sum_insert (by simp)] at hle
        rw [if_pos hhas, if_pos hhas, Finset.sum_insert (by simp), downloadedSize_eq, hsum,
          u64_of_lt hpos.le (by omega), u64_of_lt (by omega) (by omega), add_comm]
      · rw [if_neg hhas, if_neg hhas]
        exact ih (by omega)
  exact hloop T.count le_rfl

/-- All bytes are counted exactly if all pieces are there. -/
theorem getDownloadedBytes_eq_iff (hT : T.Sized) (pm : PieceManager T) :
    (pm.getDownloadedBytes : ℤ) = T.totalLength ↔ ∀ i < T.count, pm.hasPiece i = true := by
  rw [hT.getDownloadedBytes_eq]
  constructor
  · intro heq i hi
    by_contra hno
    have hlt : ∑ j ∈ (Finset.range T.count).filter (pm.hasPiece ·), pieceSize T j <
        ∑ j ∈ Finset.range T.count, pieceSize T j := by
      refine Finset.sum_lt_sum_of_subset (Finset.filter_subset _ _) (Finset.mem_range.mpr hi)
        (fun hmem => hno (Finset.mem_filter.mp hmem).2) (hT.pieceSize_bounds hi).1 fun j hj _ => ?_
      exact (hT.pieceSize_bounds (Finset.mem_range.mp hj)).1.le
    rw [hT.sum_pieceSize, heq] at hlt
    exact lt_irrefl _ hlt
  · intro hall
    rw [Finset.filter_true_of_mem fun i hi => hall i (Finset.mem_range.mp hi), hT.sum_pieceSize]

end Sized

end Torrent

/-! ### Writing pieces -/

namespace Coordinator

variable {T : Torrent} {s s' : State T} {env : Env} {a : Input}

/-- Whatever was written as a piece has the length that the piece manager has for it. -/
structure WritesWhole (s : State T) : Prop where
  /-- The entries of the piece manager are sound. -/
  ok : s.pieceManager.Ok
  /-- The length of what was written. -/
  length_eq : ∀ i d outcome, .wrote i d outcome ∈ s.trace → d.length = T.getPieceLength i

theorem WritesWhole.move (h : WritesWhole s) (hm : Move s s') : WritesWhole s' := by
  refine ⟨hm.ok h.ok, fun i d outcome hmem => ?_⟩
  rcases hm.trace_cases with htr | ⟨e, he, htr⟩
  · exact h.length_eq i d outcome (htr ▸ hmem)
  · rw [htr, List.mem_cons] at hmem
    rcases hmem with rfl | hmem
    · exact he.elim
    · exact h.length_eq i d outcome hmem

theorem mem_hashFault {e : Event} {i : ℕ} (h : e ∈ hashFault T i) : e = .hashOutOfBounds i := by
  rw [hashFault] at h
  split at h
  case isTrue => cases h
  case isFalse => exact List.mem_singleton.mp h

theorem WritesWhole.head (h : WritesWhole s) (hh : Head env s a s') : WritesWhole s' := by
  refine ⟨hh.ok h.ok, fun i d outcome hmem => ?_⟩
  rcases hh.trace_cases with ⟨-, htr⟩ | ⟨p, idx, c, x, state, pm, -, -, -, -, -, -, htr⟩ |
    ⟨p, idx, c, x, state, pm, tr, outcome', -, -, -, hb, -, -, htr, -, htr'⟩
  · exact h.length_eq i d outcome (htr ▸ hmem)
  · rw [htr, List.mem_cons, List.mem_append] at hmem
    rcases hmem with he | hmem | hmem
    · cases he
    · cases mem_hashFault hmem
    · exact h.length_eq i d outcome hmem
  · rw [htr', htr, List.mem_cons, List.mem_cons, List.mem_append] at hmem
    rcases hmem with he | he | hmem | hmem
    · -- the buffer of a piece in progress is as long as the piece
      cases he
      obtain ⟨-, rfl⟩ := PieceManager.of_blockReceived_true h.ok hb
      rw [PieceManager.getPieceData, PieceManager.inProgress_put, if_pos rfl]
      exact (h.ok.touched idx.toNat).storeBlock.data_length
    · cases he
    · cases mem_hashFault hmem
    · exact h.length_eq i d outcome hmem

theorem WritesWhole.step (h : WritesWhole s) (a : Input) : WritesWhole (step env s a) :=
  Runs.preserved_chain (moves_step env s a) (fun _ _ hs hm => hs.move hm)
    (h.head (head_spec env s a))

theorem writesWhole_run (env : Env) (disk : Disk) (l : List Input) :
    WritesWhole (run env disk l : State T) := by
  have hreach : Runs.Reach (Coordinator.step env) Runs.free (.init T disk) l (run env disk l) :=
    Runs.reach_free l
  exact hreach.invariant ⟨PieceManager.ok_init, fun _ _ _ hmem => by cases hmem⟩
    fun _ a hs _ => hs.step a

end Coordinator

namespace Torrent

variable {T : Torrent}

/-- **The sizes agree if no piece has `2 ^ 32` bytes.** -/
theorem sizesAgree_iff (T : Torrent) (hT : T.Sized) :
    T.SizesAgree ↔ min T.pieceLength T.totalLength < 2 ^ 32 := by
  constructor
  · intro h
    -- the first piece is a longest one, and its size is cut to 32 bits on one side only
    have hzero := h.eq_pieceSize 0 hT.count_pos
    have hlt := u32_lt (pieceSize T 0)
    rw [getPieceLength_eq hT.count_pos, hT.pieceSize_zero] at hzero
    rw [hT.pieceSize_zero] at hlt
    omega
  · intro hmin
    have htotal := hT.totalLength_lt
    have hsize : ∀ i < T.count, (T.getPieceLength i : ℤ) = pieceSize T i := by
      intro i hi
      obtain ⟨hpos, hpl, htl⟩ := hT.pieceSize_bounds hi
      rw [getPieceLength_eq hi, cast_u32 hpos.le (by omega)]
    refine ⟨hsize, fun i hi => ?_, fun i hi => ?_, ?_, fun pm => ?_, hT.getDownloadedBytes_eq_iff,
      fun env disk l i d outcome hmem hi => ?_⟩
    · obtain ⟨hpos, -, htl⟩ := hT.pieceSize_bounds hi
      have hu := u64_of_lt hpos.le (by omega)
      rw [downloadedSize_eq]
      have := hsize i hi
      omega
    · have hb := hT.pieceSize_bounds hi
      have := hsize i hi
      omega
    · rw [← hT.sum_pieceSize]
      exact Finset.sum_congr rfl fun i hi => hsize i (Finset.mem_range.mp hi)
    · rw [hT.getDownloadedBytes_eq]
      exact hT.sum_filter_le pm le_rfl
    · rw [(Coordinator.writesWhole_run env disk l).length_eq i d outcome hmem]
      exact hsize i hi

/-- Three bytes in two pieces, of which the last is shorter. -/
def threeBytes : Torrent :=
  { twoBytes with
    pieceLength := 2
    totalLength := 3
    files := [{ path := [0x61], length := 3, offset := 0 }]
    hashes_length := rfl }

theorem sized_threeBytes : threeBytes.Sized :=
  ⟨by decide, by decide, by decide, by decide, by decide⟩

/-- The last piece is one byte of three. -/
theorem sizesAgree_threeBytes :
    threeBytes.Sized ∧ threeBytes.SizesAgree ∧ (threeBytes.getPieceLength 1 : ℤ) = 1 := by
  have hagree := (sizesAgree_iff threeBytes sized_threeBytes).mpr (by decide)
  exact ⟨sized_threeBytes, hagree, by rw [hagree.eq_pieceSize 1 (by decide)]; decide⟩

theorem sized_twoBytes : twoBytes.Sized := ⟨by decide, by decide, by decide, by decide, by decide⟩

/-- A torrent file with one file and one piece, of `2 ^ 32` bytes. -/
def largeBytes : List UInt8 :=
  ascii "d8:announce1:u4:infod6:lengthi4294967296e4:name1:a12:piece lengthi4294967296e" ++
    ascii "6:pieces20:00000000000000000000ee"

/-- Its metadata, with a digest of zeros. -/
def largeFile : TorrentFile :=
  { TorrentFile.tiny with
    pieceLength := 4294967296
    totalLength := 4294967296
    files := [{ path := ascii "a", length := 4294967296, offset := 0 }] }

/-- The torrent. -/
def large : Torrent where
  toTorrentMetadata := largeFile.toTorrentMetadata
  numPieces_nonneg := by decide
  numPieces_lt := by decide
  hashes_length := by decide

/-- **A piece of `2 ^ 32` bytes** has none for the piece manager. -/
theorem not_sizesAgree_large :
    TorrentFile.fromBencode (fun _ => .ofBytes []) largeBytes = .ok (some largeFile) ∧
      large.toTorrentMetadata = largeFile.toTorrentMetadata ∧ large.Sized ∧ ¬large.SizesAgree := by
  refine ⟨by decide +kernel, rfl, ⟨by decide, by decide, by decide, by decide, by decide⟩,
    fun h => ?_⟩
  have hzero := h.eq_pieceSize 0 (by decide)
  exact absurd hzero (by decide)

end Torrent

end TransferEngine
