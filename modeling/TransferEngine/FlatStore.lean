import Mathlib.Algebra.BigOperators.Group.List.Basic
import TransferEngine.DiskIOManager
import TransferEngine.Lib.Overlay

/-!
# The files as one array

To the rest of the program the files of a torrent are one array of `total_length` bytes, of
which piece `i` is the range that starts at `i * piece_length`. `DiskIOManager` finds, for
each file, the part of the range that the file holds, once for writing and once for reading.

Both loops lay one list over another (`TransferEngine.Overlay.overlay`): writing lays the data
over the contents of each file, at the distance between the two offsets, and reading lays the
contents of each file over the buffer, at the opposite distance. That the files then behave
as one array is a matter of concatenation, and `TransferEngine.DiskIOManager.flatStore` says
in what respects they do.

The entries of the list of files have to be different files on the disk. That their paths differ
does not make them so: in any directory `a` and `./a` are one file
(`TransferEngine.DiskIOManager.not_flatStore_sameFile`).
-/

namespace TransferEngine

open Overlay

/-- **A well-formed layout**: pieces have bytes, the files lie one after the other, and the
pieces are as many as it takes. -/
structure Torrent.Layout (T : Torrent) : Prop where
  /-- Pieces have bytes. -/
  pieceLength_pos : 0 < T.pieceLength
  /-- Lengths are not negative. -/
  length_nonneg : ∀ f ∈ T.files, 0 ≤ f.length
  /-- A file starts where those before it end. -/
  offset_eq : ∀ pre f post, T.files = pre ++ f :: post → f.offset = (pre.map FileInfo.length).sum
  /-- The total is the sum of the lengths. -/
  totalLength_eq : T.totalLength = (T.files.map FileInfo.length).sum
  /-- The total is an `int64_t`. -/
  totalLength_lt : T.totalLength < 2 ^ 63
  /-- The number of pieces is the total over the length of a piece, rounded up. -/
  numPieces_eq : T.numPieces = (T.totalLength + T.pieceLength - 1) / T.pieceLength

namespace DiskIOManager

variable {T : Torrent} {dir : OutputDir} {disk disk' : Disk} {files : List FileInfo}
  {file : FileInfo} {data c d e : List UInt8} {g o n : ℤ} {i j : ℕ}

/-- What the files of the torrent are on the disk. -/
def fileIds (dir : OutputDir) (files : List FileInfo) : List FileId :=
  files.map fun f => fileAt dir f.path

/-- **The array**: the contents of the files, one after the other. -/
def flat (dir : OutputDir) (disk : Disk) (files : List FileInfo) : List UInt8 :=
  files.flatMap fun f => (disk (fileAt dir f.path)).getD []

/-- The files are there, with their lengths. -/
def Allocated (dir : OutputDir) (disk : Disk) (files : List FileInfo) : Prop :=
  ∀ f ∈ files, ∃ c, disk (fileAt dir f.path) = some c ∧ (c.length : ℤ) = f.length

/-- Files one after the other, the first at offset `o`. -/
def Consecutive : ℤ → List FileInfo → Prop
  | _, [] => True
  | o, f :: fs => f.offset = o ∧ 0 ≤ f.length ∧ Consecutive (o + f.length) fs

instance decidableConsecutive : ∀ (o : ℤ) (files : List FileInfo), Decidable (Consecutive o files)
  | _, [] => .isTrue trivial
  | o, f :: fs =>
    have := decidableConsecutive (o + f.length) fs
    inferInstanceAs (Decidable (_ ∧ _ ∧ _))

/-- The part of the data buffer that a round of either loop uses: `offset_in_data` and
`overlap_len`. There is none for a file that is passed over. -/
def dataSlice (globalOffset bytes : ℤ) (file : FileInfo) : Option (ℤ × ℤ) :=
  let fileStart := file.offset
  let fileEnd := file.offset + file.length
  if globalOffset + bytes ≤ fileStart ∨ fileEnd ≤ globalOffset then none
  else
    let overlapStart := max globalOffset fileStart
    let overlapEnd := min (globalOffset + bytes) fileEnd
    some (overlapStart - globalOffset, overlapEnd - overlapStart)

/-- **The slice is in bounds.** -/
theorem dataSlice_bounds {off len : ℤ} (hn : 0 ≤ n) (hl : 0 ≤ file.length)
    (h : dataSlice g n file = some (off, len)) : 0 ≤ off ∧ 0 ≤ len ∧ off + len ≤ n := by
  rw [dataSlice] at h
  dsimp only at h
  split at h
  case isTrue => cases h
  case isFalse hskip =>
    simp only [Option.some.injEq, Prod.mk.injEq] at h
    omega

/-! ### One file -/

theorem length_resize (c : List UInt8) (n : ℕ) : (resize c n).length = n := by
  rw [resize, List.length_append, List.length_take, List.length_replicate]
  omega

theorem writeAt_eq_overlay (h : n.toNat + d.length ≤ c.length) (hn : 0 ≤ n) :
    writeAt c n.toNat d = overlay n d c := by
  have hpad : n.toNat - c.length = 0 := by omega
  rw [writeAt, hpad, List.replicate_zero, List.append_nil, ← splice, splice_eq_overlay h,
    Int.toNat_of_nonneg hn]

/-- **Writing to a file** lays the data over its contents. -/
theorem writeFile_good (g : ℤ) (data : List UInt8) (hc : disk (fileAt dir file.path) = some c)
    (hl : (c.length : ℤ) = file.length) :
    writeFile (fun _ => .good) dir g data file disk =
      (none, Function.update disk (fileAt dir file.path)
        (some (overlay (g - file.offset) data c))) := by
  rw [writeFile]
  dsimp only
  split
  case isTrue hskip =>
    rw [overlay_of_disjoint (by omega), ← hc, Function.update_eq_self]
  case isFalse hskip =>
    rw [hc]
    dsimp only
    have hoff : (max g file.offset - file.offset : ℤ) =
        g - file.offset + ((max g file.offset - g).toNat : ℤ) := by omega
    rw [writeAt_eq_overlay (by rw [List.length_take]; omega) (by omega), hoff,
      overlay_window (by omega) (by omega)]

/-- **Reading from a file** lays its contents over the buffer. -/
theorem readFile_good (g : ℤ) (hdata : (data.length : ℤ) = n)
    (hc : disk (fileAt dir file.path) = some c) (hl : (c.length : ℤ) = file.length) :
    readFile (fun _ => .good) dir g n disk file data =
      .ok (overlay (file.offset - g) c data) := by
  rw [readFile]
  dsimp only
  split
  case isTrue hskip => rw [overlay_of_disjoint (by omega)]
  case isFalse hskip =>
    rw [hc]
    dsimp only
    have hoff : (max g file.offset - g : ℤ) =
        file.offset - g + ((max g file.offset - file.offset).toNat : ℤ) := by omega
    rw [writeAt_eq_overlay (by rw [List.length_take]; omega) (by omega), hoff,
      overlay_window (by omega) (by omega)]

/-! ### All files -/

theorem length_flat (h : Allocated dir disk files) :
    ((flat dir disk files).length : ℤ) = (files.map FileInfo.length).sum := by
  induction files with
  | nil => rfl
  | cons f fs ih =>
    obtain ⟨c, hc, hl⟩ := h f List.mem_cons_self
    have hrest := ih fun f' hf' => h f' (List.mem_cons_of_mem _ hf')
    rw [flat, List.flatMap_cons, List.length_append, hc, Option.getD_some, List.map_cons,
      List.sum_cons, ← hrest, ← hl, flat, Nat.cast_add]

/-- The array does not depend on other files. -/
theorem flat_congr (h : ∀ q ∈ fileIds dir files, disk' q = disk q) :
    flat dir disk' files = flat dir disk files := by
  rw [flat, flat, List.flatMap_congr]
  intro f hf
  rw [h _ (List.mem_map_of_mem hf)]

theorem allocated_congr (h : ∀ q ∈ fileIds dir files, disk' q = disk q)
    (ha : Allocated dir disk files) : Allocated dir disk' files := by
  intro f hf
  rw [h _ (List.mem_map_of_mem hf)]
  exact ha f hf

/-- What is done to one file leaves the others alone. -/
theorem update_of_notMem {p : FileId} (hp : p ∉ fileIds dir files) (disk : Disk)
    (x : Option (List UInt8)) : ∀ q ∈ fileIds dir files, Function.update disk p x q = disk q := by
  intro q hq
  refine Function.update_of_ne ?_ _ _
  rintro rfl
  exact hp hq

/-- **Different contents make different arrays**: files of given lengths are determined by
their concatenation. -/
theorem disk_ext (h : Allocated dir disk files) (h' : Allocated dir disk' files)
    (hflat : flat dir disk' files = flat dir disk files)
    (hout : ∀ q ∉ fileIds dir files, disk' q = disk q) : disk' = disk := by
  have hin : ∀ q ∈ fileIds dir files, disk' q = disk q := by
    clear hout
    induction files with
    | nil => exact fun _ hp => nomatch hp
    | cons f fs ih =>
      obtain ⟨c, hc, hl⟩ := h f List.mem_cons_self
      obtain ⟨c', hc', hl'⟩ := h' f List.mem_cons_self
      rw [flat, flat, List.flatMap_cons, List.flatMap_cons, hc, hc', Option.getD_some,
        Option.getD_some] at hflat
      obtain ⟨rfl, hrest⟩ := List.append_inj hflat (by omega)
      intro q hp
      rcases List.mem_cons.mp hp with rfl | hp
      · rw [hc, hc']
      · exact ih (fun f' hf' => h f' (List.mem_cons_of_mem _ hf'))
          (fun f' hf' => h' f' (List.mem_cons_of_mem _ hf')) hrest q hp
  funext q
  by_cases hp : q ∈ fileIds dir files
  · exact hin q hp
  · exact hout q hp

/-- **The loop of `write_piece`** lays the data over the array. -/
theorem writeFiles_good (g : ℤ) (data : List UInt8) (hcons : Consecutive o files)
    (hnd : (fileIds dir files).Nodup) (ha : Allocated dir disk files) :
    ∃ disk', writeFiles (fun _ => .good) dir g data files disk = (none, disk') ∧
      Allocated dir disk' files ∧
      flat dir disk' files = overlay (g - o) data (flat dir disk files) ∧
      ∀ q ∉ fileIds dir files, disk' q = disk q := by
  induction files generalizing o disk with
  | nil => exact ⟨disk, rfl, ha, rfl, fun _ _ => rfl⟩
  | cons f fs ih =>
    obtain ⟨c, hc, hl⟩ := ha f List.mem_cons_self
    obtain ⟨rfl, hpos, hrest⟩ := hcons
    obtain ⟨hnot, hnd'⟩ := List.nodup_cons.mp hnd
    rw [writeFiles, writeFile_good g data hc hl]
    dsimp only
    -- the other files are untouched by the first write, and the first by the others
    have hother := update_of_notMem hnot disk (some (overlay (g - f.offset) data c))
    have ha' : Allocated dir disk fs := fun f' hf' => ha f' (List.mem_cons_of_mem _ hf')
    obtain ⟨disk', hw, hal, hflat, hout⟩ := ih hrest hnd' (allocated_congr hother ha')
    have hfirst : disk' (fileAt dir f.path) = some (overlay (g - f.offset) data c) := by
      rw [hout _ hnot, Function.update_self]
    refine ⟨disk', hw, ?_, ?_, fun q hp => ?_⟩
    · intro f' hf'
      rcases List.mem_cons.mp hf' with rfl | hf'
      · exact ⟨_, hfirst, by rw [length_overlay, hl]⟩
      · exact hal f' hf'
    · rw [flat_congr hother] at hflat
      rw [flat, List.flatMap_cons, hfirst, Option.getD_some, ← flat, hflat, flat, flat,
        List.flatMap_cons, hc, Option.getD_some, overlay_append, hl, Int.sub_sub]
    · rw [fileIds, List.map_cons, List.mem_cons, not_or] at hp
      rw [hout q hp.2, Function.update_of_ne hp.1]

/-- **The loop of `read_piece`** lays the array over the buffer. -/
theorem readFiles_good (g : ℤ) (hdata : (data.length : ℤ) = n) (hcons : Consecutive o files)
    (ha : Allocated dir disk files) :
    readFiles (fun _ => .good) dir g n disk files data =
      .ok (overlay (o - g) (flat dir disk files) data) := by
  induction files generalizing o data with
  | nil => rw [readFiles, flat, List.flatMap_nil, overlay_nil]
  | cons f fs ih =>
    obtain ⟨c, hc, hl⟩ := ha f List.mem_cons_self
    obtain ⟨rfl, hpos, hrest⟩ := hcons
    rw [readFiles, readFile_good g hdata hc hl]
    show readFiles _ _ _ _ _ fs _ = _
    rw [ih (by rw [length_overlay, hdata]) hrest fun f' hf' => ha f' (List.mem_cons_of_mem _ hf'),
      flat, flat, List.flatMap_cons, hc, Option.getD_some, overlay_append_left, hl]
    congr 2
    omega

/-- **`preallocate_files`** makes the files be there, with their lengths. -/
theorem preallocateFiles_good (hpos : ∀ f ∈ files, 0 ≤ f.length)
    (hnd : (fileIds dir files).Nodup) (disk : Disk) :
    ∃ disk', preallocateFiles (fun _ => .good) dir files disk = (none, disk') ∧
      Allocated dir disk' files ∧ ∀ q ∉ fileIds dir files, disk' q = disk q := by
  induction files generalizing disk with
  | nil => exact ⟨disk, rfl, (fun _ hf => nomatch hf), fun _ _ => rfl⟩
  | cons f fs ih =>
    obtain ⟨hnot, hnd'⟩ := List.nodup_cons.mp hnd
    have hf := hpos f List.mem_cons_self
    rw [preallocateFiles, allocFile]
    dsimp only
    rw [if_neg (by omega)]
    dsimp only
    obtain ⟨disk', hw, hal, hout⟩ := ih (fun f' hf' => hpos f' (List.mem_cons_of_mem _ hf')) hnd'
      (Function.update disk (fileAt dir f.path)
        (some (resize ((disk (fileAt dir f.path)).getD []) f.length.toNat)))
    refine ⟨disk', hw, fun f' hf' => ?_, fun q hp => ?_⟩
    · rcases List.mem_cons.mp hf' with rfl | hf'
      · refine ⟨_, (hout _ hnot).trans (Function.update_self ..), ?_⟩
        rw [length_resize]
        omega
      · exact hal f' hf'
    · rw [fileIds, List.map_cons, List.mem_cons, not_or] at hp
      rw [hout q hp.2, Function.update_of_ne hp.1]

/-! ### Pieces -/

theorem consecutive_of_offsets {pre : List FileInfo} (hpos : ∀ f ∈ files, 0 ≤ f.length)
    (hoff : ∀ pre' f post, files = pre' ++ f :: post →
      f.offset = ((pre ++ pre').map FileInfo.length).sum) :
    Consecutive (pre.map FileInfo.length).sum files := by
  induction files generalizing pre with
  | nil => trivial
  | cons f fs ih =>
    refine ⟨by rw [hoff [] f fs rfl, List.append_nil], hpos f List.mem_cons_self, ?_⟩
    have hsum : (pre.map FileInfo.length).sum + f.length =
        ((pre ++ [f]).map FileInfo.length).sum := by
      rw [List.map_append, List.sum_append, List.map_singleton, List.sum_singleton]
    rw [hsum]
    refine ih (fun f' hf' => hpos f' (List.mem_cons_of_mem _ hf')) fun pre' f' post hfs => ?_
    rw [hoff (f :: pre') f' post (by rw [hfs, List.cons_append]), List.append_assoc,
      List.singleton_append]

theorem consecutive_of_layout (hT : T.Layout) : Consecutive 0 T.files := by
  have h : Consecutive (([] : List FileInfo).map FileInfo.length).sum T.files :=
    consecutive_of_offsets hT.length_nonneg hT.offset_eq
  exact h

/-- **A piece with its bytes**: an index in range, and as many bytes as the piece has. -/
def PieceData (T : Torrent) (w : ℕ × List UInt8) : Prop :=
  w.1 < T.count ∧ (w.2.length : ℤ) = pieceSize T w.1

instance (T : Torrent) : DecidablePred (PieceData T) := fun _ => inferInstanceAs (Decidable (_ ∧ _))

/-- The pieces before the last end before the last, and the last one ends with the array. -/
theorem pieceSize_cases (hpl : 0 < T.pieceLength)
    (hnum : T.numPieces = (T.totalLength + T.pieceLength - 1) / T.pieceLength) (hi : i < T.count) :
    (i + 1 < T.count ∧ pieceSize T i = T.pieceLength ∧ (i + 1) * T.pieceLength < T.totalLength) ∨
      (i + 1 = T.count ∧ 0 < pieceSize T i ∧
        i * T.pieceLength + pieceSize T i = T.totalLength) := by
  have hnn := T.numPieces_nonneg
  rw [TorrentMetadata.count] at hi ⊢
  -- the last piece starts inside the array
  have hlast : (T.numPieces - 1) * T.pieceLength < T.totalLength := by
    have hle : T.numPieces * T.pieceLength ≤ T.totalLength + T.pieceLength - 1 := by
      rw [hnum]
      exact Int.ediv_mul_le _ (by omega)
    rw [Int.sub_mul]
    omega
  rw [pieceSize]
  by_cases hc : i = (T.numPieces - 1).toNat
  · right
    have hcast : (i : ℤ) = T.numPieces - 1 := by omega
    rw [if_pos hc, hcast]
    omega
  · left
    have hle : ((i : ℤ) + 1) * T.pieceLength ≤ (T.numPieces - 1) * T.pieceLength :=
      Int.mul_le_mul_of_nonneg_right (by omega) (by omega)
    rw [if_neg hc]
    exact ⟨by omega, rfl, by omega⟩

theorem pieceSize_nonneg (hT : T.Layout) (hi : i < T.count) : 0 ≤ pieceSize T i := by
  have hpos := hT.pieceLength_pos
  rcases pieceSize_cases hT.pieceLength_pos hT.numPieces_eq hi with ⟨-, hs, -⟩ | ⟨-, hs, -⟩
  · rw [hs]
    exact hpos.le
  · exact hs.le

/-- Where a piece starts. -/
def pieceStart (T : Torrent) (i : ℕ) : ℕ := i * T.pieceLength.toNat

theorem cast_pieceStart (hT : T.Layout) (i : ℕ) : (pieceStart T i : ℤ) = i * T.pieceLength := by
  rw [pieceStart, Int.natCast_mul, Int.toNat_of_nonneg hT.pieceLength_pos.le]

theorem length_flat_of_layout (hT : T.Layout) (ha : Allocated dir disk T.files) :
    ((flat dir disk T.files).length : ℤ) = T.totalLength := by
  rw [length_flat ha, hT.totalLength_eq]

/-- A piece lies in the array. -/
theorem piece_fits (hT : T.Layout) {w : ℕ × List UInt8} (hw : PieceData T w) :
    (pieceStart T w.1 + w.2.length : ℤ) ≤ T.totalLength := by
  rw [cast_pieceStart hT, hw.2]
  rcases pieceSize_cases hT.pieceLength_pos hT.numPieces_eq hw.1 with ⟨-, hs, hlt⟩ | ⟨-, -, hs⟩
  · rw [hs]
    rw [Int.add_mul] at hlt
    omega
  · omega

/-- Different pieces do not meet. -/
theorem piece_disjoint (hT : T.Layout) {w w' : ℕ × List UInt8} (hw : PieceData T w)
    (hw' : PieceData T w') (hlt : w.1 < w'.1) :
    pieceStart T w.1 + w.2.length ≤ pieceStart T w'.1 := by
  have hs : pieceSize T w.1 = T.pieceLength := by
    rcases pieceSize_cases hT.pieceLength_pos hT.numPieces_eq hw.1 with ⟨-, hs, -⟩ | ⟨hc, -⟩
    · exact hs
    · have := hw'.1
      omega
  have hlen := hw.2
  rw [hs] at hlen
  have hmul : (w.1 + 1) * T.pieceLength.toNat ≤ w'.1 * T.pieceLength.toNat :=
    Nat.mul_le_mul_right _ hlt
  rw [Nat.add_mul] at hmul
  rw [pieceStart, pieceStart]
  omega

/-- **Writing a piece**: the array has the bytes of the piece where the piece starts, and
nothing else changes. -/
theorem writePiece_good (hT : T.Layout) (hnd : (fileIds dir T.files).Nodup)
    (ha : Allocated dir disk T.files) {w : ℕ × List UInt8} (hw : PieceData T w) :
    ∃ disk', writePiece T (fun _ => .good) dir w.1 w.2 disk = (none, disk') ∧
      Allocated dir disk' T.files ∧
      flat dir disk' T.files = splice (flat dir disk T.files) (pieceStart T w.1) w.2 ∧
      ∀ q ∉ fileIds dir T.files, disk' q = disk q := by
  obtain ⟨disk', hwr, hal, hflat, hout⟩ :=
    writeFiles_good (w.1 * T.pieceLength) w.2 (consecutive_of_layout hT) hnd ha
  have hlen := length_flat_of_layout hT ha
  have hfit := piece_fits hT hw
  refine ⟨disk', ?_, hal, ?_, hout⟩
  · rw [writePiece, if_neg (Nat.not_le.mpr hw.1), hwr]
  · rw [hflat, Int.sub_zero, ← cast_pieceStart hT, splice_eq_overlay (by omega)]

/-- **Reading a piece**: the bytes of the array where the piece starts. -/
theorem readPiece_good (hT : T.Layout) (ha : Allocated dir disk T.files) (hi : i < T.count) :
    readPiece T (fun _ => .good) dir i disk =
      .ok (((flat dir disk T.files).drop (pieceStart T i)).take (pieceSize T i).toNat) := by
  have hlen := length_flat_of_layout hT ha
  have hsize := pieceSize_nonneg hT hi
  have hfit : ((pieceStart T i : ℤ) + (List.replicate (pieceSize T i).toNat (0 : UInt8)).length) ≤
      T.totalLength :=
    piece_fits hT (w := (i, List.replicate (pieceSize T i).toNat 0))
      ⟨hi, by rw [List.length_replicate, Int.toNat_of_nonneg hsize]⟩
  rw [List.length_replicate] at hfit
  rw [readPiece, if_neg (Nat.not_le.mpr hi), if_neg (by omega), readFiles_good _
    (by rw [List.length_replicate, Int.toNat_of_nonneg hsize]) (consecutive_of_layout hT) ha,
    Int.zero_sub, ← cast_pieceStart hT, overlay_of_covers (by rw [List.length_replicate]; omega),
    List.length_replicate]

/-! ### Sequences of writes -/

/-- The disk after writing pieces, one after the other. -/
def writePieces (T : Torrent) (dir : OutputDir) (ws : List (ℕ × List UInt8)) (disk : Disk) : Disk :=
  ws.foldl (fun disk w => (writePiece T (fun _ => .good) dir w.1 w.2 disk).2) disk

/-- **The files are a faithful array** for a sequence of writes, from a disk on which they
have been allocated. -/
structure FlatStore (T : Torrent) (dir : OutputDir) (disk : Disk) (ws : List (ℕ × List UInt8)) :
    Prop where
  /-- No write throws. -/
  returned : ∀ pre w post, ws = pre ++ w :: post →
    (writePiece T (fun _ => .good) dir w.1 w.2 (writePieces T dir pre disk)).1 = none
  /-- The array has all its bytes. -/
  length_eq : ((flat dir (writePieces T dir ws disk) T.files).length : ℤ) = T.totalLength
  /-- The array is what it was, with every piece stored where it starts. -/
  contents : flat dir (writePieces T dir ws disk) T.files =
    ws.foldl (fun a w => splice a (w.1 * T.pieceLength.toNat) w.2) (flat dir disk T.files)
  /-- No file changes its length. -/
  allocated : Allocated dir (writePieces T dir ws disk) T.files
  /-- A piece reads as it was last written. -/
  read : ∀ pre i d post, ws = pre ++ (i, d) :: post → (∀ w ∈ post, w.1 ≠ i) →
    readPiece T (fun _ => .good) dir i (writePieces T dir ws disk) = .ok d
  /-- Writes of different pieces commute. -/
  comm : ∀ w w', PieceData T w → PieceData T w' → w.1 ≠ w'.1 →
    writePieces T dir (ws ++ [w, w']) disk = writePieces T dir (ws ++ [w', w]) disk
  /-- Every slice of the data that is written is in bounds. -/
  writeBounds : ∀ w ∈ ws, ∀ f ∈ T.files, ∀ off len,
    dataSlice (w.1 * T.pieceLength) w.2.length f = some (off, len) →
      0 ≤ off ∧ 0 ≤ len ∧ off + len ≤ w.2.length
  /-- Every slice of the buffer that is read into is in bounds. -/
  readBounds : ∀ i < T.count, ∀ f ∈ T.files, ∀ off len,
    dataSlice (i * T.pieceLength) (pieceSize T i) f = some (off, len) →
      0 ≤ off ∧ 0 ≤ len ∧ off + len ≤ pieceSize T i

/-- What a sequence of writes does to the array and to the rest of the disk. -/
theorem writePieces_spec (hT : T.Layout) (hnd : (fileIds dir T.files).Nodup)
    (ha : Allocated dir disk T.files) {ws : List (ℕ × List UInt8)} (hws : ∀ w ∈ ws, PieceData T w) :
    Allocated dir (writePieces T dir ws disk) T.files ∧
      flat dir (writePieces T dir ws disk) T.files =
        ws.foldl (fun a w => splice a (w.1 * T.pieceLength.toNat) w.2) (flat dir disk T.files) ∧
      ∀ q ∉ fileIds dir T.files, writePieces T dir ws disk q = disk q := by
  induction ws generalizing disk with
  | nil => exact ⟨ha, rfl, fun _ _ => rfl⟩
  | cons w ws ih =>
    obtain ⟨disk', hw, hal, hflat, hout⟩ := writePiece_good hT hnd ha (hws w List.mem_cons_self)
    obtain ⟨hal', hflat', hout'⟩ := ih hal fun w' hw' => hws w' (List.mem_cons_of_mem _ hw')
    have hstep : writePieces T dir (w :: ws) disk = writePieces T dir ws disk' := by
      rw [writePieces, List.foldl_cons, hw, writePieces]
    rw [hstep]
    refine ⟨hal', ?_, fun q hp => (hout' q hp).trans (hout q hp)⟩
    rw [hflat', hflat, List.foldl_cons, pieceStart]

/-- The bytes of a piece, after other pieces have been stored. -/
theorem take_drop_stores (hT : T.Layout) {a : List UInt8} (ha : (a.length : ℤ) = T.totalLength)
    {w : ℕ × List UInt8} (hw : PieceData T w) {ws : List (ℕ × List UInt8)}
    (hws : ∀ w' ∈ ws, PieceData T w' ∧ w'.1 ≠ w.1) :
    ((ws.foldl (fun a w => splice a (w.1 * T.pieceLength.toNat) w.2) a).drop
        (pieceStart T w.1)).take w.2.length = (a.drop (pieceStart T w.1)).take w.2.length := by
  induction ws generalizing a with
  | nil => rfl
  | cons w' ws ih =>
    obtain ⟨hw', hne⟩ := hws w' List.mem_cons_self
    have hfit := piece_fits hT hw'
    have hfit' : pieceStart T w'.1 + w'.2.length ≤ a.length := by omega
    rw [List.foldl_cons, ← pieceStart, ih (by rw [length_splice hfit', ha])
      fun v hv => hws v (List.mem_cons_of_mem _ hv)]
    refine take_drop_splice_of_disjoint hfit' ?_
    rcases Nat.lt_or_gt_of_ne hne with hlt | hlt
    · exact Or.inr (piece_disjoint hT hw' hw hlt)
    · exact Or.inl (piece_disjoint hT hw hw' hlt)

/-- The array after two writes of different pieces, in either order. -/
theorem splice_comm (hT : T.Layout) {a : List UInt8} (ha : (a.length : ℤ) = T.totalLength)
    {w w' : ℕ × List UInt8} (hw : PieceData T w) (hw' : PieceData T w') (hne : w.1 ≠ w'.1) :
    splice (splice a (pieceStart T w.1) w.2) (pieceStart T w'.1) w'.2 =
      splice (splice a (pieceStart T w'.1) w'.2) (pieceStart T w.1) w.2 := by
  have hfit := piece_fits hT hw
  have hfit' := piece_fits hT hw'
  have hle : pieceStart T w.1 + w.2.length ≤ a.length := by omega
  have hle' : pieceStart T w'.1 + w'.2.length ≤ a.length := by omega
  rw [splice_eq_overlay (c := splice a _ _) (by rwa [length_splice hle]),
    splice_eq_overlay (c := splice a _ _) (by rwa [length_splice hle']), splice_eq_overlay hle,
    splice_eq_overlay hle']
  refine overlay_comm ?_
  rcases Nat.lt_or_gt_of_ne hne with hlt | hlt
  · have := piece_disjoint hT hw hw' hlt
    omega
  · have := piece_disjoint hT hw' hw hlt
    omega

/-- A piece reads as it was last written. -/
theorem readPiece_writePieces (hT : T.Layout) (hnd : (fileIds dir T.files).Nodup)
    (ha : Allocated dir disk T.files) {pre post : List (ℕ × List UInt8)} {i : ℕ} {d : List UInt8}
    (hws : ∀ w ∈ pre ++ (i, d) :: post, PieceData T w) (hlast : ∀ w ∈ post, w.1 ≠ i) :
    readPiece T (fun _ => .good) dir i (writePieces T dir (pre ++ (i, d) :: post) disk) =
      .ok d := by
  have hw : PieceData T (i, d) := hws _ (List.mem_append_right _ List.mem_cons_self)
  have hpost : ∀ w ∈ post, PieceData T w ∧ w.1 ≠ i := fun w hw =>
    ⟨hws w (List.mem_append_right _ (List.mem_cons_of_mem _ hw)), hlast w hw⟩
  obtain ⟨hal, hflat, -⟩ := writePieces_spec hT hnd ha hws
  obtain ⟨halpre, hflatpre, -⟩ :=
    writePieces_spec hT hnd ha fun v hv => hws v (List.mem_append_left _ hv)
  have hlen := length_flat_of_layout hT halpre
  have hfit : (pieceStart T i + d.length : ℤ) ≤ T.totalLength := piece_fits hT hw
  have hle : pieceStart T i + d.length ≤
      (flat dir (writePieces T dir pre disk) T.files).length := by omega
  have hsize : (pieceSize T i).toNat = d.length := by
    rw [← hw.2]
    rfl
  rw [readPiece_good hT hal hw.1, hflat, List.foldl_append, List.foldl_cons, ← hflatpre, hsize]
  refine congrArg _ (.trans (take_drop_stores hT ?_ hw hpost) (take_drop_splice hle))
  rw [← hlen]
  exact congrArg _ (length_splice hle)

/-- Writes of different pieces commute. -/
theorem writePieces_comm (hT : T.Layout) (hnd : (fileIds dir T.files).Nodup)
    (ha : Allocated dir disk T.files) {ws : List (ℕ × List UInt8)} (hws : ∀ w ∈ ws, PieceData T w)
    {w w' : ℕ × List UInt8} (hw : PieceData T w) (hw' : PieceData T w') (hne : w.1 ≠ w'.1) :
    writePieces T dir (ws ++ [w, w']) disk = writePieces T dir (ws ++ [w', w]) disk := by
  have hall : ∀ {v v'}, PieceData T v → PieceData T v' →
      ∀ u ∈ ws ++ [v, v'], PieceData T u := by
    intro v v' hv hv' u hu
    simp only [List.mem_append, List.mem_cons, List.not_mem_nil, or_false] at hu
    rcases hu with hu | rfl | rfl
    exacts [hws u hu, hv, hv']
  obtain ⟨hal, hflat, hout⟩ := writePieces_spec hT hnd ha (hall hw hw')
  obtain ⟨hal', hflat', hout'⟩ := writePieces_spec hT hnd ha (hall hw' hw)
  obtain ⟨halws, hflatws, -⟩ := writePieces_spec hT hnd ha hws
  refine disk_ext hal' hal ?_ fun q hp => (hout q hp).trans (hout' q hp).symm
  rw [hflat, hflat', List.foldl_append, List.foldl_append, ← hflatws]
  exact splice_comm hT (length_flat_of_layout hT halws) hw hw' hne

/-- **The files of a torrent are a faithful array**, for every well-formed layout whose files are
different ones on the disk: from the disk that `preallocate_files` leaves, for every sequence of
writes of whole pieces. -/
theorem flatStore (hT : T.Layout) (hnd : (fileIds dir T.files).Nodup) (disk₀ : Disk)
    (ws : List (ℕ × List UInt8)) (hws : ∀ w ∈ ws, PieceData T w) :
    ∃ disk, preallocateFiles (fun _ => .good) dir T.files disk₀ = (none, disk) ∧
      FlatStore T dir disk ws := by
  obtain ⟨disk, hpre, ha, -⟩ := preallocateFiles_good hT.length_nonneg hnd disk₀
  obtain ⟨hal, hflat, -⟩ := writePieces_spec hT hnd ha hws
  refine ⟨disk, hpre, ?_⟩
  constructor
  case returned =>
    rintro pre w post rfl
    obtain ⟨halpre, -⟩ :=
      writePieces_spec hT hnd ha fun v hv => hws v (List.mem_append_left _ hv)
    obtain ⟨_, hw, -⟩ := writePiece_good hT hnd halpre
      (hws w (List.mem_append_right _ List.mem_cons_self))
    rw [hw]
  case length_eq => exact length_flat_of_layout hT hal
  case contents => exact hflat
  case allocated => exact hal
  case read =>
    rintro pre i d post rfl hlast
    exact readPiece_writePieces hT hnd ha hws hlast
  case comm => exact fun w w' hw hw' hne => writePieces_comm hT hnd ha hws hw hw' hne
  case writeBounds =>
    exact fun w hw f hf off len h => dataSlice_bounds (by omega) (hT.length_nonneg f hf) h
  case readBounds =>
    exact fun i hi f hf off len h =>
      dataSlice_bounds (pieceSize_nonneg hT hi) (hT.length_nonneg f hf) h

/-! ### Small layouts -/

/-- The offsets of files one after the other. -/
theorem offset_eq_of_consecutive (h : Consecutive o files) :
    ∀ pre f post, files = pre ++ f :: post → f.offset = o + (pre.map FileInfo.length).sum := by
  intro pre
  induction pre generalizing o files with
  | nil =>
    rintro f post rfl
    rw [h.1, List.map_nil, List.sum_nil, add_zero]
  | cons f' pre ih =>
    rintro f post rfl
    rw [ih h.2.2 f post rfl, List.map_cons, List.sum_cons, add_assoc]

theorem layout_of_consecutive (hpl : 0 < T.pieceLength) (hpos : ∀ f ∈ T.files, 0 ≤ f.length)
    (hcons : Consecutive 0 T.files) (htotal : T.totalLength = (T.files.map FileInfo.length).sum)
    (hlt : T.totalLength < 2 ^ 63)
    (hnum : T.numPieces = (T.totalLength + T.pieceLength - 1) / T.pieceLength) : T.Layout where
  pieceLength_pos := hpl
  length_nonneg := hpos
  offset_eq := by
    intro pre f post hfiles
    rw [offset_eq_of_consecutive hcons pre f post hfiles, zero_add]
  totalLength_eq := htotal
  totalLength_lt := hlt
  numPieces_eq := hnum

/-- Three bytes in two pieces and three files, one of them empty: `a` has the first byte, `c`
the other two. -/
def threeFiles : Torrent where
  pieceLength := 2
  totalLength := 3
  numPieces := 2
  pieceHashes := List.replicate 2 (Vector.replicate 20 0)
  files := [⟨[0x61], 1, 0⟩, ⟨[0x62], 0, 1⟩, ⟨[0x63], 2, 1⟩]
  numPieces_nonneg := Torrent.twoBytes.numPieces_nonneg
  numPieces_lt := Torrent.twoBytes.numPieces_lt
  hashes_length := rfl

theorem layout_threeFiles : threeFiles.Layout :=
  layout_of_consecutive (by decide) (by decide) (by decide) (by decide) (by decide) (by decide)

/-- Both pieces are written, the first of them twice. -/
theorem flatStore_threeFiles :
    ∃ disk, preallocateFiles (fun _ => .good) (.plain [0x64]) threeFiles.files (fun _ => none) =
        (none, disk) ∧
      FlatStore threeFiles (.plain [0x64]) disk [(0, [1, 2]), (1, [3]), (0, [4, 5])] :=
  flatStore layout_threeFiles (by decide) _ _ (by decide)

/-- Two bytes in one piece and two files, `a` and `./a`. -/
def sameFile : Torrent :=
  { Torrent.oneByte with
    pieceLength := 2
    totalLength := 2
    files := [⟨[0x61], 1, 0⟩, ⟨[0x2e, 0x2f, 0x61], 1, 1⟩] }

theorem layout_sameFile : sameFile.Layout :=
  layout_of_consecutive (by decide) (by decide) (by decide) (by decide) (by decide) (by decide)

/-- **Different paths, one file.** In the directory `d` the files `a` and `./a` are the same,
although their paths differ: the second byte of the piece is written over the first. -/
theorem not_flatStore_sameFile :
    sameFile.Layout ∧ (sameFile.files.map FileInfo.path).Nodup ∧
      (∀ w ∈ [((0 : ℕ), ([1, 2] : List UInt8))], PieceData sameFile w) ∧
      ¬∃ disk, preallocateFiles (fun _ => .good) (.plain [0x64]) sameFile.files (fun _ => none) =
          (none, disk) ∧
        FlatStore sameFile (.plain [0x64]) disk [(0, [1, 2])] := by
  refine ⟨layout_sameFile, by decide, by decide, ?_⟩
  rintro ⟨disk, hpre, hstore⟩
  have hdisk : disk =
      (preallocateFiles (fun _ => .good) (.plain [0x64]) sameFile.files (fun _ => none)).2 := by
    rw [hpre]
  have hcontents := hstore.contents
  rw [hdisk] at hcontents
  revert hcontents
  decide

end DiskIOManager

end TransferEngine
