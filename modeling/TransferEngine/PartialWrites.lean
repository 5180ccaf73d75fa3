import TransferEngine.FlatStore

/-!
# Writes that go wrong

A write of a piece may throw, at any of the files the piece lies in: the file does not open, or
only some of the bytes get to the disk. It may also return without all bytes being there, when the
buffer of a stream is lost. What gets to a file is in any case a beginning of what was to go
there, so a write destroys nothing but its own piece, and one of which every byte lands leaves the
piece as it was given (`TransferEngine.DiskIOManager.partialWrite`).

Where no buffer is lost there is more to say. The files before the one the write stopped at have
been written by then, and the files after it are not touched: seen on the array that the files
make up, what has been written is the piece up to some byte.

A read may throw as well, but what a read returns is there: a piece that passes the check has its
digest, whatever has gone wrong before (`TransferEngine.DiskIOManager.digest_of_verifyPiece`).
-/

namespace TransferEngine

open Overlay

namespace DiskIOManager

variable {T : Torrent} {dir : OutputDir} {disk disk' : Disk} {files : List FileInfo}
  {file : FileInfo} {data c : List UInt8} {g o : ℤ} {i j m : ℕ}

/-- **Up to what byte data has been written**, where no buffer is lost: all of it if nothing was
thrown, and otherwise not beyond the file `write_piece` stopped at. -/
def Reaches (g o e : ℤ) (data : List UInt8) (thrown : Option DiskError) (m : ℕ) : Prop :=
  (thrown = none ∧ m = data.length) ∨ (thrown ≠ none ∧ o ≤ g + m ∧ g + m ≤ e)

/-- **Writing to a file** whose buffer is not lost: a beginning of the data is laid over its
contents. -/
theorem writeFile_prefix {io : FileInfo → IoOutcome} (hio : ∀ n, io file ≠ .lost n) (g : ℤ)
    (data : List UInt8) (hc : disk (fileAt dir file.path) = some c)
    (hl : (c.length : ℤ) = file.length) :
    ∃ m, Reaches g file.offset (file.offset + file.length) data
        (writeFile io dir g data file disk).1 m ∧
      (writeFile io dir g data file disk).2 = Function.update disk (fileAt dir file.path)
        (some (overlay (g - file.offset) (data.take m) c)) := by
  by_cases hgood : io file = .good
  · -- the outcome for other files does not matter
    have heq : writeFile io dir g data file disk =
        writeFile (fun _ => .good) dir g data file disk := by
      rw [writeFile, writeFile, hgood]
    rw [heq, writeFile_good g data hc hl]
    exact ⟨data.length, Or.inl ⟨rfl, rfl⟩, by rw [List.take_length]⟩
  · rw [writeFile]
    dsimp only
    split
    case isTrue hskip =>
      refine ⟨data.length, Or.inl ⟨rfl, rfl⟩, ?_⟩
      rw [List.take_length, overlay_of_disjoint (by omega), ← hc, Function.update_eq_self]
    case isFalse hskip =>
      rw [hc]
      cases hout : io file with
      | good => exact absurd hout hgood
      | lost missing => exact absurd hout (hio missing)
      | openFails =>
        -- nothing of the piece gets into this file
        dsimp only
        refine ⟨(max g file.offset - g).toNat, Or.inr ⟨by simp, by omega, by omega⟩, ?_⟩
        have hlen := List.length_take_le (max g file.offset - g).toNat data
        by_cases hg : file.offset ≤ g
        · rw [show (max g file.offset - g).toNat = 0 by omega, List.take_zero, overlay_nil, ← hc,
            Function.update_eq_self]
        · rw [overlay_of_disjoint (by omega), ← hc, Function.update_eq_self]
      | writeFails landed =>
        dsimp only
        have hoff : (max g file.offset - file.offset : ℤ) =
            g - file.offset + ((max g file.offset - g).toNat : ℤ) := by omega
        generalize hn : (min (g + data.length) (file.offset + file.length) -
          max g file.offset).toNat = n
        generalize hk : (max g file.offset - g).toNat = k at hoff
        refine ⟨k + min landed n, Or.inr ⟨by simp, by omega, by omega⟩, ?_⟩
        have hwin : ((data.take (k + min landed n)).drop k).take (min landed n) =
            ((data.drop k).take n).take landed := by
          rw [List.drop_take, Nat.add_sub_cancel_left, List.take_take, List.take_take, Nat.min_self]
        rw [writeAt_eq_overlay (by rw [List.length_take, List.length_take]; omega) (by omega), hoff,
          ← hwin, overlay_window (by omega) (Or.inr (List.length_take_le _ _))]

/-- A buffer that is lost leaves what a write that stops there leaves. -/
theorem writeFile_lost {io : FileInfo → IoOutcome} {missing : ℕ} (hio : io file = .lost missing)
    (dir : OutputDir) (g : ℤ) (data : List UInt8) (disk : Disk) :
    ∃ io', (∀ n, io' file ≠ IoOutcome.lost n) ∧
      (writeFile io dir g data file disk).2 = (writeFile io' dir g data file disk).2 := by
  refine ⟨fun _ => .writeFails (((data.drop (max g file.offset - g).toNat).take
    (min (g + data.length) (file.offset + file.length) - max g file.offset).toNat).length -
      (missing + 1)), by simp, ?_⟩
  rw [writeFile, writeFile, hio]
  dsimp only
  split
  case isTrue => rfl
  case isFalse =>
    cases disk (fileAt dir file.path) with
    | none => rfl
    | some c => rfl

/-- **Writing to a file**, whatever becomes of it: a beginning of the data is laid over its
contents. -/
theorem writeFile_overlay (io : FileInfo → IoOutcome) (g : ℤ) (data : List UInt8)
    (hc : disk (fileAt dir file.path) = some c) (hl : (c.length : ℤ) = file.length) :
    ∃ m, (writeFile io dir g data file disk).2 = Function.update disk (fileAt dir file.path)
      (some (overlay (g - file.offset) (data.take m) c)) := by
  by_cases hio : ∀ n, io file ≠ .lost n
  · obtain ⟨m, -, hm⟩ := writeFile_prefix hio g data hc hl
    exact ⟨m, hm⟩
  · push Not at hio
    obtain ⟨missing, hmissing⟩ := hio
    obtain ⟨io', hstops, hleaves⟩ := writeFile_lost hmissing dir g data disk
    obtain ⟨m, -, hm⟩ := writeFile_prefix hstops g data hc hl
    exact ⟨m, hleaves.trans hm⟩

theorem flat_cons (hc : disk (fileAt dir file.path) = some c) :
    flat dir disk (file :: files) = c ++ flat dir disk files := by
  rw [flat, List.flatMap_cons, hc, Option.getD_some, flat]

/-! ### Every outcome -/

/-- What a write of `data` at `g` may leave in the files: in each of them, a beginning of the data
is laid over what was there. -/
def LaidOver (dir : OutputDir) (g : ℤ) (data : List UInt8) (files : List FileInfo)
    (disk disk' : Disk) : Prop :=
  (∀ f ∈ files, ∃ c m, disk (fileAt dir f.path) = some c ∧
    disk' (fileAt dir f.path) = some (overlay (g - f.offset) (data.take m) c)) ∧
  ∀ q ∉ fileIds dir files, disk' q = disk q

theorem LaidOver.refl (ha : Allocated dir disk files) : LaidOver dir g data files disk disk := by
  refine ⟨fun f hf => ?_, fun _ _ => rfl⟩
  obtain ⟨c, hc, -⟩ := ha f hf
  exact ⟨c, 0, hc, by rw [List.take_zero, overlay_nil, hc]⟩

/-- The first of several different files, and then the others. -/
theorem LaidOver.cons {f : FileInfo} {k : ℕ} (hnot : fileAt dir f.path ∉ fileIds dir files)
    (hc : disk (fileAt dir f.path) = some c)
    (h : LaidOver dir g data files (Function.update disk (fileAt dir f.path)
      (some (overlay (g - f.offset) (data.take k) c))) disk') :
    LaidOver dir g data (f :: files) disk disk' := by
  constructor
  · intro f' hf'
    rcases List.mem_cons.mp hf' with rfl | hf'
    · exact ⟨c, k, hc, by rw [h.2 _ hnot, Function.update_self]⟩
    · obtain ⟨c', m, hc', hm⟩ := h.1 f' hf'
      -- the file is a different one
      have hne : fileAt dir f'.path ≠ fileAt dir f.path := by
        intro heq
        exact hnot (heq ▸ List.mem_map_of_mem hf')
      exact ⟨c', m, by rwa [Function.update_of_ne hne] at hc', hm⟩
  · intro q hq
    rw [fileIds, List.map_cons, List.mem_cons, not_or] at hq
    rw [h.2 q hq.2, Function.update_of_ne hq.1]

/-- **The loop of `write_piece`**, whatever becomes of it. -/
theorem writeFiles_overlay (io : FileInfo → IoOutcome) (g : ℤ) (data : List UInt8)
    (hnd : (fileIds dir files).Nodup) (ha : Allocated dir disk files) :
    LaidOver dir g data files disk (writeFiles io dir g data files disk).2 := by
  induction files generalizing disk with
  | nil => exact .refl ha
  | cons f fs ih =>
    obtain ⟨c, hc, hl⟩ := ha f List.mem_cons_self
    obtain ⟨hnot, hnd'⟩ := List.nodup_cons.mp hnd
    obtain ⟨k, hone⟩ := writeFile_overlay io g data hc hl
    have hother : ∀ q ∈ fileIds dir fs, (writeFile io dir g data f disk).2 q = disk q := by
      rw [hone]
      exact update_of_notMem hnot disk _
    have hal := allocated_congr hother fun f' hf' => ha f' (List.mem_cons_of_mem _ hf')
    refine .cons hnot hc (k := k) ?_
    rw [← hone, writeFiles]
    rcases hw : writeFile io dir g data f disk with ⟨_ | e, disk₁⟩
    · rw [hw] at hal
      exact ih hnd' hal
    · rw [hw] at hal
      exact .refl hal

theorem LaidOver.allocated (h : LaidOver dir g data files disk disk')
    (ha : Allocated dir disk files) : Allocated dir disk' files := by
  intro f hf
  obtain ⟨c, m, hc, hm⟩ := h.1 f hf
  obtain ⟨c', hc', hl⟩ := ha f hf
  obtain rfl : c = c' := Option.some.inj (hc.symm.trans hc')
  exact ⟨_, hm, by rw [length_overlay, hl]⟩

/-- **Outside the range of the data** the array is as it was. -/
theorem LaidOver.getElem?_flat (h : LaidOver dir g data files disk disk')
    (ha : Allocated dir disk files) (hcons : Consecutive o files) {y : ℕ}
    (hy : o + y < g ∨ g + data.length ≤ o + y) :
    (flat dir disk' files)[y]? = (flat dir disk files)[y]? := by
  have hfiles := h.1
  clear h
  induction files generalizing o y with
  | nil => rfl
  | cons f fs ih =>
    obtain ⟨rfl, -, hrest⟩ := hcons
    obtain ⟨c, m, hc, hm⟩ := hfiles f List.mem_cons_self
    obtain ⟨c', hc', hl⟩ := ha f List.mem_cons_self
    obtain rfl : c = c' := Option.some.inj (hc.symm.trans hc')
    rw [flat_cons hm, flat_cons hc]
    have hlen := List.length_take_le' m data
    by_cases hin : y < c.length
    · rw [List.getElem?_append_left (by rwa [length_overlay]), List.getElem?_append_left hin,
        getElem?_overlay_of_outside (by omega)]
    · rw [List.getElem?_append_right (by rw [length_overlay]; omega),
        List.getElem?_append_right (by omega), length_overlay]
      exact ih (fun f' hf' => ha f' (List.mem_cons_of_mem _ hf')) hrest (by omega)
        fun f' hf' => hfiles f' (List.mem_cons_of_mem _ hf')

/-! ### Where no buffer is lost -/

/-- **The loop of `write_piece`** without a lost buffer: a beginning of the data is laid over the
array. -/
theorem writeFiles_prefix {io : FileInfo → IoOutcome} (hio : ∀ f ∈ files, ∀ n, io f ≠ .lost n)
    (g : ℤ) (data : List UInt8) (hcons : Consecutive o files) (hnd : (fileIds dir files).Nodup)
    (ha : Allocated dir disk files) :
    ∃ m, ((writeFiles io dir g data files disk).1 = none ∧ m = data.length ∨
        (writeFiles io dir g data files disk).1 ≠ none ∧ o ≤ g + m) ∧
      flat dir (writeFiles io dir g data files disk).2 files =
        overlay (g - o) (data.take m) (flat dir disk files) := by
  induction files generalizing o disk with
  | nil => exact ⟨data.length, Or.inl ⟨rfl, rfl⟩, rfl⟩
  | cons f fs ih =>
    obtain ⟨c, hc, hl⟩ := ha f List.mem_cons_self
    obtain ⟨rfl, hpos, hrest⟩ := hcons
    obtain ⟨hnot, hnd'⟩ := List.nodup_cons.mp hnd
    obtain ⟨k, hk, hone⟩ := writeFile_prefix (hio f List.mem_cons_self) g data hc hl
    -- the other files are different ones
    have hother : ∀ q ∈ fileIds dir fs, (writeFile io dir g data f disk).2 q = disk q := by
      rw [hone]
      exact update_of_notMem hnot disk _
    have hal := allocated_congr hother fun f' hf' => ha f' (List.mem_cons_of_mem _ hf')
    have hfirst : (writeFile io dir g data f disk).2 (fileAt dir f.path) =
        some (overlay (g - f.offset) (data.take k) c) := by
      rw [hone, Function.update_self]
    rw [writeFiles]
    rcases hw : writeFile io dir g data f disk with ⟨_ | e, disk₁⟩ <;>
      rw [hw] at hk hother hal hfirst <;> dsimp only at hk hother hal hfirst ⊢
    · -- the first file is written in full
      obtain ⟨-, rfl⟩ | ⟨hne, -⟩ := hk
      swap
      · exact absurd rfl hne
      obtain ⟨m, hm, hrec⟩ := ih (fun f' hf' => hio f' (List.mem_cons_of_mem _ hf')) hrest hnd' hal
      have hkept := (writeFiles_overlay io g data hnd' hal).2 _ hnot
      refine ⟨m, hm.imp_right fun h => ⟨h.1, by omega⟩, ?_⟩
      -- where the write stopped is behind the first file
      rw [flat_cons (hkept.trans hfirst), List.take_length, hrec, flat_congr hother, flat_cons hc,
        overlay_append, hl, Int.sub_sub, overlay_take (c := c)]
      rcases hm with ⟨-, rfl⟩ | ⟨-, hle⟩
      · exact Or.inr le_rfl
      · exact Or.inl (by omega)
    · -- the write stops at the first file
      obtain ⟨hne, -⟩ | ⟨-, hlo, hhi⟩ := hk
      · cases hne
      have hlen := List.length_take_le k data
      refine ⟨k, Or.inr ⟨by simp, hlo⟩, ?_⟩
      rw [flat_cons hfirst, flat_congr hother, flat_cons hc, overlay_append,
        overlay_of_disjoint (c := flat dir disk fs) (by omega)]

/-- **Writing a piece** without a lost buffer: the array has the bytes of the piece where the piece
starts, up to some byte, and nothing else changes. If nothing was thrown, the bytes are all
there. -/
theorem writePiece_prefix (hT : T.Layout) (hnd : (fileIds dir T.files).Nodup)
    (ha : Allocated dir disk T.files) {io : FileInfo → IoOutcome}
    (hio : ∀ f ∈ T.files, ∀ n, io f ≠ .lost n) {w : ℕ × List UInt8} (hw : PieceData T w) :
    ∃ m, ((writePiece T io dir w.1 w.2 disk).1 = none → m = w.2.length) ∧
      flat dir (writePiece T io dir w.1 w.2 disk).2 T.files =
        splice (flat dir disk T.files) (pieceStart T w.1) (w.2.take m) := by
  obtain ⟨m, hm, hflat⟩ :=
    writeFiles_prefix hio (w.1 * T.pieceLength) w.2 (consecutive_of_layout hT) hnd ha
  have hlen := length_flat_of_layout hT ha
  have hfit := piece_fits hT hw
  have htake := List.length_take_le' m w.2
  rw [writePiece, if_neg (Nat.not_le.mpr hw.1)]
  refine ⟨m, fun hnone => ?_, ?_⟩
  · rcases hm with ⟨-, rfl⟩ | ⟨hne, -⟩
    · rfl
    · exact absurd hnone hne
  · rw [hflat, Int.sub_zero, ← cast_pieceStart hT, splice_eq_overlay (by omega)]

/-! ### A write that lands -/

/-- A write to a file that has no byte of the data changes nothing, if it does not throw. -/
theorem writeFile_of_misses {io : FileInfo → IoOutcome} (h : Misses g data.length file)
    (hnone : (writeFile io dir g data file disk).1 = none) :
    writeFile io dir g data file disk = writeFile (fun _ => .good) dir g data file disk := by
  rw [writeFile] at hnone
  rw [writeFile, writeFile]
  dsimp only at hnone ⊢
  split
  case isTrue => rfl
  case isFalse hin =>
    rw [if_neg hin] at hnone
    rw [Misses] at h
    -- there is nothing to be written, and so nothing to be lost
    rw [show (min (g + data.length) (file.offset + file.length) - max g file.offset).toNat = 0 by
      omega, List.take_zero] at hnone ⊢
    cases hc : disk (fileAt dir file.path) with
    | none => rfl
    | some c =>
      rw [hc] at hnone
      cases hio : io file with
      | good => rfl
      | lost missing => simp only [List.take_nil]
      | openFails =>
        rw [hio] at hnone
        cases hnone
      | writeFails landed =>
        rw [hio] at hnone
        cases hnone

/-- **A write that lands** is one in which nothing goes wrong. -/
theorem writeFiles_of_good {io : FileInfo → IoOutcome}
    (hio : ∀ f ∈ files, Misses g data.length f ∨ io f = .good)
    (hnone : (writeFiles io dir g data files disk).1 = none) :
    writeFiles io dir g data files disk = writeFiles (fun _ => .good) dir g data files disk := by
  induction files generalizing disk with
  | nil => rfl
  | cons f fs ih =>
    rw [writeFiles] at hnone
    have hfirst : writeFile io dir g data f disk =
        writeFile (fun _ => .good) dir g data f disk := by
      rcases hio f List.mem_cons_self with hmisses | hgood
      · refine writeFile_of_misses hmisses ?_
        rcases hw : writeFile io dir g data f disk with ⟨_ | e, disk₁⟩
        · rfl
        · rw [hw] at hnone
          cases hnone
      · rw [writeFile, writeFile, hgood]
    rw [hfirst] at hnone
    rw [writeFiles, writeFiles, hfirst]
    rcases hw : writeFile (fun _ => .good) dir g data f disk with ⟨_ | e, disk₁⟩
    · rw [hw] at hnone
      exact ih (fun f' hf' => hio f' (List.mem_cons_of_mem _ hf')) hnone
    · rfl

theorem of_landed {io : FileInfo → IoOutcome} (h : writeOutcome T io dir i data disk = .landed) :
    (writePiece T io dir i data disk).1 = none ∧
      ∀ f ∈ T.files, Misses (i * T.pieceLength) data.length f ∨ io f = .good := by
  rw [writeOutcome] at h
  split at h
  case isTrue => cases h
  case isFalse hnone =>
    split at h
    case isTrue hgood => exact ⟨not_not.mp hnone, hgood⟩
    case isFalse => cases h

/-! ### The bytes of a piece -/

variable (T dir) in
/-- The bytes of a piece, as the array has them. -/
def stored (disk : Disk) (i : ℕ) : List UInt8 :=
  ((flat dir disk T.files).drop (pieceStart T i)).take (pieceSize T i).toNat

/-- No piece is longer than the common length. -/
theorem pieceSize_le (hT : T.Layout) (hi : i < T.count) : pieceSize T i ≤ T.pieceLength := by
  rcases pieceSize_cases hT.pieceLength_pos hT.numPieces_eq hi with ⟨-, hs, -⟩ | ⟨hlast, -, hs⟩
  · exact hs.le
  · have hnn := T.numPieces_nonneg
    have hnum : T.numPieces = i + 1 := by
      rw [TorrentMetadata.count] at hlast
      omega
    have hdiv := Int.lt_ediv_add_one_mul_self (T.totalLength + T.pieceLength - 1)
      hT.pieceLength_pos
    rw [← hT.numPieces_eq, hnum, Int.add_mul, Int.add_mul, Int.one_mul] at hdiv
    omega

/-- A piece is a chunk of the array, of which the last may be shorter. -/
theorem stored_eq_chunk (hT : T.Layout) (ha : Allocated dir disk T.files) (hi : i < T.count) :
    stored T dir disk i = ((flat dir disk T.files).drop (i * T.pieceLength.toNat)).take
      T.pieceLength.toNat := by
  rw [stored, pieceStart]
  rcases pieceSize_cases hT.pieceLength_pos hT.numPieces_eq hi with ⟨-, hs, -⟩ | ⟨-, hpos, hs⟩
  · rw [hs]
  · -- of the last piece both are everything that is left
    have hlen := length_flat_of_layout hT ha
    have hstart := cast_pieceStart hT i
    have hle := pieceSize_le hT hi
    rw [pieceStart] at hstart
    rw [List.take_of_length_le (by rw [List.length_drop]; omega),
      List.take_of_length_le (by rw [List.length_drop]; omega)]

/-- **Writing a piece**, whatever becomes of it: the files have beginnings of the piece where it
lies in them, and nothing else changes. -/
theorem writePiece_overlay (hT : T.Layout) (hnd : (fileIds dir T.files).Nodup)
    (ha : Allocated dir disk T.files) (io : FileInfo → IoOutcome) {w : ℕ × List UInt8}
    (hw : PieceData T w) :
    LaidOver dir (pieceStart T w.1) w.2 T.files disk (writePiece T io dir w.1 w.2 disk).2 := by
  rw [writePiece, if_neg (Nat.not_le.mpr hw.1), cast_pieceStart hT]
  exact writeFiles_overlay io _ _ hnd ha

/-- **A write spares the other pieces**, whatever becomes of it. -/
theorem stored_writePiece_of_ne (hT : T.Layout) (hnd : (fileIds dir T.files).Nodup)
    (ha : Allocated dir disk T.files) (io : FileInfo → IoOutcome) {w : ℕ × List UInt8}
    (hw : PieceData T w) (hi : i < T.count) (hne : w.1 ≠ i) :
    stored T dir (writePiece T io dir w.1 w.2 disk).2 i = stored T dir disk i := by
  have hlaid := writePiece_overlay hT hnd ha io hw
  have hsize := pieceSize_nonneg hT hi
  -- any bytes of the right number stand for the piece that is spared
  have hz : PieceData T (i, List.replicate (pieceSize T i).toNat 0) :=
    ⟨hi, by rw [List.length_replicate, Int.toNat_of_nonneg hsize]⟩
  have hapart : pieceStart T i + (pieceSize T i).toNat ≤ pieceStart T w.1 ∨
      pieceStart T w.1 + w.2.length ≤ pieceStart T i := by
    rcases Nat.lt_or_gt_of_ne hne with hlt | hlt
    · exact Or.inr (piece_disjoint hT hw hz hlt)
    · have := piece_disjoint hT hz hw hlt
      rw [List.length_replicate] at this
      exact Or.inl this
  refine List.ext_getElem? fun y => ?_
  rw [stored, stored, List.getElem?_take, List.getElem?_take]
  split
  case isTrue hy =>
    rw [List.getElem?_drop, List.getElem?_drop,
      hlaid.getElem?_flat ha (consecutive_of_layout hT) (by omega)]
  case isFalse => rfl

/-- **A write that lands** leaves the piece as it was given. -/
theorem stored_writePiece_self (hT : T.Layout) (hnd : (fileIds dir T.files).Nodup)
    (ha : Allocated dir disk T.files) {io : FileInfo → IoOutcome} {w : ℕ × List UInt8}
    (hw : PieceData T w) (hland : writeOutcome T io dir w.1 w.2 disk = .landed) :
    stored T dir (writePiece T io dir w.1 w.2 disk).2 w.1 = w.2 := by
  obtain ⟨hnone, hgood⟩ := of_landed hland
  rw [writePiece, if_neg (Nat.not_le.mpr hw.1)] at hnone
  obtain ⟨disk', hwrite, -, hflat, -⟩ := writePiece_good hT hnd ha hw
  have heq : writePiece T io dir w.1 w.2 disk = (none, disk') := by
    rw [← hwrite, writePiece, writePiece, if_neg (Nat.not_le.mpr hw.1),
      if_neg (Nat.not_le.mpr hw.1), writeFiles_of_good hgood hnone]
  have hlen := length_flat_of_layout hT ha
  have hfit := piece_fits hT hw
  have hsize : (pieceSize T w.1).toNat = w.2.length := by
    rw [← hw.2, Int.toNat_natCast]
  rw [heq, stored, hflat, hsize, take_drop_splice (by omega)]

/-- **A write, whatever becomes of it.** Each file has a beginning of the piece laid over what was
in it, where the piece lies in the file, and no other file changes; every other piece reads as
before, and if every byte lands, the piece reads as it was given. If no buffer is lost, the array
has the piece up to some byte, and all of it unless something was thrown. -/
theorem partialWrite (hT : T.Layout) (hnd : (fileIds dir T.files).Nodup)
    (ha : Allocated dir disk T.files) (io : FileInfo → IoOutcome) {w : ℕ × List UInt8}
    (hw : PieceData T w) :
    (∀ f ∈ T.files, ∃ c m, disk (fileAt dir f.path) = some c ∧
      (writePiece T io dir w.1 w.2 disk).2 (fileAt dir f.path) =
        some (overlay (pieceStart T w.1 - f.offset) (w.2.take m) c)) ∧
    (∀ q ∉ fileIds dir T.files, (writePiece T io dir w.1 w.2 disk).2 q = disk q) ∧
    (∀ i < T.count, w.1 ≠ i →
      readPiece T (fun _ => .good) dir i (writePiece T io dir w.1 w.2 disk).2 =
        readPiece T (fun _ => .good) dir i disk) ∧
    (writeOutcome T io dir w.1 w.2 disk = .landed →
      readPiece T (fun _ => .good) dir w.1 (writePiece T io dir w.1 w.2 disk).2 = .ok w.2) ∧
    ((∀ f ∈ T.files, ∀ n, io f ≠ .lost n) →
      ∃ m, ((writePiece T io dir w.1 w.2 disk).1 = none → m = w.2.length) ∧
        flat dir (writePiece T io dir w.1 w.2 disk).2 T.files =
          splice (flat dir disk T.files) (pieceStart T w.1) (w.2.take m)) := by
  have hlaid := writePiece_overlay hT hnd ha io hw
  have hal := hlaid.allocated ha
  refine ⟨hlaid.1, hlaid.2, fun i hi hne => ?_, fun hland => ?_,
    fun hio => writePiece_prefix hT hnd ha hio hw⟩
  · rw [readPiece_good hT hal hi, readPiece_good hT ha hi, ← stored,
      stored_writePiece_of_ne hT hnd ha io hw hi hne, stored]
  · rw [readPiece_good hT hal hw.1, ← stored, stored_writePiece_self hT hnd ha hw hland]

/-- The files of `TransferEngine.DiskIOManager.threeFiles`, before anything is written. -/
def threeFilesDisk : Disk :=
  (preallocateFiles (fun _ => .good) (.plain [0x64]) threeFiles.files fun _ => none).2

theorem allocated_threeFilesDisk : Allocated (.plain [0x64]) threeFilesDisk threeFiles.files := by
  obtain ⟨disk, hpre, ha, -⟩ := preallocateFiles_good layout_threeFiles.length_nonneg
    (show (fileIds (.plain [0x64]) threeFiles.files).Nodup by decide) fun _ => none
  rwa [threeFilesDisk, hpre]

/-- The first piece is written to the files `a` and `c`. The byte for `a` is lost, and the one for
`c` gets there, in front of the second piece: that one reads as before, and the write returns. If
`c` does not open, the write throws, and both pieces are as they were but for the byte of `a`. -/
theorem partialWrite_threeFiles :
    readPiece threeFiles (fun _ => .good) (.plain [0x64]) 1
        (writePiece threeFiles (fun f => if f.path = [0x61] then .lost 0 else .good)
          (.plain [0x64]) 0 [1, 2] threeFilesDisk).2 =
      readPiece threeFiles (fun _ => .good) (.plain [0x64]) 1 threeFilesDisk ∧
    writeOutcome threeFiles (fun f => if f.path = [0x61] then .lost 0 else .good)
      (.plain [0x64]) 0 [1, 2] threeFilesDisk = .lost ∧
    (∃ m, ((writePiece threeFiles (fun f => if f.path = [0x61] then .good else .openFails)
          (.plain [0x64]) 0 [1, 2] threeFilesDisk).1 = none → m = 2) ∧
      flat (.plain [0x64]) (writePiece threeFiles
          (fun f => if f.path = [0x61] then .good else .openFails)
          (.plain [0x64]) 0 [1, 2] threeFilesDisk).2 threeFiles.files =
        splice (flat (.plain [0x64]) threeFilesDisk threeFiles.files) 0 ([1, 2].take m)) ∧
    readPiece threeFiles (fun _ => .good) (.plain [0x64]) 0
      (writePiece threeFiles (fun _ => .good) (.plain [0x64]) 0 [1, 2] threeFilesDisk).2 =
        .ok [1, 2] := by
  have hwrite : ∀ io, _ := fun io => partialWrite layout_threeFiles (by decide)
    allocated_threeFilesDisk io (w := (0, [1, 2])) (by decide)
  refine ⟨(hwrite _).2.2.1 1 (by decide) (by decide), by decide,
    (hwrite _).2.2.2.2 fun f hf n => ?_, (hwrite _).2.2.2.1 (by decide)⟩
  split <;> simp

/-- **A piece that reads with its digest passes the check**, and no other does. -/
theorem verifyPiece_eq_true_iff (hT : T.Layout) (ha : Allocated dir disk T.files)
    (sha1 : List UInt8 → Digest) (hi : i < T.count) :
    verifyPiece T sha1 (fun _ => .good) dir i disk = true ↔
      T.pieceHashes[i]? = some (sha1 (stored T dir disk i)) := by
  rw [verifyPiece, if_neg (Nat.not_le.mpr hi), readPiece_good hT ha hi, ← stored]
  exact beq_iff_eq

/-! ### Reads that throw -/

section Reading

variable {io : FileInfo → ReadOutcome} {read : List UInt8} {n : ℤ}

/-- A read that returns is as if nothing could go wrong. -/
theorem readFile_eq_ok (h : readFile io dir g n disk file data = .ok read) :
    readFile (fun _ => .good) dir g n disk file data = .ok read := by
  rw [readFile] at h ⊢
  dsimp only at h ⊢
  split
  case isTrue hout => rwa [if_pos hout] at h
  case isFalse hin =>
    rw [if_neg hin] at h
    cases hdisk : disk (fileAt dir file.path) <;> cases hio : io file <;>
      simp_all

theorem readFiles_eq_ok (h : readFiles io dir g n disk files data = .ok read) :
    readFiles (fun _ => .good) dir g n disk files data = .ok read := by
  induction files generalizing data with
  | nil => exact h
  | cons file files ih =>
    rw [readFiles] at h ⊢
    cases hfile : readFile io dir g n disk file data with
    | error e =>
      rw [hfile] at h
      cases h
    | ok mid =>
      rw [hfile] at h
      rw [readFile_eq_ok hfile]
      exact ih h

/-- **The check is sound**: a piece that passes it has its digest, whatever else went wrong. -/
theorem digest_of_verifyPiece {sha1 : List UInt8 → Digest} (hT : T.Layout)
    (ha : Allocated dir disk T.files) (hi : i < T.count)
    (h : verifyPiece T sha1 io dir i disk = true) :
    T.pieceHashes[i]? = some (sha1 (stored T dir disk i)) := by
  rw [← verifyPiece_eq_true_iff hT ha sha1 hi]
  have hsize := pieceSize_nonneg hT hi
  rw [verifyPiece, if_neg (Nat.not_le.mpr hi), readPiece, if_neg (Nat.not_le.mpr hi),
    if_neg (Int.not_lt.mpr hsize)] at h ⊢
  split at h
  case h_1 => cases h
  case h_2 data hread =>
    rw [readFiles_eq_ok hread]
    exact h

end Reading

/-! ### Creating the files -/

/-- Creating files without an exception is creating them with nothing going wrong. -/
theorem preallocateFiles_none {io : FileInfo → AllocOutcome}
    (h : preallocateFiles io dir files disk = (none, disk')) :
    (∀ f ∈ files, 0 ≤ f.length) ∧
      preallocateFiles (fun _ => .good) dir files disk = (none, disk') := by
  induction files generalizing disk with
  | nil => exact ⟨fun _ hf => absurd hf List.not_mem_nil, h⟩
  | cons f fs ih =>
    rw [preallocateFiles] at h ⊢
    cases hio : io f with
    | good =>
      have heq : allocFile io dir f disk = allocFile (fun _ => .good) dir f disk := by
        rw [allocFile, allocFile, hio]
      rw [heq] at h
      rcases ha : allocFile (fun _ => .good) dir f disk with ⟨_ | e, disk₁⟩
      · rw [ha] at h
        obtain ⟨hpos, hrest⟩ := ih h
        refine ⟨fun f' hf' => ?_, hrest⟩
        rcases List.mem_cons.mp hf' with rfl | hf'
        · -- a negative size would have thrown
          by_contra hneg
          rw [allocFile] at ha
          dsimp only at ha
          rw [if_pos (by omega)] at ha
          cases ha
        · exact hpos f' hf'
      · rw [ha] at h
        cases h
    | directoryFails =>
      rw [allocFile, hio] at h
      cases h
    | openFails =>
      rw [allocFile, hio] at h
      cases h
    | resizeFails =>
      rw [allocFile, hio] at h
      cases h

/-- Files that have been created without an exception are there, with their lengths. -/
theorem allocated_of_preallocateFiles {io : FileInfo → AllocOutcome}
    (hnd : (fileIds dir files).Nodup)
    (h : preallocateFiles io dir files disk = (none, disk')) : Allocated dir disk' files := by
  obtain ⟨hpos, hgood⟩ := preallocateFiles_none h
  obtain ⟨disk'', hpre, ha, -⟩ := preallocateFiles_good hpos hnd disk
  obtain rfl : disk'' = disk' := by
    rw [hpre] at hgood
    exact (Prod.mk.inj hgood).2
  exact ha

end DiskIOManager

end TransferEngine
