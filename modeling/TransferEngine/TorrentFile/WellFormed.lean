import TransferEngine.FlatStore
import TransferEngine.TorrentFile.RootScan
import Mathlib.Algebra.Order.BigOperators.Group.List
import Mathlib.Data.List.Forall2

/-!
# Metadata that is well formed

What the download takes for granted of its metadata is `TransferEngine.TorrentFile.WellFormed`.
`from_bencode` checks one thing of it, that the digests are as many as the total length takes, by
a division of `int64_t`. So metadata is well formed exactly if the numbers and the paths that
`info` gives are (`TransferEngine.TorrentFile.wellFormed_iff`): lengths that cancel out pass the
check (`TransferEngine.TorrentFile.not_wellFormed_cancelling`).
-/

namespace TransferEngine

open Bytes BencodeParser DiskIOManager

namespace TorrentFile

/-- **Well-formed metadata.** -/
structure WellFormed (m : TorrentMetadata) : Prop where
  /-- Pieces have bytes. -/
  pieceLength_pos : 0 < m.pieceLength
  /-- Lengths are not negative. -/
  length_nonneg : ∀ f ∈ m.files, 0 ≤ f.length
  /-- A file starts where those before it end. -/
  offset_eq : ∀ pre f post, m.files = pre ++ f :: post → f.offset = (pre.map FileInfo.length).sum
  /-- The total is the sum of the lengths. -/
  totalLength_eq : m.totalLength = (m.files.map FileInfo.length).sum
  /-- There is one digest per piece. -/
  numPieces_eq : m.numPieces = m.pieceHashes.length
  /-- The number of pieces is the total over the length of a piece, rounded up. -/
  numPieces_ceil : m.numPieces = (m.totalLength + m.pieceLength - 1) / m.pieceLength
  /-- No path is empty. -/
  path_ne : ∀ f ∈ m.files, f.path ≠ []
  /-- No two files have the same path. -/
  path_nodup : (m.files.map FileInfo.path).Nodup

/-- **What `info` has to give.** -/
structure InfoFields.Sane (F : InfoFields) : Prop where
  /-- Pieces have bytes. -/
  pieceLength_pos : 0 < F.pieceLength
  /-- Lengths are not negative. -/
  length_nonneg : ∀ f ∈ F.files, 0 ≤ f.2
  /-- The pieces are counted without overflow. -/
  sum_le : (F.files.map Prod.snd).sum + F.pieceLength ≤ 2 ^ 63
  /-- Their number is an `int32_t`. -/
  pieces_lt : F.pieces.length < 20 * 2 ^ 31
  /-- No path is empty. -/
  path_ne : ∀ f ∈ F.files, f.1 ≠ []
  /-- No two files have the same path. -/
  path_nodup : (F.files.map Prod.fst).Nodup

variable {m : TorrentFile} {info d : Dict} {F F' : InfoFields} {x : ℤ}

/-! ### Machine integers -/

theorem i64_of_lt (hlo : -2 ^ 63 ≤ x) (hhi : x < 2 ^ 63) : i64 x = x := by
  rw [i64, Int.bmod_def]
  omega

theorem i64_of_ge (hlo : 2 ^ 63 ≤ x) (hhi : x < 2 ^ 64) : i64 x = x - 2 ^ 64 := by
  rw [i64, Int.bmod_def]
  omega

theorem i32_eq_self_iff {n : ℕ} : i32 n = n ↔ n < 2 ^ 31 := by
  rw [i32, Int.bmod_def]
  omega

theorem i64_lt (x : ℤ) : i64 x < 2 ^ 63 := by
  rw [i64, Int.bmod_def]
  omega

/-- The two steps of `total_length + piece_length - 1` wrap like one. -/
theorem i64_sub_one (x : ℤ) : i64 (i64 x - 1) = i64 (x - 1) := by
  rw [i64, i64, i64, Int.bmod_sub_bmod]

/-! ### `info` gives one thing -/

theorem GivesFile.unique {v : BencodeValue} {f f' : List UInt8 × ℤ} (h : GivesFile v f)
    (h' : GivesFile v f') : f = f' := by
  obtain ⟨d, segments, rfl, hlen, hpath, hf⟩ := h
  obtain ⟨d', segments', hd, hlen', hpath', hf'⟩ := h'
  cases hd
  rw [hlen, Option.some.injEq, BencodeValue.int.injEq] at hlen'
  rw [hpath, Option.some.injEq, BencodeValue.list.injEq] at hpath'
  have hseg : segments = segments' :=
    List.map_injective_iff.mpr (fun _ _ hs => BencodeValue.string.inj hs) hpath'
  exact Prod.ext (by rw [hf, hf', hseg]) hlen'

theorem InfoFields.ReadFrom.unique (h : F.ReadFrom info) (h' : F'.ReadFrom info) : F = F' := by
  have hlen := h.pieceLength
  have hname := h.name
  have hpieces := h.pieces
  rw [h'.pieceLength, Option.some.injEq, BencodeValue.int.injEq] at hlen
  rw [h'.name, Option.some.injEq, BencodeValue.string.injEq] at hname
  rw [h'.pieces, Option.some.injEq, BencodeValue.string.injEq] at hpieces
  have hfiles : F.files = F'.files := by
    rcases h.files with ⟨l, hl, hfs⟩ | ⟨hnone, n, hn, hfs⟩ <;>
      rcases h'.files with ⟨l', hl', hfs'⟩ | ⟨hnone', n', hn', hfs'⟩
    · rw [hl, Option.some.injEq, BencodeValue.list.injEq] at hl'
      subst hl'
      exact List.right_unique_forall₂' (fun _ _ _ hv hv' => hv.unique hv') hfs hfs'
    · rw [hl] at hnone'
      cases hnone'
    · rw [hl'] at hnone
      cases hnone
    · rw [hn, Option.some.injEq, BencodeValue.int.injEq] at hn'
      rw [hfs, hfs', hn', hname]
  obtain ⟨pl, name, pieces, files⟩ := F
  obtain ⟨pl', name', pieces', files'⟩ := F'
  obtain rfl : pl' = pl := hlen
  obtain rfl : name' = name := hname
  obtain rfl : pieces' = pieces := hpieces
  obtain rfl : files = files' := hfiles
  rfl

/-- **A property of the fields of `info`** is one of the fields of the metadata. -/
theorem exists_fields_iff {sha1 : List UInt8 → Digest} {data : List UInt8} {m : TorrentFile}
    (h : fromBencode sha1 data = .ok (some m)) (Q : InfoFields → Prop) :
    (∃ d info F, parse data = .ok (.dict d) ∧ d.lookup (ascii "info") = some (.dict info) ∧
      InfoFields.ReadFrom F info ∧ Q F) ↔ Q m.fields := by
  obtain ⟨s, d, info, pieces, hd, hlook, ham⟩ := exists_assembled h
  constructor
  · rintro ⟨d', info', F, hd', hlook', hread, hF⟩
    rw [hd, Except.ok.injEq, BencodeValue.dict.injEq] at hd'
    subst hd'
    rw [hlook, Option.some.injEq, BencodeValue.dict.injEq] at hlook'
    subst hlook'
    rw [← hread.unique ham.readFrom]
    exact hF
  · exact fun hF => ⟨d, info, m.fields, hd, hlook, ham.readFrom, hF⟩

/-- Numbers that are parsed are `int64_t`. -/
theorem int_bounds {data : List UInt8} {key : List UInt8} {n : ℤ} (hd : parse data = .ok (.dict d))
    (hinfo : d.lookup (ascii "info") = some (.dict info)) (hn : info.lookup key = some (.int n)) :
    -2 ^ 63 < n ∧ n < 2 ^ 63 := by
  obtain ⟨-, hb⟩ := parse_eq_ok.mp hd
  cases hb with
  | dict _ _ _ hb =>
    cases hb _ (List.mem_of_lookup hinfo) with
    | dict _ _ _ hb =>
      cases hb _ (List.mem_of_lookup hn) with
      | int _ hlo hhi =>
        rw [leastInt] at hlo
        omega

/-! ### The files -/

theorem sum_length_nonneg {files : List FileInfo} (h : ∀ f ∈ files, 0 ≤ f.length) :
    0 ≤ (files.map FileInfo.length).sum := by
  refine List.sum_nonneg fun n hn => ?_
  obtain ⟨f, hf, rfl⟩ := List.mem_map.mp hn
  exact h f hf

/-- **The loop over `files` without overflow**: the files lie one after the other. -/
theorem readFiles_exact {o total : ℤ} {l : List BencodeValue} {files : List FileInfo}
    (h : readFiles o l = .ok (files, total)) (ho : 0 ≤ o) (hpos : ∀ f ∈ files, 0 ≤ f.length)
    (hsum : o + (files.map FileInfo.length).sum < 2 ^ 63) :
    Consecutive o files ∧ total = o + (files.map FileInfo.length).sum := by
  induction l generalizing o files with
  | nil =>
    cases h
    exact ⟨trivial, (Int.add_zero _).symm⟩
  | cons v l ih =>
    obtain ⟨f, fs, rfl, hf, hfs⟩ := readFiles_cons_eq_ok h
    obtain ⟨hfpos, hpos'⟩ := List.forall_mem_cons.mp hpos
    rw [List.map_cons, List.sum_cons] at hsum ⊢
    have hrest := sum_length_nonneg hpos'
    rw [i64_of_lt (by omega) (by omega)] at hfs
    obtain ⟨hcons, rfl⟩ := ih hfs (by omega) hpos' (by omega)
    exact ⟨⟨(readFile_eq_ok hf).2, hfpos, hcons⟩, by omega⟩

theorem readFiles_lt {o total : ℤ} {l : List BencodeValue} {files : List FileInfo}
    (h : readFiles o l = .ok (files, total)) (ho : o < 2 ^ 63) : total < 2 ^ 63 := by
  induction l generalizing o files with
  | nil =>
    cases h
    exact ho
  | cons v l ih =>
    obtain ⟨f, fs, rfl, hf, hfs⟩ := readFiles_cons_eq_ok h
    exact ih hfs (i64_lt _)

/-! ### The metadata -/

section Assembled

variable {sha1 : List UInt8 → Digest} {s : Root} {pieces : List UInt8}

theorem length_cutHashes (n : ℕ) (pieces : List UInt8) : (cutHashes n pieces).length = n := by
  induction n generalizing pieces with
  | zero => rfl
  | succ n ih => rw [cutHashes, List.length_cons, ih]

theorem map_length_files (m : TorrentFile) :
    m.fields.files.map Prod.snd = m.files.map FileInfo.length := by
  rw [fields, List.map_map]
  rfl

theorem map_path_files (m : TorrentFile) :
    m.fields.files.map Prod.fst = m.files.map FileInfo.path := by
  rw [fields, List.map_map]
  rfl

theorem forall_files {p : List UInt8 × ℤ → Prop} :
    (∀ f ∈ m.fields.files, p f) ↔ ∀ f ∈ m.files, p (f.path, f.length) :=
  List.forall_mem_map

/-- The count of digests is that of the pieces if it is an `int32_t`. -/
theorem Assembled.numPieces_eq_iff (h : Assembled sha1 s info pieces m) :
    m.numPieces = m.pieceHashes.length ↔ m.fields.pieces.length < 20 * 2 ^ 31 := by
  have hmod := h.length_mod
  rw [h.numPieces, h.pieceHashes, length_cutHashes, i32_eq_self_iff, h.fields_pieces]
  omega

/-- **The total length and the offsets**, where nothing overflows. -/
theorem Assembled.consecutive (h : Assembled sha1 s info pieces m)
    (hpos : ∀ f ∈ m.files, 0 ≤ f.length) (hsum : (m.files.map FileInfo.length).sum < 2 ^ 63) :
    Consecutive 0 m.files ∧ m.totalLength = (m.files.map FileInfo.length).sum := by
  rcases readLayout_eq_ok h.layout with ⟨l, hl, hfiles⟩ | ⟨-, -, hfiles⟩
  · obtain ⟨hcons, htotal⟩ := readFiles_exact hfiles le_rfl hpos (by omega)
    exact ⟨hcons, by omega⟩
  · rw [hfiles] at hpos ⊢
    exact ⟨⟨rfl, hpos _ List.mem_cons_self, trivial⟩, by simp⟩

/-- **The division that counts the pieces**, where nothing overflows. -/
theorem Assembled.ceil (h : Assembled sha1 s info pieces m) (hpl : 0 < m.pieceLength)
    (htotal : 0 ≤ m.totalLength) (hsum : m.totalLength + m.pieceLength ≤ 2 ^ 63)
    (hnum : m.numPieces = m.pieceHashes.length) :
    m.numPieces = (m.totalLength + m.pieceLength - 1) / m.pieceLength := by
  have hlt := h.numPieces_eq_iff.mp hnum
  have hcalc := h.calculated
  rw [h.fields_pieces] at hlt
  rw [i64_sub_one, i64_of_lt (by omega) (by omega), div64, if_neg (by omega), Option.some.injEq,
    i64_of_lt (by omega) (by omega), Int.tdiv_eq_ediv_of_nonneg (by omega)] at hcalc
  rw [hnum, h.pieceHashes, length_cutHashes, hcalc]

/-- Where the division overflows its quotient is at most zero. -/
theorem Assembled.sum_le (h : Assembled sha1 s info pieces m) (hpl : 0 < m.pieceLength)
    (hpl' : m.pieceLength < 2 ^ 63) (htotal : 0 ≤ m.totalLength) (htotal' : m.totalLength < 2 ^ 63)
    (hnum : m.numPieces = m.pieceHashes.length)
    (hceil : m.numPieces = (m.totalLength + m.pieceLength - 1) / m.pieceLength) :
    m.totalLength + m.pieceLength ≤ 2 ^ 63 := by
  by_contra hover
  have hlt := h.numPieces_eq_iff.mp hnum
  have hcalc := h.calculated
  rw [h.fields_pieces] at hlt
  rw [i64_sub_one, i64_of_ge (by omega) (by omega), div64, if_neg (by omega), Option.some.injEq,
    i64_of_lt (by omega) (by omega)] at hcalc
  have hneg : 0 ≤ (-(m.totalLength + m.pieceLength - 1 - 2 ^ 64)).tdiv m.pieceLength :=
    Int.tdiv_nonneg (by omega) hpl.le
  rw [Int.neg_tdiv] at hneg
  have hone : 1 ≤ (m.totalLength + m.pieceLength - 1) / m.pieceLength := by
    rw [Int.le_ediv_iff_mul_le hpl]
    omega
  rw [← hceil, hnum, h.pieceHashes, length_cutHashes] at hone
  omega

end Assembled

/-- **Metadata is well formed if `info` is.** For every file that `from_bencode` accepts, the
metadata is well formed if and only if the fields of `info` are sane, `info` being the dictionary
that `BencodeParser::parse` reads at that key. -/
theorem wellFormed_iff (sha1 : List UInt8 → Digest) (x : List UInt8) (m : TorrentFile)
    (h : fromBencode sha1 x = .ok (some m)) :
    WellFormed m.toTorrentMetadata ↔ ∃ d info F, parse x = .ok (.dict d) ∧
      d.lookup (ascii "info") = some (.dict info) ∧ InfoFields.ReadFrom F info ∧ F.Sane := by
  rw [exists_fields_iff h]
  obtain ⟨s, d, info, pieces, hd, hlook, ham⟩ := exists_assembled h
  have hpl := int_bounds hd hlook ham.pieceLength
  -- the total is an `int64_t`, whatever the lengths are
  have htotal : m.totalLength < 2 ^ 63 := by
    rcases readLayout_eq_ok ham.layout with ⟨l, -, hfiles⟩ | ⟨-, hlen, -⟩
    · exact readFiles_lt hfiles (by decide)
    · exact (int_bounds hd hlook hlen).2
  constructor
  · intro hm
    have hnonneg : 0 ≤ m.totalLength := by
      rw [hm.totalLength_eq]
      exact sum_length_nonneg hm.length_nonneg
    refine ⟨hm.pieceLength_pos, forall_files.mpr hm.length_nonneg, ?_,
      ham.numPieces_eq_iff.mp hm.numPieces_eq, forall_files.mpr hm.path_ne, ?_⟩
    · rw [map_length_files, ← hm.totalLength_eq]
      exact ham.sum_le hm.pieceLength_pos hpl.2 hnonneg htotal hm.numPieces_eq hm.numPieces_ceil
    · rw [map_path_files]
      exact hm.path_nodup
  · intro hF
    have hpos := forall_files.mp hF.length_nonneg
    have hplpos : 0 < m.pieceLength := hF.pieceLength_pos
    have hsum : (m.files.map FileInfo.length).sum + m.pieceLength ≤ 2 ^ 63 := by
      rw [← map_length_files]
      exact hF.sum_le
    -- no sum of lengths leaves `int64_t`, so the offsets are the exact ones
    obtain ⟨hcons, hlen⟩ := ham.consecutive hpos (by omega)
    have hnum := ham.numPieces_eq_iff.mpr hF.pieces_lt
    have hnonneg : 0 ≤ m.totalLength := by
      rw [hlen]
      exact sum_length_nonneg hpos
    refine ⟨hplpos, hpos, fun pre f post hfiles => ?_, hlen, hnum,
      ham.ceil hplpos hnonneg (by omega) hnum, forall_files.mp hF.path_ne, ?_⟩
    · rw [offset_eq_of_consecutive hcons pre f post hfiles, zero_add]
    · rw [← map_path_files]
      exact hF.path_nodup

/-- The file of one byte has sane fields. -/
theorem wellFormed_iff_tiny : ∃ d info F, parse tinyBytes = .ok (.dict d) ∧
    d.lookup (ascii "info") = some (.dict info) ∧ InfoFields.ReadFrom F info ∧ F.Sane := by
  have hcons : Consecutive 0 tiny.files := by decide
  refine (wellFormed_iff (fun _ => .ofBytes []) tinyBytes tiny (by decide +kernel)).mp
    ⟨by decide, by decide, fun pre f post hfiles => ?_, by decide, by decide, by decide, by decide,
      by decide⟩
  rw [offset_eq_of_consecutive hcons pre f post hfiles, zero_add]

/-- A torrent file with a file `a` of two bytes and a file `b` of minus one. -/
def cancellingBytes : List UInt8 :=
  ascii "d8:announce1:u4:infod5:filesld6:lengthi2e4:pathl1:aeed6:lengthi-1e4:pathl1:beee" ++
    ascii "4:name1:n12:piece lengthi1e6:pieces20:00000000000000000000ee"

/-- Its metadata, with a digest of zeros. -/
def cancelling : TorrentFile :=
  { tiny with
    name := ascii "n"
    files := [{ path := ascii "a", length := 2, offset := 0 },
      { path := ascii "b", length := -1, offset := 2 }] }

/-- **Lengths that cancel out are accepted**: the total is one byte and takes one piece, but one
file has a negative length. -/
theorem not_wellFormed_cancelling :
    fromBencode (fun _ => .ofBytes []) cancellingBytes = .ok (some cancelling) ∧
      ¬WellFormed cancelling.toTorrentMetadata := by
  refine ⟨by decide +kernel, fun hm => ?_⟩
  have hneg := hm.length_nonneg { path := ascii "b", length := -1, offset := 2 } (by decide)
  exact absurd hneg (by decide)

end TorrentFile

end TransferEngine
