import TransferEngine.Lib.Checked
import TransferEngine.TorrentFile.WellFormed

/-!
# Arithmetic that traps

`from_bencode` adds up lengths, and divides to count the pieces, without a look at the numbers,
which are whatever the file has. A sum of `int64_t` that leaves its range has no meaning in the
language, and neither has a division by zero. `TransferEngine.TorrentFile.fromBencodeChecked` is
`from_bencode` with these operations checked: it stops at the first one that has no result.
Where it does not, it is `from_bencode` (`TransferEngine.TorrentFile.follows_fromBencodeChecked`).

So `from_bencode` returns or throws, as it should, exactly where the numbers that the parser reads
leave all of these operations a result (`TransferEngine.TorrentFile.completes_iff`). A piece
length of zero leaves none (`TransferEngine.TorrentFile.not_completes_zero`).
-/

namespace TransferEngine

open Bytes BencodeParser Checked

namespace TorrentFile

/-- The operations of `from_bencode` that may have no result. -/
inductive Operation
  /-- `current_offset += length`. -/
  | fileOffset
  /-- `total_length + piece_length`. -/
  | lengthSum
  /-- One less than that. -/
  | lengthSumLessOne
  /-- The quotient by `piece_length`. -/
  | quotient
  /-- `static_cast<int32_t>(num_pieces)`. -/
  | pieceCount
  deriving DecidableEq

/-- How `from_bencode` may fail. -/
abbrev Failure := Checked.Failure TorrentError Operation

/-- What an `int64_t` holds. -/
def InInt64 (x : ℤ) : Prop := -2 ^ 63 ≤ x ∧ x < 2 ^ 63

instance (x : ℤ) : Decidable (InInt64 x) := inferInstanceAs (Decidable (_ ∧ _))

/-! ### The checked function -/

/-- A result that has to be an `int64_t`. -/
def toInt64 (x : ℤ) : Option ℤ := if InInt64 x then some x else none

/-- A number that has to be an `int32_t`. -/
def toInt32 (n : ℕ) : Option ℤ := if n < 2 ^ 31 then some n else none

/-- The loop over `files`. -/
def readFilesChecked : ℤ → List BencodeValue → Except Failure (List FileInfo × ℤ)
  | currentOffset, [] => .ok ([], currentOffset)
  | currentOffset, v :: l => do
    let file ← throwing (readFile currentOffset v)
    let currentOffset ← orTrap .fileOffset (toInt64 (currentOffset + file.length))
    let (files, total) ← readFilesChecked currentOffset l
    return (file :: files, total)

/-- The file layout and the total length. -/
def readLayoutChecked (name : List UInt8) (d : Dict) : Except Failure (List FileInfo × ℤ) :=
  match d.lookup (ascii "files") with
  | some v =>
    match asList v with
    | none => .error (.thrown .filesNotList)
    | some l => readFilesChecked 0 l
  | none => do
    let length ← throwing (require asInt .missingLength "length" d)
    return ([{ path := name, length, offset := 0 }], length)

/-- The check of the count of the pieces, and the count. -/
def countPieces (totalLength pieceLength : ℤ) (numPieces : ℕ) : Except Failure ℤ := do
  let sum ← orTrap .lengthSum (toInt64 (totalLength + pieceLength))
  let sum ← orTrap .lengthSumLessOne (toInt64 (sum - 1))
  let calculatedPieces ← orTrap .quotient (div64 sum pieceLength)
  if calculatedPieces ≠ i64 numPieces then .error (.thrown .pieceCountMismatch)
  else orTrap .pieceCount (toInt32 numPieces)

variable (sha1 : List UInt8 → Digest)

/-- The metadata, from what the root dictionary had. -/
def readInfoChecked (s : Root) : Except Failure TorrentFile :=
  match asDict s.infoVal with
  | none => .error (.thrown .missingInfo)
  | some d => do
    let pieceLength ← throwing (require asInt .missingPieceLength "piece length" d)
    let name ← throwing (require asString .missingName "name" d)
    let pieces ← throwing (require asString .missingPieces "pieces" d)
    if pieces.length % 20 ≠ 0 then .error (.thrown .piecesNotMultiple)
    else
      let numPieces := pieces.length / 20
      let (files, totalLength) ← readLayoutChecked name d
      let count ← countPieces totalLength pieceLength numPieces
      return {
        name
        announceUrl := s.announceUrl
        announceList := if s.announceList = [] ∧ s.announceUrl ≠ [] then [s.announceUrl]
          else s.announceList
        pieceLength
        totalLength
        numPieces := count
        pieceHashes := cutHashes numPieces pieces
        files
        infoHash := if s.infoSpan = [] then .ofBytes [] else sha1 s.infoSpan }

/-- **`from_bencode`, with its arithmetic checked.** -/
def fromBencodeChecked (data : List UInt8) : Except Failure TorrentFile := do
  let s ← throwing (scanRoot data)
  readInfoChecked sha1 s

/-- **`from_bencode` returns or throws**, and no operation on the way is without a result. -/
def Completes (data : List UInt8) : Prop :=
  (∃ m, fromBencodeChecked sha1 data = .ok m ∧ fromBencode sha1 data = .ok (some m)) ∨
    ∃ e, fromBencodeChecked sha1 data = .error (.thrown e) ∧ fromBencode sha1 data = .error e

variable {sha1} {s : Root} {d info : Dict} {data : List UInt8} {x : ℤ}

/-! ### Following the unchecked function -/

theorem toInt64_eq_some {y : ℤ} : toInt64 x = some y ↔ InInt64 x ∧ x = y := by
  rw [toInt64, Option.ite_none_right_eq_some, Option.some.injEq]

theorem toInt32_eq_some {n : ℕ} : toInt32 n = some x ↔ n < 2 ^ 31 ∧ n = x := by
  rw [toInt32, Option.ite_none_right_eq_some, Option.some.injEq]

theorem toInt32_eq_none {n : ℕ} : toInt32 n = none ↔ ¬n < 2 ^ 31 := by
  rw [toInt32, ite_eq_right_iff]
  exact forall_congr' fun _ => iff_of_false (fun h => nomatch h) id

theorem i64_of_inInt64 (h : InInt64 x) : i64 x = x := i64_of_lt h.1 h.2

theorem i32_of_lt {n : ℕ} (h : n < 2 ^ 31) : i32 n = n := i32_eq_self_iff.mpr h

/-- Where a sum is an `int64_t`, it does not wrap. -/
theorem follows_toInt64_bind {α β : Type} {r : α → β} {f : ℤ → Except Failure α}
    {y : Except TorrentError β} (op : Operation) (x : ℤ) (h : Follows r (f (i64 x)) y) :
    Follows r (orTrap op (toInt64 x) >>= f) y := by
  refine follows_orTrap_bind fun a ha => ?_
  obtain ⟨hx, rfl⟩ := toInt64_eq_some.mp ha
  rwa [i64_of_inInt64 hx] at h

theorem follows_readFilesChecked (o : ℤ) (l : List BencodeValue) :
    Follows id (readFilesChecked o l) (readFiles o l) := by
  induction l generalizing o with
  | nil => exact follows_ok id _
  | cons v l ih =>
    refine (follows_throwing (readFile o v)).bind fun file => follows_toInt64_bind .fileOffset _ ?_
    exact (ih _).bind fun fs => follows_ok id _

theorem follows_readLayoutChecked (name : List UInt8) (d : Dict) :
    Follows id (readLayoutChecked name d) (readLayout name d) := by
  rw [readLayoutChecked, readLayout]
  rcases d.lookup (ascii "files") with _ | v
  · exact (follows_throwing _).bind fun length => follows_ok id _
  · dsimp only
    rcases asList v with _ | l
    · exact follows_error id _
    · exact follows_readFilesChecked 0 l

theorem follows_readInfoChecked (s : Root) :
    Follows some (readInfoChecked sha1 s) (readInfo sha1 s) := by
  rw [readInfoChecked, readInfo]
  rcases asDict s.infoVal with _ | d
  · exact follows_error some _
  · refine (follows_throwing _).bind fun pieceLength => ?_
    refine (follows_throwing _).bind fun name => (follows_throwing _).bind fun pieces => ?_
    dsimp only [id]
    split
    case isTrue => exact follows_error some _
    case isFalse =>
      refine (follows_readLayoutChecked name d).bind fun layout => ?_
      obtain ⟨files, totalLength⟩ := layout
      dsimp only [id]
      rw [countPieces, bind_assoc]
      refine follows_toInt64_bind .lengthSum _ ?_
      rw [bind_assoc]
      refine follows_toInt64_bind .lengthSumLessOne _ ?_
      rw [bind_assoc]
      refine follows_orTrap_bind fun calculated hcalc => ?_
      rw [hcalc]
      dsimp only
      split
      case isTrue => exact follows_error some _
      case isFalse =>
        refine follows_orTrap_bind fun count hcount => ?_
        obtain ⟨hlt, rfl⟩ := toInt32_eq_some.mp hcount
        rw [i32_of_lt hlt]
        exact follows_ok some _

/-- **The checked function is the function**, but where an operation traps. -/
theorem follows_fromBencodeChecked (sha1 : List UInt8 → Digest) (data : List UInt8) :
    Follows some (fromBencodeChecked sha1 data) (fromBencode sha1 data) :=
  (follows_throwing _).bind fun s => follows_readInfoChecked s

/-! ### Where an operation traps -/

theorem traps_toInt64_bind {β : Type} {op : Operation} {f : ℤ → Except Failure β} :
    Traps (orTrap op (toInt64 x) >>= f) ↔ (InInt64 x → Traps (f x)) := by
  rw [traps_orTrap_bind]
  constructor
  · exact fun h hx => h x (toInt64_eq_some.mpr ⟨hx, rfl⟩)
  · intro h a ha
    obtain ⟨hx, rfl⟩ := toInt64_eq_some.mp ha
    exact h hx

/-- The function returns or throws where the checked one does not trap. -/
theorem completes_iff_not_traps : Completes sha1 data ↔ ¬Traps (fromBencodeChecked sha1 data) :=
  (follows_fromBencodeChecked sha1 data).same_iff

/-! ### The files -/

/-- Segments that are strings make a path. -/
theorem joinPath_of_strings (i : ℕ) (path : List UInt8) (segments : List BencodeString) :
    ∃ path', joinPath i path (segments.map .string) = .ok path' := by
  induction segments generalizing i path with
  | nil => exact ⟨path, rfl⟩
  | cons seg segments ih => exact ih (i + 1) _

/-- **An element that gives a path and a length** is read, and no other is. -/
theorem readFile_iff {o : ℤ} {v : BencodeValue} {f : FileInfo} :
    readFile o v = .ok f ↔ GivesFile v (f.path, f.length) ∧ f.offset = o := by
  refine ⟨readFile_eq_ok, ?_⟩
  rintro ⟨⟨d, segments, rfl, hlen, hpath, hf⟩, ho⟩
  obtain ⟨path', hjoin⟩ := joinPath_of_strings 0 [] segments
  obtain ⟨segments', hseg, hjoined⟩ := joinPath_eq_ok hjoin
  have hinj : segments = segments' :=
    List.map_injective_iff.mpr (fun _ _ hs => BencodeValue.string.inj hs) hseg
  have hlen' : require asInt .missingFileLength "length" d = .ok f.length :=
    requireInt_eq_ok.mpr hlen
  have hpath' : require asList .missingFilePath "path" d = .ok (segments.map .string) :=
    requireList_eq_ok.mpr hpath
  rw [readFile, asDict]
  dsimp only
  rw [hlen', ok_bind, hpath', ok_bind, hjoin, ok_bind]
  obtain ⟨path, length, offset⟩ := f
  dsimp only at ho hf
  rw [hjoined, ← hinj, ho, hf]
  rfl

/-- The sum of the lengths of files. -/
def lengths (fs : List (List UInt8 × ℤ)) : ℤ := (fs.map Prod.snd).sum

theorem traps_readFilesChecked_cons {o : ℤ} {v : BencodeValue} {l : List BencodeValue} :
    Traps (readFilesChecked o (v :: l)) ↔ ∃ f, readFile o v = .ok f ∧
      (InInt64 (o + f.length) → Traps (readFilesChecked (o + f.length) l)) := by
  rw [readFilesChecked, traps_throwing_bind]
  refine exists_congr fun f => and_congr_right fun _ => ?_
  rw [traps_toInt64_bind, traps_bind]
  refine imp_congr_right fun _ => or_iff_left ?_
  rintro ⟨fs, -, h⟩
  exact not_traps_ok _ h

/-- **Where the loop over `files` traps**: a running sum of the lengths, up to the first element
that gives no file, leaves `int64_t`. -/
theorem traps_readFilesChecked {o : ℤ} {l : List BencodeValue} (ho : InInt64 o) :
    Traps (readFilesChecked o l) ↔ ∃ pre fs, pre <+: l ∧ List.Forall₂ GivesFile pre fs ∧
      ¬InInt64 (o + lengths fs) := by
  induction l generalizing o with
  | nil =>
    refine iff_of_false (not_traps_ok _) ?_
    rintro ⟨pre, fs, hpre, hfs, hout⟩
    rw [List.prefix_nil.mp hpre, List.forall₂_nil_left_iff] at hfs
    rw [hfs, lengths, List.map_nil, List.sum_nil, add_zero] at hout
    exact hout ho
  | cons v l ih =>
    rw [traps_readFilesChecked_cons]
    constructor
    · rintro ⟨f, hf, htrap⟩
      obtain ⟨hgives, -⟩ := readFile_iff.mp hf
      by_cases hin : InInt64 (o + f.length)
      · obtain ⟨pre, fs, hpre, hfs, hout⟩ := (ih hin).mp (htrap hin)
        refine ⟨v :: pre, _ :: fs, List.cons_prefix_cons.mpr ⟨rfl, hpre⟩, .cons hgives hfs, ?_⟩
        rwa [lengths, List.map_cons, List.sum_cons, ← add_assoc]
      · refine ⟨[v], [(f.path, f.length)], List.cons_prefix_cons.mpr ⟨rfl, List.nil_prefix⟩,
          .cons hgives .nil, ?_⟩
        simpa [lengths] using hin
    · rintro ⟨pre, fs, hpre, hfs, hout⟩
      cases hfs with
      | nil =>
        rw [lengths, List.map_nil, List.sum_nil, add_zero] at hout
        exact absurd ho hout
      | @cons v' f pre fs hgives hfs =>
        obtain ⟨rfl, hpre'⟩ := List.cons_prefix_cons.mp hpre
        refine ⟨⟨f.1, f.2, o⟩, readFile_iff.mpr ⟨hgives, rfl⟩, fun hin => ?_⟩
        refine (ih hin).mpr ⟨pre, fs, hpre', hfs, ?_⟩
        rwa [lengths, List.map_cons, List.sum_cons, ← add_assoc] at hout

/-- What a file has of `info`. -/
def given (f : FileInfo) : List UInt8 × ℤ := (f.path, f.length)

/-- The loop ends at the sum of the lengths. -/
theorem readFilesChecked_eq_ok {o total : ℤ} {l : List BencodeValue} {files : List FileInfo}
    (h : readFilesChecked o l = .ok (files, total)) :
    List.Forall₂ GivesFile l (files.map given) ∧ total = o + lengths (files.map given) := by
  refine ⟨readFiles_eq_ok ((follows_readFilesChecked o l).1 _ h), ?_⟩
  induction l generalizing o files with
  | nil =>
    cases h
    exact (add_zero _).symm
  | cons v l ih =>
    rw [readFilesChecked] at h
    obtain ⟨f, -, h₁⟩ := bind_eq_ok h
    obtain ⟨o', ho', h₂⟩ := bind_eq_ok h₁
    obtain ⟨⟨fs, total'⟩, hfs, h₃⟩ := bind_eq_ok h₂
    cases h₃
    obtain ⟨-, rfl⟩ := toInt64_eq_some.mp (orTrap_eq_ok.mp ho')
    rw [ih hfs, lengths, lengths, List.map_cons, List.map_cons, List.sum_cons, add_assoc]
    rfl

/-- Where all elements give files, the loop ends or traps. -/
theorem exists_readFilesChecked {o : ℤ} {l : List BencodeValue} {fs : List (List UInt8 × ℤ)}
    (hfs : List.Forall₂ GivesFile l fs) (hno : ¬Traps (readFilesChecked o l)) :
    ∃ files, readFilesChecked o l = .ok (files, o + lengths fs) ∧ files.map given = fs := by
  induction hfs generalizing o with
  | nil =>
    refine ⟨[], ?_, rfl⟩
    rw [readFilesChecked, lengths, List.map_nil, List.sum_nil, add_zero]
  | @cons v f l fs hf hfs ih =>
    have hread : readFile o v = .ok ⟨f.1, f.2, o⟩ := readFile_iff.mpr ⟨hf, rfl⟩
    rw [traps_readFilesChecked_cons, not_exists] at hno
    have hno' := hno ⟨f.1, f.2, o⟩
    rw [not_and, Classical.not_imp] at hno'
    obtain ⟨hin, hrest⟩ := hno' hread
    obtain ⟨files, hfiles, hmap⟩ := ih hrest
    refine ⟨⟨f.1, f.2, o⟩ :: files, ?_, by rw [List.map_cons, hmap, given]⟩
    rw [readFilesChecked, hread]
    show (orTrap _ _ >>= _) = _
    rw [orTrap_eq_ok.mpr (toInt64_eq_some.mpr ⟨hin, rfl⟩), ok_bind, hfiles, ok_bind, lengths,
      lengths, List.map_cons, List.sum_cons, add_assoc]
    rfl

theorem traps_readLayoutChecked {name : List UInt8} : Traps (readLayoutChecked name info) ↔
    ∃ l, info.lookup (ascii "files") = some (.list l) ∧ Traps (readFilesChecked 0 l) := by
  rw [readLayoutChecked]
  rcases info.lookup (ascii "files") with _ | v
  · refine iff_of_false ?_ (by simp)
    rw [traps_throwing_bind]
    rintro ⟨length, -, h⟩
    exact not_traps_ok _ h
  · dsimp only
    rcases hv : asList v with _ | l
    · refine iff_of_false (not_traps_thrown _) ?_
      rintro ⟨l, hl, -⟩
      obtain rfl := Option.some.inj hl
      cases hv
    · rw [asList_eq_some.mp hv]
      simp

/-- The layout is that of the files of `info`. -/
theorem readLayoutChecked_eq_ok {name : List UInt8} {files : List FileInfo} {total : ℤ}
    (h : readLayoutChecked name info = .ok (files, total)) :
    total = lengths (files.map given) ∧
      ((∃ l, info.lookup (ascii "files") = some (.list l) ∧
          List.Forall₂ GivesFile l (files.map given)) ∨
        (info.lookup (ascii "files") = none ∧ ∃ n, info.lookup (ascii "length") = some (.int n) ∧
          files.map given = [(name, n)])) := by
  rcases readLayout_eq_ok ((follows_readLayoutChecked name info).1 _ h) with
    ⟨l, hl, hfiles⟩ | ⟨hnone, hlen, rfl⟩
  · rw [readLayoutChecked, hl] at h
    obtain ⟨hgives, htotal⟩ := readFilesChecked_eq_ok h
    exact ⟨by rw [htotal, zero_add], Or.inl ⟨l, hl, hgives⟩⟩
  · exact ⟨by simp [lengths, given], Or.inr ⟨hnone, total, hlen, rfl⟩⟩

theorem exists_readLayoutChecked {F : InfoFields} (hF : F.ReadFrom info)
    (hno : ¬Traps (readLayoutChecked F.name info)) :
    ∃ files, readLayoutChecked F.name info = .ok (files, lengths F.files) := by
  rcases hF.files with ⟨l, hl, hfs⟩ | ⟨hnone, n, hn, hfs⟩
  · rw [traps_readLayoutChecked, not_exists] at hno
    obtain ⟨files, hfiles, -⟩ := exists_readFilesChecked (o := 0) hfs fun ht => hno l ⟨hl, ht⟩
    refine ⟨files, ?_⟩
    rw [readLayoutChecked, hl]
    show readFilesChecked 0 l = _
    rw [hfiles, zero_add]
  · have hlen : require asInt .missingLength "length" info = .ok n :=
      requireInt_eq_ok.mpr hn
    refine ⟨[⟨F.name, n, 0⟩], ?_⟩
    rw [readLayoutChecked, hnone, hfs]
    dsimp only
    rw [hlen]
    simp [throwing, Except.mapError, lengths]

/-! ### The count -/

/-- **The pieces can be counted**, and their number is an `int32_t` if it is that of the
digests. -/
structure InfoFields.Countable (F : InfoFields) : Prop where
  /-- The total and the length of a piece add up to an `int64_t`. -/
  lengthSum : InInt64 (lengths F.files + F.pieceLength)
  /-- So does one less. -/
  lengthSumLessOne : InInt64 (lengths F.files + F.pieceLength - 1)
  /-- The length of a piece is not zero. -/
  pieceLength_ne : F.pieceLength ≠ 0
  /-- The quotient is not `2 ^ 63`. -/
  quotient : ¬(lengths F.files + F.pieceLength - 1 = -2 ^ 63 ∧ F.pieceLength = -1)
  /-- The count is an `int32_t`, where it is the quotient. -/
  pieceCount : (lengths F.files + F.pieceLength - 1).tdiv F.pieceLength =
    (F.pieces.length / 20 : ℕ) → F.pieces.length / 20 < 2 ^ 31

/-- Where the end of the check traps, from the division on. -/
theorem traps_quotient {a b : ℤ} {n : ℕ} :
    Traps (orTrap Operation.quotient (div64 a b) >>= fun q =>
      if q ≠ i64 n then .error (.thrown TorrentError.pieceCountMismatch)
      else orTrap .pieceCount (toInt32 n)) ↔
      (b = 0 ∨ (a = -2 ^ 63 ∧ b = -1)) ∨ (a.tdiv b = i64 n ∧ ¬n < 2 ^ 31) := by
  rw [traps_orTrap_bind, div64]
  by_cases hdiv : b = 0 ∨ (a = -2 ^ 63 ∧ b = -1)
  · rw [if_pos hdiv]
    exact iff_of_true (fun q hq => absurd hq.symm (Option.some_ne_none q)) (Or.inl hdiv)
  · rw [if_neg hdiv, or_iff_right hdiv]
    simp only [Option.some.injEq, forall_eq']
    by_cases heq : a.tdiv b = i64 n
    · rw [if_neg (not_not.mpr heq), and_iff_right heq, traps_orTrap, toInt32_eq_none]
    · rw [if_pos heq]
      exact iff_of_false (not_traps_thrown _) fun h => heq h.1

/-- **Where counting the pieces traps.** -/
theorem traps_countPieces {F : InfoFields} (hlen : F.pieces.length < 2 ^ 64) :
    Traps (countPieces (lengths F.files) F.pieceLength (F.pieces.length / 20)) ↔
      ¬F.Countable := by
  have hcount : i64 (F.pieces.length / 20 : ℕ) = (F.pieces.length / 20 : ℕ) :=
    i64_of_lt (by omega) (by omega)
  rw [countPieces, traps_toInt64_bind, traps_toInt64_bind, traps_quotient, hcount]
  constructor
  · rintro h ⟨hsum, hless, hne, hquot, hfit⟩
    rcases h hsum hless with (hzero | hover) | ⟨heq, hbig⟩
    · exact hne hzero
    · exact hquot hover
    · exact hbig (hfit heq)
  · intro h hsum hless
    by_contra hc
    rw [not_or, not_or] at hc
    obtain ⟨⟨hne, hquot⟩, hfit⟩ := hc
    refine h ⟨hsum, hless, hne, hquot, fun heq => ?_⟩
    by_contra hbig
    exact hfit ⟨heq, hbig⟩

/-! ### `info` -/

/-- `info` has a length of a piece, a name, and digests that are all complete. -/
structure HasHead (info : Dict) (pl : ℤ) (title digests : List UInt8) : Prop where
  /-- The length of a piece. -/
  pieceLength : info.lookup (ascii "piece length") = some (.int pl)
  /-- The name. -/
  name : info.lookup (ascii "name") = some (.string title)
  /-- The digests. -/
  pieces : info.lookup (ascii "pieces") = some (.string digests)
  /-- They are all complete. -/
  length_mod : digests.length % 20 = 0

/-- **The numbers of `info` stay in range.** -/
structure Fits (info : Dict) : Prop where
  /-- The running sums of the lengths, up to the first element that gives no file, are
  `int64_t`. -/
  offsets : ∀ l, info.lookup (ascii "files") = some (.list l) → ∀ pre fs, pre <+: l →
    List.Forall₂ GivesFile pre fs → InInt64 (lengths fs)
  /-- The pieces can be counted, where all fields are there. -/
  counts : ∀ F : InfoFields, F.ReadFrom info → F.Countable

theorem HasHead.unique {F : InfoFields} {pl : ℤ} {name pieces : List UInt8}
    (h : HasHead info pl name pieces) (hF : F.ReadFrom info) :
    F.pieceLength = pl ∧ F.name = name ∧ F.pieces = pieces :=
  ⟨BencodeValue.int.inj (Option.some.inj (hF.pieceLength.symm.trans h.pieceLength)),
    BencodeValue.string.inj (Option.some.inj (hF.name.symm.trans h.name)),
    BencodeValue.string.inj (Option.some.inj (hF.pieces.symm.trans h.pieces))⟩

theorem traps_readLayoutChecked_iff {name : List UInt8} : Traps (readLayoutChecked name info) ↔
    ∃ l, info.lookup (ascii "files") = some (.list l) ∧ ∃ pre fs, pre <+: l ∧
      List.Forall₂ GivesFile pre fs ∧ ¬InInt64 (lengths fs) := by
  rw [traps_readLayoutChecked]
  refine exists_congr fun l => and_congr_right fun _ => ?_
  rw [traps_readFilesChecked (by decide)]
  simp only [zero_add]

/-- Reading `info` traps only after the head: where the files are read, or where the pieces are
counted. -/
theorem traps_readInfoChecked_cases (hinfo : asDict s.infoVal = some info) :
    Traps (readInfoChecked sha1 s) ↔ ∃ pl name pieces, HasHead info pl name pieces ∧
      (Traps (readLayoutChecked name info) ∨ ∃ files total,
        readLayoutChecked name info = .ok (files, total) ∧
          Traps (countPieces total pl (pieces.length / 20))) := by
  rw [readInfoChecked, hinfo]
  constructor
  · intro h
    obtain ⟨pl, hpl, h₁⟩ := traps_throwing_bind.mp h
    obtain ⟨name, hname, h₂⟩ := traps_throwing_bind.mp h₁
    obtain ⟨pieces, hpieces, h₃⟩ := traps_throwing_bind.mp h₂
    split at h₃
    case isTrue => exact absurd h₃ (not_traps_thrown _)
    case isFalse hmod =>
      refine ⟨pl, name, pieces, ⟨requireInt_eq_ok.mp hpl, requireString_eq_ok.mp hname,
        requireString_eq_ok.mp hpieces, not_not.mp hmod⟩, ?_⟩
      refine (traps_bind.mp h₃).imp id ?_
      rintro ⟨⟨files, total⟩, hlayout, h₄⟩
      rcases traps_bind.mp h₄ with hcount | ⟨count, -, h₅⟩
      · exact ⟨files, total, hlayout, hcount⟩
      · exact absurd h₅ (not_traps_ok _)
  · rintro ⟨pl, name, pieces, hhead, h⟩
    refine traps_throwing_bind.mpr ⟨pl, requireInt_eq_ok.mpr hhead.pieceLength, ?_⟩
    refine traps_throwing_bind.mpr ⟨name, requireString_eq_ok.mpr hhead.name, ?_⟩
    refine traps_throwing_bind.mpr ⟨pieces, requireString_eq_ok.mpr hhead.pieces, ?_⟩
    dsimp only
    rw [if_neg (not_not.mpr hhead.length_mod), traps_bind]
    refine h.imp id ?_
    rintro ⟨files, total, hlayout, hcount⟩
    exact ⟨(files, total), hlayout, traps_bind.mpr (Or.inl hcount)⟩

/-- **Where reading `info` traps.** -/
theorem traps_readInfoChecked (hinfo : asDict s.infoVal = some info)
    (hlen : ∀ pieces, info.lookup (ascii "pieces") = some (.string pieces) →
      pieces.length < 2 ^ 64) :
    Traps (readInfoChecked sha1 s) ↔ (∃ pl name pieces, HasHead info pl name pieces) ∧
      ¬Fits info := by
  rw [traps_readInfoChecked_cases hinfo]
  constructor
  · rintro ⟨pl, name, pieces, hhead, h⟩
    refine ⟨⟨pl, name, pieces, hhead⟩, fun hfits => ?_⟩
    rcases h with hlayout | ⟨files, total, hlayout, hcount⟩
    · obtain ⟨l, hl, pre, fs, hpre, hfs, hout⟩ := traps_readLayoutChecked_iff.mp hlayout
      exact hout (hfits.offsets l hl pre fs hpre hfs)
    · obtain ⟨rfl, hfiles⟩ := readLayoutChecked_eq_ok hlayout
      have hread : InfoFields.ReadFrom ⟨pl, name, pieces, files.map given⟩ info :=
        ⟨hhead.pieceLength, hhead.name, hhead.pieces, hfiles⟩
      exact (traps_countPieces (F := ⟨pl, name, pieces, files.map given⟩)
        (hlen pieces hhead.pieces)).mp hcount (hfits.counts _ hread)
  · rintro ⟨⟨pl, name, pieces, hhead⟩, hno⟩
    refine ⟨pl, name, pieces, hhead, ?_⟩
    by_contra hc
    rw [not_or] at hc
    obtain ⟨hlayout, hrest⟩ := hc
    refine hno ⟨fun l hl pre fs hpre hfs => ?_, fun F hF => ?_⟩
    · by_contra hout
      exact hlayout (traps_readLayoutChecked_iff.mpr ⟨l, hl, pre, fs, hpre, hfs, hout⟩)
    · obtain ⟨rfl, rfl, rfl⟩ := hhead.unique hF
      obtain ⟨files, hfiles⟩ := exists_readLayoutChecked hF hlayout
      by_contra hcount
      exact hrest ⟨files, _, hfiles, (traps_countPieces (hlen _ hhead.pieces)).mpr hcount⟩

/-! ### The root -/

/-- One round of the loop keeps what is read. -/
theorem scanValue_encodeValue {key : BencodeString} {v : BencodeValue} {rest : List UInt8}
    (hv : parseValue (encodeValue v ++ rest) = .ok (v, rest))
    (hurl : key = ascii "announce" → ∃ url, v = .string url) :
    scanValue key s (encodeValue v ++ rest) = .ok (absorb s (key, v), rest) := by
  have hok : ∃ s', scanValue key s (encodeValue v ++ rest) = .ok (s', rest) := by
    rw [scanValue, lift_eq_ok.mpr hv, ok_bind]
    dsimp only
    by_cases hann : key = ascii "announce"
    · obtain ⟨url, rfl⟩ := hurl hann
      exact ⟨_, if_pos hann⟩
    rw [if_neg hann]
    by_cases hlist : key = ascii "announce-list"
    · exact ⟨_, if_pos hlist⟩
    rw [if_neg hlist]
    by_cases hinfo : key = ascii "info"
    · -- what remains after a value is no longer than before
      rw [if_pos hinfo, if_neg (by rw [List.length_append]; omega)]
      exact ⟨_, rfl⟩
    · exact ⟨_, if_neg hinfo⟩
  obtain ⟨s', hs'⟩ := hok
  obtain ⟨v', hv', rfl, -⟩ := scanValue_eq_ok hs'
  rw [hv, Except.ok.injEq, Prod.mk.injEq] at hv'
  rw [hs', hv'.1]

/-- The loop over the entries of the root dictionary ends at the closing byte. -/
theorem scanEntries_encodeEntries {rounds : ℕ} {lastKey : Option BencodeString} {rest : List UInt8}
    (hsorted : (d.map Prod.fst).Pairwise (· < ·))
    (hlast : ∀ k, lastKey = some k → ∀ e ∈ d, k < e.1) (hlens : ∀ e ∈ d, e.1.length ≤ sizeMax)
    (hbs : ∀ e ∈ d, e.2.Bounded leastInt)
    (hurl : ∀ e ∈ d, e.1 = ascii "announce" → ∃ url, e.2 = .string url)
    (hrounds : d.length ≤ rounds) :
    scanEntries rounds lastKey s (encodeEntries d ++ 0x65 :: rest) =
      .ok (d.foldl absorb s, 0x65 :: rest) := by
  induction d generalizing rounds lastKey s with
  | nil =>
    rw [encodeEntries, List.nil_append]
    cases rounds with
    | zero => rfl
    | succ rounds => rfl
  | cons e d ih =>
    obtain ⟨key, v⟩ := e
    obtain ⟨hlen, hlens'⟩ := List.forall_mem_cons.mp hlens
    obtain ⟨hb, hbs'⟩ := List.forall_mem_cons.mp hbs
    obtain ⟨hv, hurl'⟩ := List.forall_mem_cons.mp hurl
    rw [List.map_cons, List.pairwise_cons] at hsorted
    obtain ⟨rounds, rfl⟩ := Nat.exists_eq_add_one_of_ne_zero
      (show rounds ≠ 0 by rw [List.length_cons] at hrounds; omega)
    have hcheck : checkKey TorrentError.duplicateKey .keysNotSorted lastKey key = .ok () :=
      checkKey_eq_ok.mpr fun k hk => hlast k hk _ List.mem_cons_self
    have hnext : ∀ k, some key = some k → ∀ e ∈ d, k < e.1 := by
      rintro k ⟨⟩ e he
      exact hsorted.1 _ (List.mem_map_of_mem he)
    have hparse : parseValue (encodeValue v ++ (encodeEntries d ++ 0x65 :: rest)) =
        .ok (v, encodeEntries d ++ 0x65 :: rest) :=
      parseValueTo_encodeValue hb (by rw [List.length_append]; omega)
    rw [encodeEntries, encodeEntry, List.append_assoc, List.append_assoc, scanEntries,
      if_pos (hasItem_encodeString key _), lift_eq_ok.mpr (parseString_eq_ok.mpr ⟨rfl, hlen⟩),
      ok_bind]
    dsimp only
    rw [hcheck, ok_bind, scanValue_encodeValue hparse hv, ok_bind]
    exact ih hsorted.2 hnext hlens' hbs' hurl' (Nat.le_of_succ_le_succ hrounds)

/-- **The root dictionary is accepted** if the parser accepts it and it names a tracker. -/
theorem exists_scanRoot {url : List UInt8} (hd : parse data = .ok (.dict d))
    (hann : d.lookup (ascii "announce") = some (.string url)) (hurl : url ≠ []) :
    ∃ s, scanRoot data = .ok s := by
  obtain ⟨rfl, hb⟩ := parse_eq_ok.mp hd
  cases hb with
  | dict _ hsorted hlens hbs =>
    have hsize : sizeMax = 2 ^ 64 - 1 := rfl
    have hnodup := nodup_keys hsorted
    have hscan : scanEntries (encodeEntries d ++ [0x65]).length none {}
        (encodeEntries d ++ [0x65]) = .ok (d.foldl absorb {}, [0x65]) := by
      refine scanEntries_encodeEntries hsorted (fun _ hk => nomatch hk)
        (fun e he => by have := hlens e he; omega) hbs (fun e he hk => ⟨url, ?_⟩) ?_
      · -- the key comes once, so this is the entry that is looked up
        have hlook := List.lookup_of_mem hnodup he
        rw [hk, hann] at hlook
        exact (Option.some.inj hlook).symm
      · have := length_le_encodeEntries d
        rw [List.length_append]
        omega
    have hkept : (d.foldl absorb {}).announceUrl = url := by
      rw [(foldl_absorb hnodup {}).1, hann]
      rfl
    refine ⟨d.foldl absorb {}, ?_⟩
    rw [encode, encodeValue, scanRoot, List.cons_append, List.head?_cons,
      if_neg (not_not.mpr rfl), List.tail_cons, hscan, ok_bind]
    dsimp only
    rw [hkept, List.head?_cons, if_neg (not_not.mpr rfl), List.tail_cons,
      if_neg (not_not.mpr rfl), if_neg hurl]
    rfl

/-! ### The whole function -/

/-- Strings that are parsed are no longer than a `size_t`. -/
theorem length_bound {key str : List UInt8} (hd : parse data = .ok (.dict d))
    (hinfo : d.lookup (ascii "info") = some (.dict info))
    (hstr : info.lookup key = some (.string str)) : str.length < 2 ^ 64 := by
  obtain ⟨-, hb⟩ := parse_eq_ok.mp hd
  cases hb with
  | dict _ _ _ hb =>
    cases hb _ (List.mem_of_lookup hinfo) with
    | dict _ _ _ hb =>
      cases hb _ (List.mem_of_lookup hstr) with
      | string _ hlen => exact hlen

/-- `from_bencode` traps where it reads an `info`, in what it does with that. -/
theorem traps_fromBencodeChecked : Traps (fromBencodeChecked sha1 data) ↔ ∃ d info,
    parse data = .ok (.dict d) ∧
      (∃ url, url ≠ [] ∧ d.lookup (ascii "announce") = some (.string url)) ∧
      d.lookup (ascii "info") = some (.dict info) ∧
      (∃ pl name pieces, HasHead info pl name pieces) ∧ ¬Fits info := by
  rw [fromBencodeChecked, traps_throwing_bind]
  constructor
  · rintro ⟨s, hs, h⟩
    obtain ⟨d, hd, hann, hurl, -, hspan⟩ := scanRoot_eq_ok hs
    rcases hinfo : asDict s.infoVal with _ | info
    · rw [readInfoChecked, hinfo] at h
      exact absurd h (not_traps_thrown _)
    · obtain ⟨hlook, -⟩ := lookup_info hspan (asDict_eq_some.mp hinfo)
      refine ⟨d, info, hd, ⟨_, hurl, hann⟩, hlook, ?_⟩
      exact (traps_readInfoChecked hinfo fun _ => length_bound hd hlook).mp h
  · rintro ⟨d, info, hd, ⟨url, hurl, hann⟩, hlook, h⟩
    obtain ⟨s, hs⟩ := exists_scanRoot hd hann hurl
    obtain ⟨d', hd', -, -, -, hspan⟩ := scanRoot_eq_ok hs
    rw [hd, Except.ok.injEq, BencodeValue.dict.injEq] at hd'
    rw [← hd', hlook, Option.elim_some, Prod.mk.injEq] at hspan
    have hinfo : asDict s.infoVal = some info := asDict_eq_some.mpr hspan.1
    exact ⟨s, hs, (traps_readInfoChecked hinfo fun _ => length_bound hd hlook).mpr h⟩

/-- **`from_bencode` returns or throws exactly where the numbers stay in range.** Where the parser
reads a root dictionary with a tracker and an `info`, and this has a length of a piece, a name and
digests that are all complete, the numbers have to fit. Nothing else traps. -/
theorem completes_iff (sha1 : List UInt8 → Digest) (x : List UInt8) :
    Completes sha1 x ↔ ∀ d info, parse x = .ok (.dict d) →
      (∃ url, url ≠ [] ∧ d.lookup (ascii "announce") = some (.string url)) →
      d.lookup (ascii "info") = some (.dict info) →
      (∃ pl name pieces, HasHead info pl name pieces) → Fits info := by
  rw [completes_iff_not_traps, traps_fromBencodeChecked]
  constructor
  · intro h d info hd hann hinfo hhead
    by_contra hfits
    exact h ⟨d, info, hd, hann, hinfo, hhead, hfits⟩
  · rintro h ⟨d, info, hd, hann, hinfo, hhead, hfits⟩
    exact hfits (h d info hd hann hinfo hhead)

/-- A torrent file whose pieces have no bytes. -/
def zeroBytes : List UInt8 :=
  ascii "d8:announce1:u4:infod6:lengthi0e4:name1:a12:piece lengthi0e6:pieces0:ee"

/-- **A piece length of zero divides by zero**: `from_bencode` neither returns nor throws. -/
theorem not_completes_zero :
    fromBencodeChecked (fun _ => .ofBytes []) zeroBytes = .error (.trapped .quotient) ∧
      ¬Completes (fun _ => .ofBytes []) zeroBytes := by
  have htrap : fromBencodeChecked (fun _ => .ofBytes []) zeroBytes =
    .error (.trapped .quotient) := by decide +kernel
  exact ⟨htrap, fun h => completes_iff_not_traps.mp h ⟨_, htrap⟩⟩

end TorrentFile

end TransferEngine
