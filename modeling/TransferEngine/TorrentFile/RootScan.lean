import TransferEngine.Bencode.RoundTrip
import TransferEngine.Lib.Lists
import TransferEngine.TorrentFile.Model
import Mathlib.Tactic.SplitIfs

/-!
# The root scan and the parser

`from_bencode` reads the root dictionary with a loop of its own. The loop reads what the loop of
`parse_dict` reads (`TransferEngine.TorrentFile.scanEntries_eq_ok`), so a torrent file that is
accepted is one that `BencodeParser::parse` accepts, and its metadata is what stands in the parsed
dictionary (`TransferEngine.TorrentFile.fromBencode_refines_parse`). The digest is taken of the
bytes that encode the value of `info`.
-/

namespace TransferEngine

open Bytes BencodeParser

namespace TorrentFile

/-- A dictionary. -/
abbrev Dict := List (BencodeString × BencodeValue)

variable {s s' : Root} {d info : Dict} {v : BencodeValue} {key : BencodeString}
  {lastKey : Option BencodeString} {rounds : ℕ} {data remaining rest : List UInt8}

/-! ### The trackers -/

/-- The elements of a list; a value that is no list has none. -/
def items (v : BencodeValue) : List BencodeValue := (asList v).getD []

/-- A string that is not empty. -/
def tracker? (v : BencodeValue) : Option (List UInt8) := (asString v).filter (· ≠ [])

/-- The strings of a tier that are not empty. -/
def tierTrackers (tier : BencodeValue) : List (List UInt8) := (items tier).filterMap tracker?

/-- **The trackers of `announce-list`**: the strings that are not empty and stand in a list in
it, in order. -/
def trackers (v : BencodeValue) : List (List UInt8) := (items v).flatMap tierTrackers

/-- The trackers that a root dictionary names. -/
def rootTrackers (d : Dict) : List (List UInt8) :=
  (d.lookup (ascii "announce-list")).elim [] trackers

theorem pushTracker_eq (l : List (List UInt8)) (t : BencodeValue) :
    pushTracker l t = l ++ (tracker? t).toList := by
  cases t with
  | string str =>
    by_cases hs : str = []
    · simp [pushTracker, tracker?, asString, hs]
    · simp [pushTracker, tracker?, asString, hs, Option.filter]
  | _ => exact (List.append_nil l).symm

theorem pushTier_eq (l : List (List UInt8)) (tier : BencodeValue) :
    pushTier l tier = l ++ tierTrackers tier := by
  cases tier with
  | list ts =>
    show ts.foldl pushTracker l = l ++ ts.filterMap tracker?
    induction ts generalizing l with
    | nil => rw [List.foldl_nil, List.filterMap_nil, List.append_nil]
    | cons t ts ih =>
      rw [List.foldl_cons, ih, pushTracker_eq, List.append_assoc]
      congr 1
      rcases ht : tracker? t with _ | str
      · rw [List.filterMap_cons_none ht, Option.toList_none, List.nil_append]
      · rw [List.filterMap_cons_some ht, Option.toList_some, List.singleton_append]
  | _ => exact (List.append_nil l).symm

theorem pushTiers_eq (l : List (List UInt8)) (v : BencodeValue) :
    pushTiers l v = l ++ trackers v := by
  cases v with
  | list tiers =>
    show tiers.foldl _ l = l ++ tiers.flatMap _
    induction tiers generalizing l with
    | nil => rw [List.foldl_nil, List.flatMap_nil, List.append_nil]
    | cons tier tiers ih =>
      rw [List.foldl_cons, ih, pushTier_eq, List.flatMap_cons, List.append_assoc]
  | _ => exact (List.append_nil l).symm

/-! ### The loop -/

/-- What an entry of the root dictionary leaves behind. -/
def absorb (s : Root) (e : BencodeString × BencodeValue) : Root :=
  if e.1 = ascii "announce" then { s with announceUrl := (asString e.2).getD s.announceUrl }
  else if e.1 = ascii "announce-list" then
    { s with announceList := s.announceList ++ trackers e.2 }
  else if e.1 = ascii "info" then { s with infoVal := e.2, infoSpan := encode e.2 }
  else s

theorem lift_eq_ok {α : Type} {x : Except BencodeError α} {a : α} :
    lift x = .ok a ↔ x = .ok a := by
  cases x <;> simp [lift, Except.mapError]

theorem sound_parseValue : Sound parseValue := fun h => sound_parseValueTo _ h

/-- **One round of the loop** reads a value as the parser does. -/
theorem scanValue_eq_ok (h : scanValue key s remaining = .ok (s', rest)) :
    ∃ v, parseValue remaining = .ok (v, rest) ∧ s' = absorb s (key, v) ∧
      (key = ascii "announce" → ∃ url, v = .string url) := by
  rw [scanValue] at h
  obtain ⟨⟨v, rest'⟩, hv, h₁⟩ := bind_eq_ok h
  rw [lift_eq_ok] at hv
  obtain ⟨hspell, -⟩ := sound_parseValue hv
  dsimp only at h₁
  by_cases hann : key = ascii "announce"
  · rw [if_pos hann] at h₁
    cases v with
    | string url =>
      cases h₁
      refine ⟨_, hv, ?_, fun _ => ⟨url, rfl⟩⟩
      rw [absorb, if_pos hann]
      rfl
    | _ => cases h₁
  rw [if_neg hann] at h₁
  by_cases hlist : key = ascii "announce-list"
  · rw [if_pos hlist] at h₁
    cases h₁
    refine ⟨v, hv, ?_, fun hk => absurd hk hann⟩
    rw [absorb, if_neg hann, if_pos hlist, pushTiers_eq]
  rw [if_neg hlist] at h₁
  by_cases hinfo : key = ascii "info"
  · rw [if_pos hinfo] at h₁
    split at h₁
    case isTrue => cases h₁
    case isFalse =>
      cases h₁
      refine ⟨v, hv, ?_, fun hk => absurd hk hann⟩
      -- what was consumed is the encoding of the value
      have htake : remaining.take (remaining.length - rest.length) = encode v := by
        rw [hspell, List.length_append, Nat.add_sub_cancel]
        exact List.take_left
      rw [absorb, if_neg hann, if_neg hlist, if_pos hinfo, htake]
  · rw [if_neg hinfo] at h₁
    cases h₁
    refine ⟨v, hv, ?_, fun hk => absurd hk hann⟩
    rw [absorb, if_neg hann, if_neg hlist, if_neg hinfo]

/-- **The loop** reads the entries that the loop of `parse_dict` reads. -/
theorem scanEntries_eq_ok (h : scanEntries rounds lastKey s remaining = .ok (s', rest)) :
    ∃ d, parseEntries parseValue rounds lastKey remaining = .ok (d, rest) ∧
      s' = d.foldl absorb s ∧ ∀ e ∈ d, e.1 = ascii "announce" → ∃ url, e.2 = .string url := by
  induction rounds generalizing lastKey s remaining with
  | zero =>
    cases h
    exact ⟨[], rfl, rfl, by simp⟩
  | succ rounds ih =>
    rw [scanEntries] at h
    rw [parseEntries]
    split at h
    case isFalse hno =>
      cases h
      exact ⟨[], by rw [if_neg hno], rfl, by simp⟩
    case isTrue hitem =>
      obtain ⟨⟨key, after⟩, hkey, h₁⟩ := bind_eq_ok h
      obtain ⟨⟨⟩, hcheck, h₂⟩ := bind_eq_ok h₁
      obtain ⟨⟨s₁, after'⟩, hval, h₃⟩ := bind_eq_ok h₂
      rw [lift_eq_ok] at hkey
      obtain ⟨v, hv, rfl, hurl⟩ := scanValue_eq_ok hval
      obtain ⟨d, hd, rfl, hurls⟩ := ih h₃
      -- both loops check the keys, each with errors of its own
      have hcheck' : checkKey BencodeError.duplicateKey .keysNotSorted lastKey key = .ok () :=
        checkKey_eq_ok.mpr (checkKey_eq_ok.mp hcheck)
      refine ⟨(key, v) :: d, ?_, rfl, List.forall_mem_cons.mpr ⟨hurl, hurls⟩⟩
      rw [if_pos hitem, hkey, ok_bind]
      dsimp only
      rw [hcheck', ok_bind, hv, ok_bind]
      dsimp only
      rw [hd, ok_bind]
      rfl

theorem keys_ne : ascii "announce-list" ≠ ascii "announce" ∧ ascii "info" ≠ ascii "announce" ∧
    ascii "info" ≠ ascii "announce-list" := by decide

theorem announceUrl_absorb (s : Root) (k : BencodeString) (v : BencodeValue) :
    (absorb s (k, v)).announceUrl =
      if k = ascii "announce" then (asString v).getD s.announceUrl else s.announceUrl := by
  have hne := keys_ne
  simp only [absorb]
  split_ifs <;> rfl

theorem announceList_absorb (s : Root) (k : BencodeString) (v : BencodeValue) :
    (absorb s (k, v)).announceList =
      if k = ascii "announce-list" then s.announceList ++ trackers v else s.announceList := by
  have hne := keys_ne
  simp only [absorb]
  split_ifs <;> simp_all

theorem info_absorb (s : Root) (k : BencodeString) (v : BencodeValue) :
    ((absorb s (k, v)).infoVal, (absorb s (k, v)).infoSpan) =
      if k = ascii "info" then (v, encode v) else (s.infoVal, s.infoSpan) := by
  have hne := keys_ne
  simp only [absorb]
  split_ifs <;> simp_all

/-- Keys that ascend are distinct. -/
theorem nodup_keys (hsorted : (d.map Prod.fst).Pairwise (· < ·)) : (d.map Prod.fst).Nodup :=
  hsorted.imp fun hlt => by
    rintro rfl
    exact List.lt_irrefl _ hlt

/-- **The whole loop** reads the URL, the trackers and `info` off the dictionary. -/
theorem foldl_absorb (hd : (d.map Prod.fst).Nodup) (s : Root) :
    (d.foldl absorb s).announceUrl =
        (d.lookup (ascii "announce")).elim s.announceUrl
          (fun v => (asString v).getD s.announceUrl) ∧
      (d.foldl absorb s).announceList =
        (d.lookup (ascii "announce-list")).elim s.announceList
          (fun v => s.announceList ++ trackers v) ∧
      ((d.foldl absorb s).infoVal, (d.foldl absorb s).infoSpan) =
        (d.lookup (ascii "info")).elim (s.infoVal, s.infoSpan) (fun v => (v, encode v)) :=
  ⟨List.foldl_field Root.announceUrl _ (fun u v => (asString v).getD u) announceUrl_absorb hd s,
    List.foldl_field Root.announceList _ (fun l v => l ++ trackers v) announceList_absorb hd s,
    List.foldl_field (fun s : Root => (s.infoVal, s.infoSpan)) _ (fun _ v => (v, encode v))
      info_absorb hd s⟩

/-- **The root scan** accepts encodings of dictionaries only, and leaves behind what stands in
the dictionary. -/
theorem scanRoot_eq_ok (h : scanRoot data = .ok s) :
    ∃ d, parse data = .ok (.dict d) ∧
      d.lookup (ascii "announce") = some (.string s.announceUrl) ∧ s.announceUrl ≠ [] ∧
      s.announceList = rootTrackers d ∧
      (s.infoVal, s.infoSpan) =
        (d.lookup (ascii "info")).elim (.int 0, []) (fun v => (v, encode v)) := by
  rw [scanRoot] at h
  split at h
  case isTrue => cases h
  case isFalse hhead =>
    rw [not_not] at hhead
    obtain ⟨tail, rfl⟩ := List.head?_eq_some_iff.mp hhead
    obtain ⟨⟨s₁, remaining⟩, hscan, h₁⟩ := bind_eq_ok h
    dsimp only [List.tail_cons] at hscan h₁
    split at h₁
    case isTrue => cases h₁
    case isFalse hclose =>
    split at h₁
    case isTrue => cases h₁
    case isFalse hextra =>
    split at h₁
    case isTrue => cases h₁
    case isFalse hurl =>
      cases h₁
      rw [not_not] at hclose hextra
      obtain ⟨rest, rfl⟩ := List.head?_eq_some_iff.mp hclose
      rw [List.tail_cons] at hextra
      subst hextra
      obtain ⟨d, hd, rfl, hurls⟩ := scanEntries_eq_ok hscan
      obtain ⟨rfl, hsorted, -, hlens, hbs⟩ := sound_parseValue.parseEntries hd
      -- the keys ascend, so each is read once and nothing is overwritten
      obtain ⟨hann, hlist, hinfo⟩ := foldl_absorb (nodup_keys hsorted) {}
      have hparse : parse (0x64 :: (encodeEntries d ++ [0x65])) = .ok (.dict d) := by
        refine parse_eq_ok.mpr ⟨by rw [encode, encodeValue, List.cons_append], ?_⟩
        exact .dict d hsorted (fun e he => Nat.lt_of_le_of_lt (hlens e he) (by decide)) hbs
      refine ⟨d, hparse, ?_, hurl, ?_, hinfo⟩
      · rcases hlook : d.lookup (ascii "announce") with _ | v
        · rw [hlook] at hann
          exact absurd hann hurl
        · obtain ⟨url, rfl⟩ := hurls (ascii "announce", v) (List.mem_of_lookup hlook) rfl
          rw [hlook] at hann
          rw [hann]
          rfl
      · rw [hlist]
        rfl

/-! ### The fields of `info` -/

/-- What `info` says: the length of a piece, the name, the digests and the path and length of
each file. -/
structure InfoFields where
  /-- `piece length`. -/
  pieceLength : ℤ
  /-- `name`. -/
  name : List UInt8
  /-- `pieces`. -/
  pieces : List UInt8
  /-- The paths and lengths of the files. -/
  files : List (List UInt8 × ℤ)

/-- An element of `files` that gives a path, as its segments, and a length. -/
def GivesFile (v : BencodeValue) (f : List UInt8 × ℤ) : Prop :=
  ∃ (d : Dict) (segments : List BencodeString), v = .dict d ∧
    d.lookup (ascii "length") = some (.int f.2) ∧
    d.lookup (ascii "path") = some (.list (segments.map .string)) ∧
    f.1 = List.intercalate [0x2f] segments

/-- **What stands in `info`**: many files, or one of the name of the torrent. -/
structure InfoFields.ReadFrom (F : InfoFields) (info : Dict) : Prop where
  /-- The length of a piece. -/
  pieceLength : info.lookup (ascii "piece length") = some (.int F.pieceLength)
  /-- The name. -/
  name : info.lookup (ascii "name") = some (.string F.name)
  /-- The digests, one after the other. -/
  pieces : info.lookup (ascii "pieces") = some (.string F.pieces)
  /-- The files. -/
  files : (∃ l, info.lookup (ascii "files") = some (.list l) ∧ List.Forall₂ GivesFile l F.files) ∨
    (info.lookup (ascii "files") = none ∧
      ∃ n, info.lookup (ascii "length") = some (.int n) ∧ F.files = [(F.name, n)])

/-- What the metadata says of `info`. -/
def fields (m : TorrentFile) : InfoFields where
  pieceLength := m.pieceLength
  name := m.name
  pieces := m.pieceHashes.flatMap fun h => h.toList
  files := m.files.map fun f => (f.path, f.length)

theorem asInt_eq_some {n : ℤ} : asInt v = some n ↔ v = .int n := by
  cases v <;> simp [asInt]

theorem asString_eq_some {str : BencodeString} : asString v = some str ↔ v = .string str := by
  cases v <;> simp [asString]

theorem asList_eq_some {l : List BencodeValue} : asList v = some l ↔ v = .list l := by
  cases v <;> simp [asList]

theorem asDict_eq_some : asDict v = some d ↔ v = .dict d := by
  cases v <;> simp [asDict]

section Require

variable {α : Type} {get : BencodeValue → Option α} {e : TorrentError} {key : String}

/-- **A required key** is there, with a value of the right kind. -/
theorem require_eq_ok {make : α → BencodeValue} (hget : ∀ v a, get v = some a ↔ v = make a)
    {a : α} : require get e key d = .ok a ↔ d.lookup (ascii key) = some (make a) := by
  have hbind : (d.lookup (ascii key)).bind get = some a ↔
      d.lookup (ascii key) = some (make a) := by
    simp only [Option.bind_eq_some_iff, hget, exists_eq_right]
  rw [← hbind, require]
  split
  case h_1 hnone => simp [hnone]
  case h_2 a' hsome => rw [hsome, Except.ok.injEq, Option.some.injEq]

theorem requireInt_eq_ok {n : ℤ} :
    require asInt e key d = .ok n ↔ d.lookup (ascii key) = some (.int n) :=
  require_eq_ok fun _ _ => asInt_eq_some

theorem requireString_eq_ok {str : BencodeString} :
    require asString e key d = .ok str ↔ d.lookup (ascii key) = some (.string str) :=
  require_eq_ok fun _ _ => asString_eq_some

theorem requireList_eq_ok {l : List BencodeValue} :
    require asList e key d = .ok l ↔ d.lookup (ascii key) = some (.list l) :=
  require_eq_ok fun _ _ => asList_eq_some

end Require

/-- **The loop over the segments** puts slashes between them. -/
theorem joinPath_eq_ok {i : ℕ} {path path' : List UInt8} {l : List BencodeValue}
    (h : joinPath i path l = .ok path') :
    ∃ segments : List BencodeString, l = segments.map .string ∧
      path' = path ++ if 0 < i then segments.flatMap (fun seg => 0x2f :: seg)
        else List.intercalate [0x2f] segments := by
  induction l generalizing i path with
  | nil =>
    cases h
    exact ⟨[], rfl, by split <;> simp⟩
  | cons v l ih =>
    rw [joinPath] at h
    split at h
    case h_1 => cases h
    case h_2 seg hseg =>
      obtain ⟨segments, rfl, rfl⟩ := ih h
      refine ⟨seg :: segments, by rw [asString_eq_some.mp hseg, List.map_cons], ?_⟩
      rw [if_pos (Nat.succ_pos i)]
      by_cases hi : 0 < i
      · simp [hi]
      · -- the first segment has no slash before it
        rw [if_neg hi, if_neg hi, List.append_assoc, List.intercalate_cons_eq]

theorem readFile_eq_ok {o : ℤ} {f : FileInfo} (h : readFile o v = .ok f) :
    GivesFile v (f.path, f.length) ∧ f.offset = o := by
  rw [readFile] at h
  split at h
  case h_1 => cases h
  case h_2 d hd =>
    obtain ⟨length, hlen, h₁⟩ := bind_eq_ok h
    obtain ⟨l, hl, h₂⟩ := bind_eq_ok h₁
    obtain ⟨path, hpath, h₃⟩ := bind_eq_ok h₂
    cases h₃
    obtain ⟨segments, rfl, rfl⟩ := joinPath_eq_ok hpath
    exact ⟨⟨d, segments, asDict_eq_some.mp hd, requireInt_eq_ok.mp hlen, requireList_eq_ok.mp hl,
      rfl⟩, rfl⟩

/-- One round of the loop over `files`. -/
theorem readFiles_cons_eq_ok {o total : ℤ} {l : List BencodeValue} {files : List FileInfo}
    (h : readFiles o (v :: l) = .ok (files, total)) :
    ∃ f fs, files = f :: fs ∧ readFile o v = .ok f ∧
      readFiles (i64 (o + f.length)) l = .ok (fs, total) := by
  rw [readFiles] at h
  obtain ⟨f, hf, h₁⟩ := bind_eq_ok h
  obtain ⟨⟨fs, total'⟩, hfs, h₂⟩ := bind_eq_ok h₁
  cases h₂
  exact ⟨f, fs, rfl, hf, hfs⟩

/-- **The loop over `files`** keeps what each of them gives. -/
theorem readFiles_eq_ok {o total : ℤ} {l : List BencodeValue} {files : List FileInfo}
    (h : readFiles o l = .ok (files, total)) :
    List.Forall₂ GivesFile l (files.map fun f => (f.path, f.length)) := by
  induction l generalizing o files with
  | nil =>
    cases h
    exact .nil
  | cons v l ih =>
    obtain ⟨f, fs, rfl, hf, hfs⟩ := readFiles_cons_eq_ok h
    exact .cons (readFile_eq_ok hf).1 (ih hfs)

theorem toList_ofBytes {bs : List UInt8} (h : bs.length = 20) :
    (Digest.ofBytes bs).toList = bs := by
  apply List.ext_getElem
  · simp [h]
  · intro k hk hk'
    simp [Digest.ofBytes, hk']

/-- **The digests**, one after the other, are `pieces` again. -/
theorem flatMap_cutHashes {n : ℕ} {pieces : List UInt8} (h : pieces.length = 20 * n) :
    (cutHashes n pieces).flatMap (fun h => h.toList) = pieces := by
  induction n generalizing pieces with
  | zero => rw [List.length_eq_zero_iff.mp h, cutHashes, List.flatMap_nil]
  | succ n ih =>
    rw [cutHashes, List.flatMap_cons, toList_ofBytes (by rw [List.length_take]; omega),
      ih (by rw [List.length_drop]; omega), List.take_append_drop]

/-- The layout is that of the files of `info`, or of the one file. -/
theorem readLayout_eq_ok {name : List UInt8} {files : List FileInfo} {total : ℤ}
    (h : readLayout name info = .ok (files, total)) :
    (∃ l, info.lookup (ascii "files") = some (.list l) ∧ readFiles 0 l = .ok (files, total)) ∨
      (info.lookup (ascii "files") = none ∧ info.lookup (ascii "length") = some (.int total) ∧
        files = [⟨name, total, 0⟩]) := by
  rw [readLayout] at h
  split at h
  case h_1 v hv =>
    split at h
    case h_1 => cases h
    case h_2 l hl =>
      rw [asList_eq_some.mp hl] at hv
      exact Or.inl ⟨l, hv, h⟩
  case h_2 hnone =>
    obtain ⟨length, hlen, h₁⟩ := bind_eq_ok h
    cases h₁
    exact Or.inr ⟨hnone, requireInt_eq_ok.mp hlen, rfl⟩

/-- **How metadata is put together** from the root and the dictionary of `info`. -/
structure Assembled (sha1 : List UInt8 → Digest) (s : Root) (info : Dict) (pieces : List UInt8)
    (m : TorrentFile) : Prop where
  /-- `info` is a dictionary. -/
  infoVal : s.infoVal = .dict info
  /-- The length of a piece. -/
  pieceLength : info.lookup (ascii "piece length") = some (.int m.pieceLength)
  /-- The name. -/
  name : info.lookup (ascii "name") = some (.string m.name)
  /-- The digests, one after the other. -/
  pieces_eq : info.lookup (ascii "pieces") = some (.string pieces)
  /-- They are all complete. -/
  length_mod : pieces.length % 20 = 0
  /-- The digests. -/
  pieceHashes : m.pieceHashes = cutHashes (pieces.length / 20) pieces
  /-- Their number. -/
  numPieces : m.numPieces = i32 (pieces.length / 20 : ℕ)
  /-- The files and the total length. -/
  layout : readLayout m.name info = .ok (m.files, m.totalLength)
  /-- The total length takes that many pieces. -/
  calculated : div64 (i64 (i64 (m.totalLength + m.pieceLength) - 1)) m.pieceLength =
    some (i64 (pieces.length / 20 : ℕ))
  /-- The URL. -/
  announceUrl : m.announceUrl = s.announceUrl
  /-- The trackers. -/
  announceList : m.announceList =
    if s.announceList = [] ∧ s.announceUrl ≠ [] then [s.announceUrl] else s.announceList
  /-- The digest of `info`. -/
  infoHash : m.infoHash = if s.infoSpan = [] then .ofBytes [] else sha1 s.infoSpan

theorem readInfo_eq_ok {sha1 : List UInt8 → Digest} {m : TorrentFile}
    (h : readInfo sha1 s = .ok (some m)) : ∃ info pieces, Assembled sha1 s info pieces m := by
  rw [readInfo] at h
  split at h
  case h_1 => cases h
  case h_2 info hinfo =>
    obtain ⟨pieceLength, hlen, h₁⟩ := bind_eq_ok h
    obtain ⟨name, hname, h₂⟩ := bind_eq_ok h₁
    obtain ⟨pieces, hpieces, h₃⟩ := bind_eq_ok h₂
    split at h₃
    case isTrue => cases h₃
    case isFalse hmod =>
      obtain ⟨⟨files, total⟩, hlayout, h₄⟩ := bind_eq_ok h₃
      dsimp only at h₄
      split at h₄
      case h_1 => cases h₄
      case h_2 calculated hcalc =>
        split at h₄
        case isTrue => cases h₄
        case isFalse heq =>
          cases h₄
          rw [not_not] at hmod heq
          rw [heq] at hcalc
          refine ⟨info, pieces, asDict_eq_some.mp hinfo, requireInt_eq_ok.mp hlen,
            requireString_eq_ok.mp hname, requireString_eq_ok.mp hpieces, hmod, rfl,
            by dsimp only, hlayout, hcalc, rfl, rfl, rfl⟩

namespace Assembled

variable {sha1 : List UInt8 → Digest} {pieces : List UInt8} {m : TorrentFile}

theorem fields_pieces (h : Assembled sha1 s info pieces m) : m.fields.pieces = pieces := by
  have hmod := h.length_mod
  rw [fields, h.pieceHashes, flatMap_cutHashes (by omega)]

/-- **The fields of the metadata** are those of `info`. -/
theorem readFrom (h : Assembled sha1 s info pieces m) : m.fields.ReadFrom info := by
  refine ⟨h.pieceLength, h.name, by rw [h.fields_pieces, h.pieces_eq], ?_⟩
  rcases readLayout_eq_ok h.layout with ⟨l, hl, hfiles⟩ | ⟨hnone, hlen, hfiles⟩
  · exact Or.inl ⟨l, hl, readFiles_eq_ok hfiles⟩
  · refine Or.inr ⟨hnone, m.totalLength, hlen, ?_⟩
    rw [fields, hfiles]
    rfl

end Assembled

/-! ### The file as a whole -/

theorem encodeEntries_append (d₁ d₂ : Dict) :
    encodeEntries (d₁ ++ d₂) = encodeEntries d₁ ++ encodeEntries d₂ := by
  induction d₁ with
  | nil => rfl
  | cons e d₁ ih => rw [List.cons_append, encodeEntries, encodeEntries, ih, List.append_assoc]

/-- The default of `info_val` is no dictionary: where it is one, the key is there. -/
theorem lookup_info (hs : (s.infoVal, s.infoSpan) =
      (d.lookup (ascii "info")).elim (.int 0, []) (fun v => (v, encode v)))
    (hval : s.infoVal = .dict info) :
    d.lookup (ascii "info") = some (.dict info) ∧ s.infoSpan = encode (.dict info) := by
  rcases hlook : d.lookup (ascii "info") with _ | v
  · rw [hlook, Option.elim_none, Prod.mk.injEq] at hs
    rw [hs.1] at hval
    cases hval
  · rw [hlook, Option.elim_some, Prod.mk.injEq] at hs
    rw [hs.2, ← hs.1, hval]
    exact ⟨rfl, rfl⟩

/-- A dictionary that can be that of a torrent file: it has a URL and an `info`. -/
def HasRoot (d : Dict) : Prop :=
  (∃ url, url ≠ [] ∧ d.lookup (ascii "announce") = some (.string url)) ∧
    ∃ info, d.lookup (ascii "info") = some (.dict info)

theorem hasRoot_of_fromBencode {sha1 : List UInt8 → Digest} {r : Option TorrentFile}
    (h : fromBencode sha1 data = .ok r) : ∃ d, parse data = .ok (.dict d) ∧ HasRoot d := by
  rw [fromBencode] at h
  obtain ⟨s, hs, h₁⟩ := bind_eq_ok h
  obtain ⟨d, hd, hann, hurl, -, hinfo⟩ := scanRoot_eq_ok hs
  refine ⟨d, hd, ⟨_, hurl, hann⟩, ?_⟩
  rw [readInfo] at h₁
  split at h₁
  case h_1 => cases h₁
  case h_2 info hdict => exact ⟨info, (lookup_info hinfo (asDict_eq_some.mp hdict)).1⟩

/-- Metadata that is returned was put together from the `info` that the parser reads. -/
theorem exists_assembled {sha1 : List UInt8 → Digest} {m : TorrentFile}
    (h : fromBencode sha1 data = .ok (some m)) :
    ∃ s d info pieces, parse data = .ok (.dict d) ∧
      d.lookup (ascii "info") = some (.dict info) ∧ Assembled sha1 s info pieces m := by
  rw [fromBencode] at h
  obtain ⟨s, hs, h₁⟩ := bind_eq_ok h
  obtain ⟨d, hd, -, -, -, hspan⟩ := scanRoot_eq_ok hs
  obtain ⟨info, pieces, ham⟩ := readInfo_eq_ok h₁
  exact ⟨s, d, info, pieces, hd, (lookup_info hspan ham.infoVal).1, ham⟩

/-- **The metadata is what the parser reads.** If `from_bencode` returns metadata, then
`BencodeParser::parse` answers with a dictionary in which the URL, the trackers and the fields of
`info` are those of the metadata; the value of `info` is encoded by a contiguous part of the file,
between what encodes the other entries, and the digest is that of this part. If `parse` fails, or
answers with something that is not a dictionary with a URL and a dictionary `info`, then
`from_bencode` throws. -/
theorem fromBencode_refines_parse (sha1 : List UInt8 → Digest) (x : List UInt8) :
    (∀ m, fromBencode sha1 x = .ok (some m) → ∃ d info before after,
        parse x = .ok (.dict d) ∧
        d.lookup (ascii "announce") = some (.string m.announceUrl) ∧
        m.announceList = (if rootTrackers d = [] then [m.announceUrl] else rootTrackers d) ∧
        d = before ++ (ascii "info", .dict info) :: after ∧
        d.lookup (ascii "info") = some (.dict info) ∧ m.fields.ReadFrom info ∧
        x = [0x64] ++ encodeEntries before ++ encodeString (ascii "info") ++
          encode (.dict info) ++ encodeEntries after ++ [0x65] ∧
        m.infoHash = sha1 (encode (.dict info))) ∧
      ((∀ d, parse x = .ok (.dict d) → ¬HasRoot d) → ∃ e, fromBencode sha1 x = .error e) := by
  refine ⟨fun m h => ?_, fun hno => ?_⟩
  · rw [fromBencode] at h
    obtain ⟨s, hs, h₁⟩ := bind_eq_ok h
    obtain ⟨d, hd, hann, hurl, hlist, hspan⟩ := scanRoot_eq_ok hs
    obtain ⟨info, pieces, ham⟩ := readInfo_eq_ok h₁
    obtain ⟨hlook, hinfo⟩ := lookup_info hspan ham.infoVal
    obtain ⟨before, after, rfl, -⟩ := List.lookup_eq_some_iff.mp hlook
    refine ⟨_, info, before, after, hd, by rw [ham.announceUrl]; exact hann, ?_, rfl, hlook,
      ham.readFrom, ?_, ?_⟩
    · rw [← hlist, ham.announceList, ham.announceUrl]
      exact if_congr (and_iff_left hurl) rfl rfl
    · obtain ⟨hx, -⟩ := parse_eq_ok.mp hd
      rw [← hx, encode, encodeValue, encodeEntries_append, encodeEntries, encodeEntry]
      simp [encode]
    -- the span of `info` is not empty, so its digest is computed
    · rw [ham.infoHash, hinfo, if_neg]
      exact List.ne_nil_of_length_pos (length_encodeValue_pos _)
  · rcases hx : fromBencode sha1 x with e | r
    · exact ⟨e, rfl⟩
    · obtain ⟨d, hd, hroot⟩ := hasRoot_of_fromBencode hx
      exact absurd hroot (hno d hd)

/-- A torrent file: one file `a` of one byte, and the tracker `u`. -/
def tinyBytes : List UInt8 :=
  ascii "d8:announce1:u4:infod6:lengthi1e4:name1:a12:piece lengthi1e6:pieces20:" ++
    ascii "00000000000000000000ee"

/-- Its metadata, with a digest of zeros. -/
def tiny : TorrentFile where
  pieceLength := 1
  totalLength := 1
  numPieces := 1
  pieceHashes := [.ofBytes (List.replicate 20 0x30)]
  files := [{ path := ascii "a", length := 1, offset := 0 }]
  name := ascii "a"
  announceUrl := ascii "u"
  announceList := [ascii "u"]
  infoHash := .ofBytes []

/-- The metadata of the file of one byte. -/
theorem fromBencode_refines_parse_tiny :
    fromBencode (fun _ => .ofBytes []) tinyBytes = .ok (some tiny) ∧
      ∃ d info, parse tinyBytes = .ok (.dict d) ∧
        d.lookup (ascii "announce") = some (.string (ascii "u")) ∧
        d.lookup (ascii "info") = some (.dict info) ∧ tiny.fields.ReadFrom info := by
  have hok : fromBencode (fun _ => .ofBytes []) tinyBytes = .ok (some tiny) := by decide +kernel
  obtain ⟨d, info, -, -, hd, hann, -, -, hinfo, hread, -, -⟩ :=
    (fromBencode_refines_parse _ _).1 tiny hok
  exact ⟨hok, d, info, hd, hann, hinfo, hread⟩

end TorrentFile

end TransferEngine
