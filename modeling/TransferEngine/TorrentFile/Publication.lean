import TransferEngine.TorrentFile.Traps

/-!
# Publications

Who publishes files writes a torrent file for them: the digests of the pieces, the paths and the
lengths of the files, and the URLs of the trackers (`TransferEngine.Publication.torrentFile`). If
the numbers are within the ranges of the source, `from_bencode` makes of it the metadata that is
meant (`TransferEngine.Publication.read_torrentFile`): the digest of every piece, every file
where it lies in the contents, every tracker, and the digest of what was published as `info`.
-/

namespace TransferEngine

open Bytes BencodeParser DiskIOManager TorrentFile

namespace TorrentFile

variable {sha1 : List UInt8 → Digest} {d info : Dict} {F : InfoFields} {url data : List UInt8}
  {fs : List (List UInt8 × ℤ)} {l : List BencodeValue} {o : ℤ}

/-! ### What is accepted -/

/-- Files one after the other, the first at an offset. -/
def layFiles : ℤ → List (List UInt8 × ℤ) → List FileInfo
  | _, [] => []
  | o, f :: fs => { path := f.1, length := f.2, offset := o } :: layFiles (o + f.2) fs

theorem map_given_layFiles (o : ℤ) (fs : List (List UInt8 × ℤ)) :
    (layFiles o fs).map given = fs := by
  induction fs generalizing o with
  | nil => rfl
  | cons f fs ih =>
    rw [layFiles, List.map_cons, ih]
    rfl

theorem consecutive_layFiles (o : ℤ) (hpos : ∀ f ∈ fs, 0 ≤ f.2) :
    Consecutive o (layFiles o fs) := by
  induction fs generalizing o with
  | nil => trivial
  | cons f fs ih =>
    obtain ⟨hf, hfs⟩ := List.forall_mem_cons.mp hpos
    exact ⟨rfl, hf, ih (o + f.2) hfs⟩

theorem lengths_nonneg (hpos : ∀ f ∈ fs, 0 ≤ f.2) : 0 ≤ lengths fs := by
  refine List.sum_nonneg fun n hn => ?_
  obtain ⟨f, hf, rfl⟩ := List.mem_map.mp hn
  exact hpos f hf

/-- **The loop over `files`**, where no offset leaves `int64_t`. -/
theorem readFiles_eq (h : List.Forall₂ GivesFile l fs) (ho : 0 ≤ o) (hpos : ∀ f ∈ fs, 0 ≤ f.2)
    (hsum : o + lengths fs < 2 ^ 63) :
    TorrentFile.readFiles o l = .ok (layFiles o fs, o + lengths fs) := by
  induction h generalizing o with
  | nil => rw [TorrentFile.readFiles, layFiles, lengths, List.map_nil, List.sum_nil, add_zero]
  | @cons v f l fs hf _ ih =>
    obtain ⟨hfpos, hpos'⟩ := List.forall_mem_cons.mp hpos
    have hrest := lengths_nonneg hpos'
    have hread : TorrentFile.readFile o v = .ok ⟨f.1, f.2, o⟩ := readFile_iff.mpr ⟨hf, rfl⟩
    rw [lengths, List.map_cons, List.sum_cons, ← lengths, ← add_assoc] at hsum ⊢
    rw [TorrentFile.readFiles, hread, ok_bind]
    dsimp only
    rw [i64_of_lt (by omega) (by omega), ih (by omega) hpos' hsum]
    rfl

/-- **The layout**, where no offset leaves `int64_t`. -/
theorem readLayout_eq (h : F.ReadFrom info) (hpos : ∀ f ∈ F.files, 0 ≤ f.2)
    (hsum : lengths F.files < 2 ^ 63) :
    readLayout F.name info = .ok (layFiles 0 F.files, lengths F.files) := by
  rw [readLayout]
  rcases h.files with ⟨l, hl, hfs⟩ | ⟨hnone, n, hn, hfs⟩
  · rw [hl]
    dsimp only [asList]
    rw [readFiles_eq hfs le_rfl hpos (by omega), zero_add]
  · have hlen : require asInt .missingLength "length" info = .ok n := requireInt_eq_ok.mpr hn
    rw [hnone, hfs]
    dsimp only
    rw [hlen]
    simp [layFiles, lengths]

/-- **What `info` has to give** to be accepted with exact numbers. -/
structure InfoFields.Exact (F : InfoFields) : Prop where
  /-- Pieces have bytes. -/
  pieceLength_pos : 0 < F.pieceLength
  /-- Lengths are not negative. -/
  length_nonneg : ∀ f ∈ F.files, 0 ≤ f.2
  /-- The pieces are counted without overflow. -/
  sum_le : lengths F.files + F.pieceLength ≤ 2 ^ 63
  /-- The digests are all complete. -/
  length_mod : F.pieces.length % 20 = 0
  /-- There are as many as the total length takes. -/
  count_eq : ((F.pieces.length / 20 : ℕ) : ℤ) =
    (lengths F.files + F.pieceLength - 1) / F.pieceLength
  /-- Their number is an `int32_t`. -/
  count_lt : F.pieces.length / 20 < 2 ^ 31

/-- The metadata that is meant. -/
def InfoFields.metadata (F : InfoFields) (sha1 : List UInt8 → Digest) (url : List UInt8)
    (d info : Dict) : TorrentFile where
  pieceLength := F.pieceLength
  totalLength := lengths F.files
  numPieces := (F.pieces.length / 20 : ℕ)
  pieceHashes := cutHashes (F.pieces.length / 20) F.pieces
  files := layFiles 0 F.files
  name := F.name
  announceUrl := url
  announceList := if rootTrackers d = [] then [url] else rootTrackers d
  infoHash := sha1 (encode (.dict info))

/-- **A dictionary with exact numbers is accepted** as the metadata that is meant. -/
theorem fromBencode_of_exact (hd : parse data = .ok (.dict d))
    (hann : d.lookup (ascii "announce") = some (.string url)) (hurl : url ≠ [])
    (hinfo : d.lookup (ascii "info") = some (.dict info)) (hread : F.ReadFrom info)
    (hF : F.Exact) : fromBencode sha1 data = .ok (some (F.metadata sha1 url d info)) := by
  obtain ⟨s, hs⟩ := exists_scanRoot hd hann hurl
  obtain ⟨d', hd', hann', -, hlist, hspan⟩ := scanRoot_eq_ok hs
  rw [hd, Except.ok.injEq, BencodeValue.dict.injEq] at hd'
  subst hd'
  rw [hinfo, Option.elim_some, Prod.mk.injEq] at hspan
  obtain ⟨hval, hspan⟩ := hspan
  have hurl' : s.announceUrl = url := by
    rw [hann, Option.some.injEq, BencodeValue.string.injEq] at hann'
    exact hann'.symm
  have hpl := hF.pieceLength_pos
  have hsum := hF.sum_le
  have hnonneg := lengths_nonneg hF.length_nonneg
  have hlt := hF.count_lt
  have hpl' : require asInt .missingPieceLength "piece length" info = .ok F.pieceLength :=
    requireInt_eq_ok.mpr hread.pieceLength
  have hname : require asString .missingName "name" info = .ok F.name :=
    requireString_eq_ok.mpr hread.name
  have hpieces : require asString .missingPieces "pieces" info = .ok F.pieces :=
    requireString_eq_ok.mpr hread.pieces
  have hcount : i64 (F.pieces.length / 20 : ℕ) = (F.pieces.length / 20 : ℕ) :=
    i64_of_lt (by omega) (by omega)
  have hdiv : div64 (i64 (i64 (lengths F.files + F.pieceLength) - 1)) F.pieceLength =
      some ((F.pieces.length / 20 : ℕ) : ℤ) := by
    rw [i64_sub_one, i64_of_lt (by omega) (by omega), div64, if_neg (by omega),
      Int.tdiv_eq_ediv_of_nonneg (by omega), hF.count_eq]
  have hspan_ne : s.infoSpan ≠ [] := by
    rw [hspan]
    exact List.ne_nil_of_length_pos (length_encodeValue_pos _)
  rw [fromBencode, hs, ok_bind, readInfo, hval, asDict]
  dsimp only
  rw [hpl', ok_bind, hname, ok_bind, hpieces, ok_bind, if_neg (not_not.mpr hF.length_mod)]
  rw [readLayout_eq hread hF.length_nonneg (by omega), ok_bind]
  dsimp only
  rw [hdiv]
  dsimp only
  rw [hcount, if_neg (not_not.mpr rfl), i32_of_lt hlt, hlist, hurl', if_neg hspan_ne, hspan,
    if_congr (and_iff_left hurl) rfl rfl]
  rfl

/-! ### Digests -/

theorem ofBytes_toList (h : Digest) : Digest.ofBytes h.toList = h :=
  Vector.toList_inj.mp (toList_ofBytes (Vector.length_toList))

/-- **Digests one after the other** are cut apart again. -/
theorem cutHashes_flatMap (hs : List Digest) :
    cutHashes hs.length (hs.flatMap fun h => h.toList) = hs := by
  induction hs with
  | nil => rfl
  | cons h hs ih =>
    rw [List.length_cons, cutHashes, List.flatMap_cons, List.take_left' Vector.length_toList,
      List.drop_left' Vector.length_toList, ih, ofBytes_toList]

theorem length_flatMap_digests (hs : List Digest) :
    (hs.flatMap fun h => h.toList).length = 20 * hs.length := by
  induction hs with
  | nil => rfl
  | cons h hs ih =>
    rw [List.flatMap_cons, List.length_append, ih, Vector.length_toList, List.length_cons]
    omega

end TorrentFile

/-! ### Publishing -/

/-- What is shared: a file, or a directory with files, each of which has a path of segments. -/
inductive Contents
  /-- A file. -/
  | file (bytes : List UInt8)
  /-- A directory. -/
  | directory (entries : List (List (List UInt8) × List UInt8))
  deriving DecidableEq

/-- **A publication.** -/
structure Publication where
  /-- The URL of a tracker. -/
  announceUrl : List UInt8
  /-- The tiers of trackers, if there are more. -/
  tiers : List (List (List UInt8))
  /-- The name. -/
  name : List UInt8
  /-- Bytes per piece. -/
  pieceLength : ℕ
  /-- What is shared. -/
  contents : Contents
  deriving DecidableEq

namespace Publication

variable (p : Publication) (sha1 : List UInt8 → Digest)

/-- The files, with their paths. -/
def files : List (List UInt8 × List UInt8) :=
  match p.contents with
  | .file bytes => [(p.name, bytes)]
  | .directory entries => entries.map fun e => (List.intercalate [0x2f] e.1, e.2)

/-- **The contents**: the bytes of the files, one after the other. -/
def content : List UInt8 := p.files.flatMap Prod.snd

/-- The number of pieces. -/
def count : ℕ := (p.content.length + p.pieceLength - 1) / p.pieceLength

/-- The bytes of a piece. -/
def piece (i : ℕ) : List UInt8 := (p.content.drop (i * p.pieceLength)).take p.pieceLength

/-- The digests of the pieces. -/
def hashes : List Digest := (List.range p.count).map fun i => sha1 (p.piece i)

/-- An element of `files`. -/
def entryValue (e : List (List UInt8) × List UInt8) : BencodeValue :=
  .dict [(ascii "length", .int e.2.length), (ascii "path", .list (e.1.map .string))]

/-- The entry of `info` for the files. -/
def layoutEntry : BencodeString × BencodeValue :=
  match p.contents with
  | .file bytes => (ascii "length", .int bytes.length)
  | .directory entries => (ascii "files", .list (entries.map entryValue))

/-- The dictionary `info`. -/
def info : Dict :=
  [p.layoutEntry, (ascii "name", .string p.name), (ascii "piece length", .int p.pieceLength),
    (ascii "pieces", .string ((p.hashes sha1).flatMap fun h => h.toList))]

/-- The entry for the tiers, if there are any. -/
def tiersEntry : Dict :=
  if p.tiers = [] then []
  else [(ascii "announce-list", .list (p.tiers.map fun tier => .list (tier.map .string)))]

/-- The root dictionary. -/
def root : Dict :=
  (ascii "announce", .string p.announceUrl) ::
    (p.tiersEntry ++ [(ascii "info", .dict (p.info sha1))])

/-- **The torrent file.** -/
def torrentFile : List UInt8 := encode (.dict (p.root sha1))

/-- The trackers of the tiers. -/
def trackers : List (List UInt8) := p.tiers.flatten.filter (· ≠ [])

/-- **The metadata that is meant.** -/
def metadata : TorrentFile where
  pieceLength := p.pieceLength
  totalLength := p.content.length
  numPieces := p.count
  pieceHashes := p.hashes sha1
  files := layFiles 0 (p.files.map fun f => (f.1, (f.2.length : ℤ)))
  name := p.name
  announceUrl := p.announceUrl
  announceList := if p.trackers = [] then [p.announceUrl] else p.trackers
  infoHash := sha1 (encode (.dict (p.info sha1)))

/-- The byte strings that are written, other than the digests. -/
def strings : List (List UInt8) :=
  p.announceUrl :: p.name :: p.tiers.flatten ++
    match p.contents with
    | .file _ => []
    | .directory entries => entries.flatMap Prod.fst

/-- **The numbers are within the ranges of the source**, and there is a tracker. -/
structure InRange : Prop where
  /-- There is a tracker. -/
  announceUrl_ne : p.announceUrl ≠ []
  /-- Strings have a length. -/
  length_strings : ∀ str ∈ p.strings, str.length < 2 ^ 64
  /-- Pieces have bytes. -/
  pieceLength_pos : 0 < p.pieceLength
  /-- The length of a piece is an `int64_t`. -/
  pieceLength_lt : p.pieceLength < 2 ^ 63
  /-- The pieces are counted without overflow. -/
  length_le : p.content.length + p.pieceLength ≤ 2 ^ 63
  /-- Their number is an `int32_t`. -/
  count_lt : p.count < 2 ^ 31

variable {p sha1} {key : BencodeString}

theorem length_hashes : (p.hashes sha1).length = p.count := by
  rw [hashes, List.length_map, List.length_range]

theorem lengths_files :
    lengths (p.files.map fun f => (f.1, (f.2.length : ℤ))) = p.content.length := by
  rw [content]
  induction p.files with
  | nil => rfl
  | cons f fs ih =>
    rw [lengths] at ih ⊢
    rw [List.map_cons, List.map_cons, List.sum_cons, ih, List.flatMap_cons, List.length_append,
      Nat.cast_add]

/-- The keys of the root dictionary are distinct. -/
theorem lookup_root (hne : key ≠ ascii "announce-list") : (p.root sha1).lookup key =
    [(ascii "announce", BencodeValue.string p.announceUrl),
      (ascii "info", .dict (p.info sha1))].lookup key := by
  rw [root, tiersEntry, List.lookup_cons, List.lookup_cons]
  split
  · rfl
  · split
    · rfl
    · rw [List.cons_append, List.lookup_cons, beq_false_of_ne hne, List.nil_append]

/-! ### What is published as `info` -/

/-- What `info` says. -/
def infoFields (p : Publication) (sha1 : List UInt8 → Digest) : InfoFields where
  pieceLength := p.pieceLength
  name := p.name
  pieces := (p.hashes sha1).flatMap fun h => h.toList
  files := p.files.map fun f => (f.1, (f.2.length : ℤ))

theorem givesFile_entryValue (e : List (List UInt8) × List UInt8) :
    GivesFile (entryValue e) (List.intercalate [0x2f] e.1, (e.2.length : ℤ)) :=
  ⟨_, e.1, rfl, rfl, rfl, rfl⟩

/-- **`info` says what it is to say.** -/
theorem readFrom_info : (p.infoFields sha1).ReadFrom (p.info sha1) := by
  have hfiles : p.files = match p.contents with
      | .file bytes => [(p.name, bytes)]
      | .directory entries => entries.map fun e => (List.intercalate [0x2f] e.1, e.2) := rfl
  rw [info, layoutEntry]
  rcases hc : p.contents with bytes | entries
  · rw [hc] at hfiles
    refine ⟨rfl, rfl, rfl, Or.inr ⟨rfl, bytes.length, rfl, ?_⟩⟩
    rw [infoFields, hfiles]
    rfl
  · rw [hc] at hfiles
    refine ⟨rfl, rfl, rfl, Or.inl ⟨_, rfl, ?_⟩⟩
    rw [infoFields, hfiles, List.map_map, List.forall₂_map_left_iff, List.forall₂_map_right_iff]
    exact List.forall₂_same.mpr fun e _ => givesFile_entryValue e

theorem exact_infoFields (h : p.InRange) : (p.infoFields sha1).Exact := by
  have hlen := length_flatMap_digests (p.hashes sha1)
  have hpos := h.pieceLength_pos
  have hle := h.length_le
  have hcount : ((p.hashes sha1).flatMap fun h => h.toList).length / 20 = p.count := by
    rw [hlen, length_hashes, Nat.mul_div_cancel_left _ (by decide)]
  constructor
  case pieceLength_pos => exact Int.natCast_pos.mpr hpos
  case length_nonneg =>
    intro f hf
    obtain ⟨f', -, rfl⟩ := List.mem_map.mp hf
    exact Int.natCast_nonneg _
  case sum_le =>
    show lengths (p.files.map fun f => (f.1, (f.2.length : ℤ))) + p.pieceLength ≤ 2 ^ 63
    rw [lengths_files]
    omega
  case length_mod =>
    show ((p.hashes sha1).flatMap fun h => h.toList).length % 20 = 0
    rw [hlen, Nat.mul_mod_right]
  case count_eq =>
    show ((((p.hashes sha1).flatMap fun h => h.toList).length / 20 : ℕ) : ℤ) =
      (lengths (p.files.map fun f => (f.1, (f.2.length : ℤ))) + p.pieceLength - 1) / p.pieceLength
    rw [hcount, lengths_files, count, Int.natCast_ediv, Nat.cast_sub (by omega), Nat.cast_add,
      Nat.cast_one]
  case count_lt =>
    show ((p.hashes sha1).flatMap fun h => h.toList).length / 20 < 2 ^ 31
    rw [hcount]
    exact h.count_lt

/-! ### What is written is in range -/

theorem length_le_content {f : List UInt8 × List UInt8} (hf : f ∈ p.files) :
    f.2.length ≤ p.content.length := by
  obtain ⟨pre, post, hfiles⟩ := List.append_of_mem hf
  rw [content, hfiles, List.flatMap_append, List.flatMap_cons, List.length_append,
    List.length_append]
  omega

theorem bounded_length (h : p.InRange) {f : List UInt8 × List UInt8} (hf : f ∈ p.files) :
    (BencodeValue.int f.2.length).Bounded leastInt := by
  have hle := length_le_content hf
  have hpos := h.pieceLength_pos
  have hsum := h.length_le
  exact .int _ (by rw [leastInt]; omega) (by omega)

theorem bounded_strings (h : p.InRange) {l : List (List UInt8)} (hl : ∀ str ∈ l, str ∈ p.strings) :
    (BencodeValue.list (l.map .string)).Bounded leastInt := by
  refine .list _ fun v hv => ?_
  obtain ⟨str, hstr, rfl⟩ := List.mem_map.mp hv
  exact .string str (h.length_strings str (hl str hstr))

theorem bounded_layoutEntry (h : p.InRange) : p.layoutEntry.2.Bounded leastInt := by
  have hfiles : p.files = match p.contents with
      | .file bytes => [(p.name, bytes)]
      | .directory entries => entries.map fun e => (List.intercalate [0x2f] e.1, e.2) := rfl
  have hstrings : p.strings = p.announceUrl :: p.name :: p.tiers.flatten ++
      match p.contents with
      | .file _ => []
      | .directory entries => entries.flatMap Prod.fst := rfl
  rw [layoutEntry]
  rcases hc : p.contents with bytes | entries <;> rw [hc] at hfiles hstrings
  · exact bounded_length h (f := (p.name, bytes)) (by rw [hfiles]; exact List.mem_singleton_self _)
  · refine .list _ fun v hv => ?_
    obtain ⟨e, he, rfl⟩ := List.mem_map.mp hv
    have hlength : (BencodeValue.int e.2.length).Bounded leastInt :=
      bounded_length h (f := (List.intercalate [0x2f] e.1, e.2)) (by
        rw [hfiles]
        exact List.mem_map_of_mem he)
    have hpath : (BencodeValue.list (e.1.map .string)).Bounded leastInt :=
      bounded_strings h fun str hstr => by
        rw [hstrings]
        exact List.mem_append_right _ (List.mem_flatMap.mpr ⟨e, he, hstr⟩)
    refine .dict _ ?_ ?_ ?_
    · show [ascii "length", ascii "path"].Pairwise (· < ·)
      decide
    · simp only [List.forall_mem_cons, List.not_mem_nil, false_imp_iff, implies_true, and_true]
      exact ⟨by decide, by decide⟩
    · simp only [List.forall_mem_cons, List.not_mem_nil, false_imp_iff, implies_true, and_true]
      exact ⟨hlength, hpath⟩

theorem bounded_info (h : p.InRange) : (BencodeValue.dict (p.info sha1)).Bounded leastInt := by
  have hlen := length_flatMap_digests (p.hashes sha1)
  have hcount := h.count_lt
  have hpl := h.pieceLength_lt
  rw [length_hashes] at hlen
  have hkey : p.layoutEntry.1 ∈ [ascii "length", ascii "files"] := by
    rw [layoutEntry]
    split
    · exact List.mem_cons_self
    · exact List.mem_cons_of_mem _ List.mem_cons_self
  have hkeys : ∀ key ∈ [ascii "length", ascii "files"], key.length < 2 ^ 64 ∧
      [key, ascii "name", ascii "piece length", ascii "pieces"].Pairwise (· < ·) := by decide
  refine .dict _ (hkeys _ hkey).2 ?_ ?_
  · simp only [info, List.forall_mem_cons, List.not_mem_nil, false_imp_iff, implies_true, and_true]
    exact ⟨(hkeys _ hkey).1, by decide, by decide, by decide⟩
  · simp only [info, List.forall_mem_cons, List.not_mem_nil, false_imp_iff, implies_true, and_true]
    refine ⟨bounded_layoutEntry h, .string _ (h.length_strings _ ?_), .int _ ?_ (by omega),
      .string _ (by omega)⟩
    · exact List.mem_cons_of_mem _ List.mem_cons_self
    · rw [leastInt]
      omega

theorem bounded_tiersEntry (h : p.InRange) : ∀ e ∈ p.tiersEntry, e.2.Bounded leastInt := by
  intro e he
  rw [tiersEntry] at he
  split at he
  · cases he
  · rw [List.mem_singleton.mp he]
    refine .list _ fun v hv => ?_
    obtain ⟨tier, htier, rfl⟩ := List.mem_map.mp hv
    refine bounded_strings h fun str hstr => ?_
    exact List.mem_append_left _ (List.mem_cons_of_mem _ (List.mem_cons_of_mem _
      (List.mem_flatten.mpr ⟨tier, htier, hstr⟩)))

/-- **The torrent file is one that the parser reads.** -/
theorem parse_torrentFile (h : p.InRange) :
    parse (p.torrentFile sha1) = .ok (.dict (p.root sha1)) := by
  refine parse_eq_ok.mpr ⟨rfl, ?_⟩
  have htiers : p.tiersEntry.map Prod.fst = [] ∨
      p.tiersEntry.map Prod.fst = [ascii "announce-list"] := by
    rw [tiersEntry]
    split
    · exact Or.inl rfl
    · exact Or.inr rfl
  have hkeys : (p.root sha1).map Prod.fst =
      ascii "announce" :: (p.tiersEntry.map Prod.fst ++ [ascii "info"]) := by
    rw [root, List.map_cons, List.map_append]
    rfl
  have hsorted : ((p.root sha1).map Prod.fst).Pairwise (· < ·) ∧
      ∀ key ∈ (p.root sha1).map Prod.fst, key.length < 2 ^ 64 := by
    rw [hkeys]
    rcases htiers with ht | ht <;> rw [ht] <;> decide
  refine .dict _ hsorted.1 (fun e he => hsorted.2 _ (List.mem_map_of_mem he)) fun e he => ?_
  rcases List.mem_cons.mp he with rfl | he
  · exact .string _ (h.length_strings _ List.mem_cons_self)
  · rcases List.mem_append.mp he with he | he
    · exact bounded_tiersEntry h e he
    · rw [List.mem_singleton.mp he]
      exact bounded_info h

theorem tierTrackers_list (tier : List (List UInt8)) :
    tierTrackers (.list (tier.map .string)) = tier.filter (· ≠ []) := by
  show (tier.map BencodeValue.string).filterMap tracker? = _
  rw [List.filterMap_map]
  induction tier with
  | nil => rfl
  | cons str tier ih =>
    rw [List.filterMap_cons, List.filter_cons]
    by_cases hstr : str = []
    · simp [tracker?, asString, hstr, ih, Option.filter]
    · simp [tracker?, asString, hstr, ih, Option.filter]

/-- The trackers that are read are those of the tiers. -/
theorem rootTrackers_root : rootTrackers (p.root sha1) = p.trackers := by
  have hlook : (p.root sha1).lookup (ascii "announce-list") =
      if p.tiers = [] then none
      else some (.list (p.tiers.map fun tier => .list (tier.map .string))) := by
    rw [root, tiersEntry]
    split
    · rfl
    · rfl
  rw [rootTrackers, hlook, Publication.trackers]
  split
  case isTrue hnone =>
    rw [hnone]
    rfl
  case isFalse =>
    rw [Option.elim_some]
    show (p.tiers.map fun tier => BencodeValue.list (tier.map .string)).flatMap tierTrackers = _
    rw [List.flatMap_map, List.filter_flatten, List.flatMap_def]
    simp only [tierTrackers_list]

/-- **The torrent file is accepted**, as the metadata that is meant. -/
theorem fromBencode_torrentFile (h : p.InRange) :
    fromBencode sha1 (p.torrentFile sha1) = .ok (some (p.metadata sha1)) := by
  have hann : (p.root sha1).lookup (ascii "announce") = some (.string p.announceUrl) :=
    (lookup_root (by decide)).trans rfl
  have hinfo : (p.root sha1).lookup (ascii "info") = some (.dict (p.info sha1)) :=
    (lookup_root (by decide)).trans rfl
  have hcut := cutHashes_flatMap (p.hashes sha1)
  rw [length_hashes] at hcut
  have hcount : ((p.hashes sha1).flatMap fun h => h.toList).length / 20 = p.count := by
    rw [length_flatMap_digests, Nat.mul_div_cancel_left _ (by decide), length_hashes]
  rw [fromBencode_of_exact (parse_torrentFile h) hann h.announceUrl_ne hinfo readFrom_info
    (exact_infoFields h), InfoFields.metadata, metadata, rootTrackers_root]
  simp only [infoFields, lengths_files, hcount, hcut]

/-! ### The metadata -/

theorem map_length_metadata :
    (p.metadata sha1).files.map FileInfo.length = p.files.map fun f => (f.2.length : ℤ) := by
  have hgiven := map_given_layFiles 0 (p.files.map fun f => (f.1, (f.2.length : ℤ)))
  have hmap := congrArg (List.map Prod.snd) hgiven
  rwa [List.map_map, List.map_map] at hmap

theorem map_path_metadata : (p.metadata sha1).files.map FileInfo.path = p.files.map Prod.fst := by
  have hgiven := map_given_layFiles 0 (p.files.map fun f => (f.1, (f.2.length : ℤ)))
  have hmap := congrArg (List.map Prod.fst) hgiven
  rwa [List.map_map, List.map_map] at hmap

theorem consecutive_metadata : Consecutive 0 (p.metadata sha1).files := by
  refine consecutive_layFiles 0 fun f hf => ?_
  obtain ⟨f', -, rfl⟩ := List.mem_map.mp hf
  exact Int.natCast_nonneg _

theorem length_nonneg_metadata : ∀ f ∈ (p.metadata sha1).files, 0 ≤ f.length := by
  intro f hf
  have hmem : f.length ∈ p.files.map fun f => (f.2.length : ℤ) := by
    rw [← map_length_metadata]
    exact List.mem_map_of_mem hf
  obtain ⟨f', -, hf'⟩ := List.mem_map.mp hmem
  omega

theorem totalLength_metadata :
    (p.metadata sha1).totalLength = ((p.metadata sha1).files.map FileInfo.length).sum := by
  have hsum := lengths_files (p := p)
  rw [lengths, List.map_map] at hsum
  rw [map_length_metadata]
  exact hsum.symm

theorem numPieces_metadata (h : p.InRange) : (p.metadata sha1).numPieces =
    ((p.metadata sha1).totalLength + (p.metadata sha1).pieceLength - 1) /
      (p.metadata sha1).pieceLength := by
  have hpos := h.pieceLength_pos
  show ((p.count : ℕ) : ℤ) = ((p.content.length : ℤ) + p.pieceLength - 1) / p.pieceLength
  rw [count, Int.natCast_ediv, Nat.cast_sub (by omega), Nat.cast_add, Nat.cast_one]

/-- **What is published is read**, whatever is shared: a torrent file whose numbers are within the
ranges of the source is accepted as the metadata that is meant, and rejected if its end is missing.
The metadata is well formed if the paths are distinct and not empty, and only then. -/
theorem read_torrentFile (h : p.InRange) :
    fromBencode sha1 (p.torrentFile sha1) = .ok (some (p.metadata sha1)) ∧
    (∀ n < (p.torrentFile sha1).length, ∃ e,
      fromBencode sha1 ((p.torrentFile sha1).take n) = .error e) ∧
    (WellFormed (p.metadata sha1).toTorrentMetadata ↔
      (∀ f ∈ p.files, f.1 ≠ []) ∧ (p.files.map Prod.fst).Nodup) := by
  refine ⟨fromBencode_torrentFile h, fun n hn => ?_, fun hwf => ⟨?_, ?_⟩, fun ⟨hne, hnd⟩ => ?_⟩
  · have hroot : parse (p.torrentFile sha1) = .ok (.dict (p.root sha1)) := parse_torrentFile h
    obtain ⟨e, he⟩ := exists_parse_take_eq_error (parse_eq_ok.mp hroot).2 hn
    rcases hx : fromBencode sha1 ((p.torrentFile sha1).take n) with e' | r
    · exact ⟨e', rfl⟩
    · obtain ⟨d, hd, -⟩ := hasRoot_of_fromBencode hx
      cases he.symm.trans hd
  · have hpaths := hwf.path_ne
    rw [← List.forall_mem_map (P := fun path => path ≠ []), map_path_metadata] at hpaths
    exact fun f hf => hpaths f.1 (List.mem_map_of_mem hf)
  · have hnd := hwf.path_nodup
    rwa [map_path_metadata] at hnd
  · refine ⟨Int.natCast_pos.mpr h.pieceLength_pos, length_nonneg_metadata,
      fun pre f post hfiles => ?_, totalLength_metadata, ?_, numPieces_metadata h, ?_, ?_⟩
    · rw [offset_eq_of_consecutive consecutive_metadata pre f post hfiles, zero_add]
    · show ((p.count : ℕ) : ℤ) = (p.hashes sha1).length
      rw [length_hashes]
    · rw [← List.forall_mem_map (P := fun path => path ≠ []), map_path_metadata]
      exact List.forall_mem_map.mpr hne
    · rw [map_path_metadata]
      exact hnd

/-- A directory with the files `a` and `b/c`, in pieces of two bytes, and a second tracker. -/
def twoFiles : Publication where
  announceUrl := ascii "u"
  tiers := [[ascii "u"], [ascii "v"]]
  name := ascii "d"
  pieceLength := 2
  contents := .directory [([ascii "a"], [1]), ([ascii "b", ascii "c"], [2, 3])]

theorem inRange_twoFiles : twoFiles.InRange where
  announceUrl_ne := by decide
  length_strings := by decide
  pieceLength_pos := by decide
  pieceLength_lt := by decide
  length_le := by decide
  count_lt := by decide

/-- SHA-1 on the two pieces of `TransferEngine.Publication.twoFiles`, and on its info dictionary. -/
def twoFilesDigest (x : List UInt8) : Digest :=
  if x = [1, 2] then
    .ofBytes [0x0c, 0xa6, 0x23, 0xe2, 0x85, 0x5f, 0x2c, 0x75, 0xc8, 0x42,
      0xad, 0x30, 0x2f, 0xe8, 0x20, 0xe4, 0x1b, 0x4d, 0x19, 0x7d]
  else if x = [3] then
    .ofBytes [0x98, 0x42, 0x92, 0x6a, 0xf7, 0xca, 0x0a, 0x8c, 0xca, 0x12,
      0x60, 0x4f, 0x94, 0x54, 0x14, 0xf0, 0x7b, 0x01, 0xe1, 0x3d]
  else
    .ofBytes [0xc2, 0x75, 0x21, 0x3b, 0x86, 0x5c, 0x51, 0x48, 0xec, 0xdf,
      0x4a, 0xc5, 0x2e, 0x9c, 0x14, 0xf1, 0xfa, 0x64, 0x0a, 0x72]

/-- Three bytes in two pieces: the second piece starts in the middle of the second file. -/
theorem read_torrentFile_twoFiles :
    ∃ m, fromBencode twoFilesDigest (twoFiles.torrentFile twoFilesDigest) = .ok (some m) ∧
      m.files = [⟨ascii "a", 1, 0⟩, ⟨ascii "b/c", 2, 1⟩] ∧
      m.pieceHashes = [twoFilesDigest [1, 2], twoFilesDigest [3]] ∧
      m.announceList = [ascii "u", ascii "v"] :=
  ⟨_, (read_torrentFile inRange_twoFiles).1, by decide, by decide, by decide⟩

end Publication

end TransferEngine
