import TransferEngine.Main.Completion
import TransferEngine.TorrentFile.Publication

/-!
# From a publication to the files on disk

The program is there to make the files of a publication appear in a directory. What it is given is
the torrent file; what it downloads comes from peers of whom nothing is known. The link between the
two are the digests: as long as nobody has other bytes with the digest of a piece
(`TransferEngine.Publication.CollisionFree`), what has been written as a piece is that piece.

So once the program has found the files in order, or has announced that it is done and every last
write got to the disk, every file of the publication is in its place, byte for byte
(`TransferEngine.Main.delivered`).
-/

namespace TransferEngine

open DiskIOManager TorrentFile

namespace Publication

variable {p : Publication} {sha1 : List UInt8 → Digest} {dir : OutputDir} {disk : Disk} {i : ℕ}

/-- **The torrent that is downloaded.** -/
def torrent (p : Publication) (sha1 : List UInt8 → Digest) (h : p.InRange) : Torrent where
  toTorrentMetadata := (p.metadata sha1).toTorrentMetadata
  numPieces_nonneg := Int.natCast_nonneg _
  numPieces_lt := by
    have hlt := h.count_lt
    show ((p.count : ℕ) : ℤ) < 2 ^ 31
    omega
  hashes_length := length_hashes

/-- **Nobody has other bytes with the digest of a piece.** -/
def CollisionFree (p : Publication) (sha1 : List UInt8 → Digest) : Prop :=
  ∀ i < p.count, ∀ d : List UInt8, d.length = (p.piece i).length → sha1 d = sha1 (p.piece i) →
    d = p.piece i

/-- What the files are on the disk. -/
def fileIds (p : Publication) (dir : OutputDir) : List FileId :=
  p.files.map fun f => fileAt dir f.1

/-- **The files are in their places**, byte for byte. -/
def OnDisk (p : Publication) (dir : OutputDir) (disk : Disk) : Prop :=
  ∀ f ∈ p.files, disk (fileAt dir f.1) = some f.2

theorem layout_torrent (h : p.InRange) : (p.torrent sha1 h).Layout := by
  have hle := h.length_le
  have hpos := h.pieceLength_pos
  refine layout_of_consecutive (Int.natCast_pos.mpr hpos) length_nonneg_metadata
    consecutive_metadata totalLength_metadata ?_ (numPieces_metadata h)
  show ((p.content.length : ℕ) : ℤ) < 2 ^ 63
  omega

theorem sized_torrent (h : p.InRange) (hne : p.content ≠ []) : (p.torrent sha1 h).Sized := by
  have hlen := List.length_pos_iff.mpr hne
  have hlt := h.pieceLength_lt
  refine ⟨Int.natCast_pos.mpr h.pieceLength_pos, Int.natCast_pos.mpr hlen, ?_,
    (layout_torrent h).totalLength_lt, numPieces_metadata h⟩
  show ((p.pieceLength : ℕ) : ℤ) < 2 ^ 63
  omega

theorem fileIds_torrent (h : p.InRange) (dir : OutputDir) :
    DiskIOManager.fileIds dir (p.torrent sha1 h).files = p.fileIds dir := by
  have hpaths : (p.torrent sha1 h).files.map FileInfo.path = p.files.map Prod.fst :=
    map_path_metadata
  have hids := congrArg (List.map (fileAt dir)) hpaths
  rwa [List.map_map, List.map_map] at hids

/-! ### The files and the array -/

/-- The array, file by file of the publication. -/
theorem flat_torrent (h : p.InRange) : flat dir disk (p.torrent sha1 h).files =
    (p.files.map fun f => (disk (fileAt dir f.1)).getD []).flatten := by
  have hpaths : (p.torrent sha1 h).files.map FileInfo.path = p.files.map Prod.fst :=
    map_path_metadata
  have hcontents := congrArg (List.map fun path => (disk (fileAt dir path)).getD []) hpaths
  rw [List.map_map, List.map_map] at hcontents
  exact congrArg List.flatten hcontents

/-- The files are there, with their lengths. -/
theorem exists_of_allocated (h : p.InRange) (ha : Allocated dir disk (p.torrent sha1 h).files)
    {f : List UInt8 × List UInt8} (hf : f ∈ p.files) :
    ∃ c, disk (fileAt dir f.1) = some c ∧ c.length = f.2.length := by
  have hgiven : (f.1, (f.2.length : ℤ)) ∈ (p.metadata sha1).files.map given := by
    rw [metadata, map_given_layFiles]
    exact List.mem_map_of_mem hf
  obtain ⟨f', hf', heq⟩ := List.mem_map.mp hgiven
  obtain ⟨hpath, hlength⟩ := Prod.mk.inj heq
  obtain ⟨c, hc, hl⟩ := ha f' hf'
  exact ⟨c, hpath ▸ hc, by omega⟩

/-- **The array determines the files.** -/
theorem onDisk_of_flat (h : p.InRange) (ha : Allocated dir disk (p.torrent sha1 h).files)
    (hflat : flat dir disk (p.torrent sha1 h).files = p.content) : p.OnDisk dir disk := by
  have hmap : (p.files.map fun f => (disk (fileAt dir f.1)).getD []) =
      p.files.map Prod.snd := by
    refine List.eq_iff_flatten_eq.mpr ⟨?_, ?_⟩
    · rw [← flat_torrent h, hflat]
      rfl
    · rw [List.map_map, List.map_map]
      refine List.map_congr_left fun f hf => ?_
      obtain ⟨c, hc, hl⟩ := exists_of_allocated h ha hf
      rw [Function.comp_apply, Function.comp_apply, hc, Option.getD_some, hl]
  intro f hf
  obtain ⟨c, hc, -⟩ := exists_of_allocated h ha hf
  have hfile := List.map_inj_left.mp hmap f hf
  rw [hc, Option.getD_some] at hfile
  rw [hc, hfile]

/-! ### Pieces -/

theorem stored_torrent (h : p.InRange) (ha : Allocated dir disk (p.torrent sha1 h).files)
    (hi : i < p.count) : stored (p.torrent sha1 h) dir disk i =
      ((flat dir disk (p.torrent sha1 h).files).drop (i * p.pieceLength)).take p.pieceLength :=
  stored_eq_chunk (layout_torrent h) ha hi

theorem length_flat_torrent (h : p.InRange) (ha : Allocated dir disk (p.torrent sha1 h).files) :
    (flat dir disk (p.torrent sha1 h).files).length = p.content.length :=
  Int.natCast_inj.mp (length_flat_of_layout (layout_torrent h) ha)

/-- **Bytes with the digest of a piece are the piece.** -/
theorem stored_eq_piece (h : p.InRange) (hcf : p.CollisionFree sha1)
    (ha : Allocated dir disk (p.torrent sha1 h).files) (hi : i < p.count)
    (hdigest : (p.torrent sha1 h).pieceHashes[i]? =
      some (sha1 (stored (p.torrent sha1 h) dir disk i))) :
    stored (p.torrent sha1 h) dir disk i = p.piece i := by
  refine hcf i hi _ ?_ ?_
  · rw [stored_torrent h ha hi, piece, List.length_take, List.length_take, List.length_drop,
      List.length_drop, length_flat_torrent h ha]
  · have hhash : (p.torrent sha1 h).pieceHashes[i]? = some (sha1 (p.piece i)) := by
      show (p.hashes sha1)[i]? = _
      rw [hashes, List.getElem?_map, List.getElem?_range hi, Option.map_some]
    exact Option.some.inj (hdigest.symm.trans hhash)

/-- All of the content is in its pieces. -/
theorem length_content_le (h : p.InRange) : p.content.length ≤ p.count * p.pieceLength := by
  have hpos := h.pieceLength_pos
  have hdiv := Nat.lt_mul_div_succ (p.content.length + p.pieceLength - 1) hpos
  rw [count, Nat.mul_comm]
  rw [Nat.mul_succ] at hdiv
  omega

/-- **Every piece is on disk, so every file is in its place.** -/
theorem onDisk_of_pieces (h : p.InRange) (ha : Allocated dir disk (p.torrent sha1 h).files)
    (hpieces : ∀ i < p.count, stored (p.torrent sha1 h) dir disk i = p.piece i) :
    p.OnDisk dir disk := by
  refine onDisk_of_flat h ha (List.eq_of_chunks (n := p.pieceLength) (k := p.count) ?_
    (length_content_le h) fun i hi => ?_)
  · rw [length_flat_torrent h ha]
    exact length_content_le h
  · rw [← stored_torrent h ha hi]
    exact hpieces i hi

/-- **What it takes to download a publication** into a directory: the numbers are in their ranges,
the files are different ones and were created, and the digests stand for the pieces. -/
structure Ready (p : Publication) (sha1 : List UInt8 → Digest) (dir : OutputDir) (disk : Disk) :
    Prop where
  /-- The numbers of the torrent file are in their ranges. -/
  inRange : p.InRange
  /-- There is something to download. -/
  content_ne : p.content ≠ []
  /-- The length of a piece is a `uint32_t`. -/
  size_lt : min p.pieceLength p.content.length < 2 ^ 32
  /-- The files are different ones. -/
  nodup : (p.fileIds dir).Nodup
  /-- Nobody has other bytes with the digest of a piece. -/
  collisionFree : p.CollisionFree sha1
  /-- The files were created. -/
  created : ∃ alloc disk₀, preallocateFiles alloc dir (p.metadata sha1).files disk₀ = (none, disk)

/-! ### Runs of the coordinator -/

section Run

open Coordinator

variable {env : Env}

/-- **What was written was published**: the files have their lengths, and a piece whose last write
got to the disk is there as it was published. -/
theorem Ready.stored_run (h : p.Ready env.sha1 env.outputDir disk) (l : List Input) :
    Allocated env.outputDir (run env disk l : State (p.torrent env.sha1 h.inRange)).disk
        (p.torrent env.sha1 h.inRange).files ∧
      ∀ i d, lastWrite (run env disk l : State (p.torrent env.sha1 h.inRange)).trace i =
          some (d, .landed) → i < p.count ∧
        stored (p.torrent env.sha1 h.inRange) env.outputDir
          (run env disk l : State (p.torrent env.sha1 h.inRange)).disk i = p.piece i := by
  obtain ⟨alloc, disk₀, hpre⟩ := h.created
  have hg : Genuine env (run env disk l : State (p.torrent env.sha1 h.inRange)) :=
    genuine_run env disk l
  have hsize : min (p.torrent env.sha1 h.inRange).pieceLength
      (p.torrent env.sha1 h.inRange).totalLength < 2 ^ 32 := by
    have hlt := h.size_lt
    show min (p.pieceLength : ℤ) (p.content.length : ℤ) < 2 ^ 32
    omega
  have hnd : (DiskIOManager.fileIds env.outputDir (p.torrent env.sha1 h.inRange).files).Nodup :=
    fileIds_torrent h.inRange env.outputDir ▸ h.nodup
  obtain ⟨hal, hst⟩ := Coordinator.stored_run env (layout_torrent h.inRange)
    (sized_torrent h.inRange h.content_ne) hsize hnd hpre l
  refine ⟨hal, fun i d hi => ?_⟩
  obtain ⟨hlt, hd⟩ := hst i d hi
  refine ⟨hlt, stored_eq_piece h.inRange h.collisionFree hal hlt ?_⟩
  rw [hd]
  exact (hg.written i d .landed (mem_of_lastWrite hi) hlt).2

/-- If every piece is complete and every last write got to the disk, every file is in its place. -/
theorem Ready.onDisk_of_complete (h : p.Ready env.sha1 env.outputDir disk) (l : List Input)
    (hall : ∀ i < p.count,
      (run env disk l : State (p.torrent env.sha1 h.inRange)).pieceManager.hasPiece i = true)
    (hlanded : ∀ i d outcome,
      lastWrite (run env disk l : State (p.torrent env.sha1 h.inRange)).trace i =
        some (d, outcome) → outcome = .landed) :
    p.OnDisk env.outputDir (run env disk l : State (p.torrent env.sha1 h.inRange)).disk := by
  have hg : Genuine env (run env disk l : State (p.torrent env.sha1 h.inRange)) :=
    genuine_run env disk l
  obtain ⟨hal, hst⟩ := h.stored_run l
  refine onDisk_of_pieces h.inRange hal fun i hi => ?_
  obtain ⟨⟨d, outcome⟩, hlast⟩ := Option.isSome_iff_exists.mp (hg.complete i (hall i hi))
  obtain rfl := hlanded i d outcome hlast
  exact (hst i d hlast).2

/-- If the closing validation finds nothing wrong, every file is in its place. -/
theorem Ready.onDisk_of_allOk (h : p.Ready env.sha1 env.outputDir disk) (l : List Input)
    {io : FileInfo → ReadOutcome}
    (hok : allOk (p.torrent env.sha1 h.inRange) env.sha1 io env.outputDir
      (run env disk l : State (p.torrent env.sha1 h.inRange)).disk = true) :
    p.OnDisk env.outputDir (run env disk l : State (p.torrent env.sha1 h.inRange)).disk := by
  obtain ⟨hal, -⟩ := h.stored_run l
  refine onDisk_of_pieces h.inRange hal fun i hi => ?_
  rw [allOk, List.all_eq_true] at hok
  exact stored_eq_piece h.inRange h.collisionFree hal hi
    (digest_of_verifyPiece (layout_torrent h.inRange) hal hi (hok i (List.mem_range.mpr hi)))

end Run

end Publication

namespace Main

variable {T : Torrent} {env : Env} {s : State T} {l : List Input} {disk : Disk} {clock t₁ t₂ : ℤ}

/-- What the coordinator does is a run of its own. -/
theorem coordinator_run (hr : Runs.Reach (step env) (Allowed env) (start T disk clock t₁ t₂) l s) :
    ∃ l', s.coordinator = Coordinator.run env disk l' := by
  refine hr.invariant (I := fun s => ∃ l', s.coordinator = Coordinator.run env disk l') ⟨[], rfl⟩
    fun s a hI _ => ?_
  obtain ⟨l', hrun⟩ := hI
  cases a with
  | event a =>
    refine ⟨l' ++ [a], ?_⟩
    rw [step, hrun, Coordinator.run, Coordinator.run, List.foldl_append]
    rfl
  | drain top io => exact ⟨l', (step_drain_eq env s top io).1.trans hrun⟩
  | returns now after => exact ⟨l', (step_returns_eq env s now after).1.trans hrun⟩
  | _ => exact ⟨l', hrun⟩

/-- **From the torrent file to the files.** The program has read the torrent file of a publication
and created the files. Then in every run, whatever the peers send: a piece whose last write got to
the disk reads as it was published; and if the files were found in order, or if the completion was
announced and every last write got to the disk, every file of the publication is in its place, byte
for byte. -/
theorem delivered {p : Publication} {read : TorrentFile}
    (hp : p.Ready env.sha1 env.outputDir disk)
    (hread : fromBencode env.sha1 (p.torrentFile env.sha1) = .ok (some read))
    (hT : T.toTorrentMetadata = read.toTorrentMetadata) (ht : Readings clock t₁ t₂)
    (hr : Runs.Reach (step env) (Allowed env) (start T disk clock t₁ t₂) l s) :
    (∀ i d, lastWrite s.coordinator.trace i = some (d, .landed) →
      readPiece T (fun _ => .good) env.outputDir i s.coordinator.disk = .ok (p.piece i)) ∧
    (s.validated = some true → p.OnDisk env.outputDir s.coordinator.disk) ∧
    (s.announced ≠ [] →
      (∀ i d outcome, lastWrite s.coordinator.trace i = some (d, outcome) → outcome = .landed) →
      p.OnDisk env.outputDir s.coordinator.disk) := by
  -- the torrent is the one that is meant
  rw [Publication.fromBencode_torrentFile hp.inRange] at hread
  obtain rfl := Option.some.inj (Except.ok.inj hread)
  obtain rfl : T = p.torrent env.sha1 hp.inRange := by
    cases T
    cases hT
    rfl
  obtain ⟨-, hending⟩ := accounts_ending_run
    (Publication.sized_torrent hp.inRange hp.content_ne) ht hr
  obtain ⟨l', hrun⟩ := coordinator_run hr
  obtain ⟨hal, hst⟩ := hp.stored_run l'
  refine ⟨fun i d hi => ?_, fun hvalid => ?_, fun hann hlanded => ?_⟩
  · rw [hrun] at hi ⊢
    obtain ⟨hlt, hpiece⟩ := hst i d hi
    rw [readPiece_good (Publication.layout_torrent hp.inRange) hal hlt, ← DiskIOManager.stored,
      hpiece]
  · rcases hending.quiet_or_checked with ⟨hnone, -⟩ | ⟨-, io, hvalidated⟩
    · cases hvalid.symm.trans hnone
    · have hok := Option.some.inj (hvalidated.symm.trans hvalid)
      rw [hrun] at hok ⊢
      exact hp.onDisk_of_allOk l' hok
  · rcases hending.quiet_or_checked with ⟨-, hnil⟩ | ⟨hall, -⟩
    · exact absurd hnil hann
    · rw [Complete, hrun] at hall
      rw [hrun] at hlanded ⊢
      exact hp.onDisk_of_complete l' hall hlanded

/-- A directory with the files `a` and `b`, of one byte each. -/
def twoByteFiles : Publication where
  announceUrl := ascii "u"
  tiers := []
  name := ascii "d"
  pieceLength := 1
  contents := .directory [([[0x61]], [0x61]), ([[0x62]], [0x62])]

/-- The digests of `a` and `b` are not those of any other byte. -/
theorem eq_of_shortDigest {x y : UInt8} (hx : x = 0x61 ∨ x = 0x62)
    (h : shortDigest [y] = shortDigest [x]) : y = x := by
  by_cases hy : y = 0x61 ∨ y = 0x62
  · obtain rfl | rfl := hx <;> obtain rfl | rfl := hy
    · rfl
    · exact absurd h (by decide +kernel)
    · exact absurd h (by decide +kernel)
    · rfl
  · obtain ⟨hya, hyb⟩ := not_or.mp hy
    have hzero : shortDigest [y] = Vector.replicate 20 0 := by simp [shortDigest, hya, hyb]
    rw [hzero] at h
    obtain rfl | rfl := hx
    · exact absurd h (by decide +kernel)
    · exact absurd h (by decide +kernel)

theorem collisionFree_twoByteFiles : twoByteFiles.CollisionFree Env.calm.sha1 := by
  intro i hi d hlen hdigest
  have hone : ∀ i < twoByteFiles.count,
      twoByteFiles.piece i = [0x61] ∨ twoByteFiles.piece i = [0x62] := by
    decide
  obtain ⟨x, hx, hab⟩ : ∃ x, twoByteFiles.piece i = [x] ∧ (x = 0x61 ∨ x = 0x62) := by
    obtain h | h := hone i hi
    · exact ⟨_, h, .inl rfl⟩
    · exact ⟨_, h, .inr rfl⟩
  rw [hx] at hlen hdigest ⊢
  obtain ⟨y, rfl⟩ := List.length_eq_one_iff.mp hlen
  rw [eq_of_shortDigest hab hdigest]

theorem ready_twoByteFiles :
    twoByteFiles.Ready Env.calm.sha1 Env.calm.outputDir Coordinator.twoBytesDisk where
  inRange := ⟨by decide, by decide, by decide, by decide, by decide, by decide⟩
  content_ne := by decide
  size_lt := by decide
  nodup := by decide
  collisionFree := collisionFree_twoByteFiles
  created := ⟨fun _ => .good, fun _ => none, Coordinator.preallocateFiles_twoBytes⟩

/-- The files are there when the download is over. -/
theorem delivered_twoByteFiles : twoByteFiles.OnDisk Env.calm.outputDir
    (bothPiecesInputs.foldl (step Env.calm)
      (start Torrent.twoBytes Coordinator.twoBytesDisk 0 0 0)).coordinator.disk :=
  (delivered ready_twoByteFiles (Publication.fromBencode_torrentFile ready_twoByteFiles.inRange) rfl
    ⟨le_rfl, le_rfl, by decide, by decide⟩ reach_bothPiecesInputs).2.1 (by decide +kernel)

end Main

end TransferEngine
