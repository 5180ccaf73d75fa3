import TransferEngine.Coordinator.Durability
import TransferEngine.PartialWrites
import TransferEngine.PieceSizes

/-!
# What is on disk in the end

When all pieces are complete, `main` reads every one of them back and checks its digest. What it
finds is decided by the trace: the disk is what the recorded writes have made of the files that
were there at the start (`TransferEngine.Coordinator.logged_run`), and a write that fails
destroys nothing but its own piece. So a piece whose last write got to the disk is there
(`TransferEngine.Coordinator.integrity_run`), whatever the peers sent, whichever connections broke,
and whichever other writes failed.
-/

namespace TransferEngine

open DiskIOManager

namespace Coordinator

variable {T : Torrent} {s s' : State T} {env : Env} {a : Input} {i : ℕ} {disk disk₀ : Disk}
  {tr : List Event} {e : Event} {d : List UInt8} {p : PeerId}

/-- **The disk is what the writes of the trace have made of it**, and what became of them is
recorded. -/
inductive Logged (T : Torrent) (env : Env) (disk₀ : Disk) : List Event → Disk → Prop
  /-- Nothing has been written. -/
  | start : Logged T env disk₀ [] disk₀
  /-- A piece is written. -/
  | write (i : ℕ) (d : List UInt8) (tr : List Event) (disk : Disk) : Logged T env disk₀ tr disk →
      Logged T env disk₀
        (.wrote i d (writeOutcome T (env.io tr) env.outputDir i d disk) :: tr)
        (writePiece T (env.io tr) env.outputDir i d disk).2
  /-- Something else happens. -/
  | other (e : Event) (tr : List Event) (disk : Disk) : (∀ i, e.write? i = none) →
      Logged T env disk₀ tr disk → Logged T env disk₀ (e :: tr) disk

/-! ### The disk and the trace -/

theorem disk_unregisterPeer : (unregisterPeer p s).disk = s.disk := by
  rw [unregisterPeer]
  split
  case h_1 => rfl
  case h_2 => rfl

theorem Move.disk_eq (hm : Move s s') : s'.disk = s.disk := by
  cases hm with
  | leave p => exact disk_unregisterPeer
  | note => rfl
  | connection => rfl
  | request => rfl
  | exhaust => rfl
  | cancel => rfl
  | deactivate => rfl

theorem Logged.move (h : Logged T env disk₀ s.trace s.disk) (hm : Move s s') :
    Logged T env disk₀ s'.trace s'.disk := by
  rw [hm.disk_eq]
  rcases hm.trace_cases with htr | ⟨e, he, htr⟩
  · exact htr ▸ h
  · exact htr ▸ h.other e s.trace s.disk he.write?_eq

theorem Logged.moves (h : Logged T env disk₀ s.trace s.disk) (hm : Moves s s') :
    Logged T env disk₀ s'.trace s'.disk :=
  Runs.preserved_chain (I := fun t : State T => Logged T env disk₀ t.trace t.disk) hm
    (fun _ _ ht hm => ht.move hm) h

theorem Logged.hashFault (h : Logged T env disk₀ tr disk) (i : ℕ) :
    Logged T env disk₀ (hashFault T i ++ tr) disk := by
  rw [Coordinator.hashFault]
  split
  case isTrue => exact h
  case isFalse => exact h.other (.hashOutOfBounds i) tr disk fun _ => rfl

/-- Finishing a piece writes it, or blames its peer. -/
theorem Logged.settle (h : Logged T env disk₀ s.trace s.disk) (p : PeerId) (i : ℕ) :
    Logged T env disk₀ (settle env p i s).trace (settle env p i s).disk := by
  rw [Coordinator.settle, log_hashFault]
  dsimp only
  split
  case isTrue =>
    exact .write _ _ _ _ ((h.hashFault i).other (.pieceCompleted i _) _ _ fun _ => rfl)
  case isFalse =>
    have hblamed := (h.hashFault i).other (.peerCorrupted p) _ _ fun _ => rfl
    rw [onPeerCorrupted]
    split
    case isTrue =>
      refine Logged.moves ?_ (moves_disconnect p _)
      exact hblamed
    case isFalse => exact hblamed

theorem Logged.head (h : Logged T env disk₀ s.trace s.disk) (a : Input) :
    Logged T env disk₀ (head env s a).trace (head env s a).disk := by
  cases a with
  | establish p =>
    rw [Coordinator.head]
    split
    case isTrue => exact h
    case isFalse => exact h
  | register p => exact h
  | unregister p =>
    rw [Coordinator.head, trace_unregisterPeer, disk_unregisterPeer]
    exact h
  | interested p => exact h
  | disconnect p => exact h
  | message p m =>
    rw [Coordinator.head]
    split
    case isFalse => exact h
    case isTrue =>
      split
      case h_1 => exact h
      case h_2 state hp =>
        cases m with
        | pieceMsg idx c x =>
          rw [headMessage]
          rcases hb : deliver p idx.toNat c.toNat x state
            (s.setConnection p ((s.connections p).received (.pieceMsg idx c x))) with ⟨completed, t⟩
          -- taking the block in writes nothing
          have ht : Logged T env disk₀ t.trace t.disk := by
            rw [deliver] at hb
            obtain rfl := (Prod.mk.inj hb).2
            exact h
          dsimp only
          split
          case isTrue => exact ht.settle p idx.toNat
          case isFalse => exact ht
        | haveMsg idx =>
          rw [headMessage, recordHave]
          split
          case isTrue => exact h
          case isFalse => exact h
        | chokeMsg => exact h
        | bitfieldMsg => exact h
        | keepAliveMsg => exact h
        | unchokeMsg => exact h
        | interestedMsg => exact h
        | notInterestedMsg => exact h
        | requestMsg => exact h
        | cancelMsg => exact h
        | portMsg => exact h

/-- **The disk refines the trace**, in every run. -/
theorem logged_run (env : Env) (disk : Disk) (l : List Input) :
    Logged T env disk (run env disk l : State T).trace (run env disk l : State T).disk := by
  have hreach : Runs.Reach (Coordinator.step env) Runs.free (.init T disk) l (run env disk l) :=
    Runs.reach_free l
  exact hreach.invariant (I := fun t : State T => Logged T env disk t.trace t.disk) .start
    fun s a h _ => (h.head a).moves (moves_step env s a)

/-! ### What has been written -/

/-- Whatever was written as a piece of the torrent has the length and the digest of the piece,
and every complete piece was written. -/
structure Genuine (env : Env) (s : State T) : Prop where
  /-- The entries of the piece manager are sound. -/
  ok : s.pieceManager.Ok
  /-- What was written is the piece. -/
  written : ∀ i d outcome, .wrote i d outcome ∈ s.trace → i < T.count →
    d.length = T.getPieceLength i ∧ T.pieceHashes[i]? = some (env.sha1 d)
  /-- A complete piece was written. -/
  complete : ∀ i, s.pieceManager.hasPiece i = true → (lastWrite s.trace i).isSome

theorem genuine_init (disk : Disk) : Genuine env (.init T disk) where
  ok := PieceManager.ok_init
  written := fun _ _ _ hmem => absurd hmem List.not_mem_nil
  complete := fun i h => by simp [State.init, PieceManager.init, PieceManager.hasPiece] at h

theorem isSome_lastWrite_cons (e : Event) (h : (lastWrite tr i).isSome) :
    (lastWrite (e :: tr) i).isSome := by
  rw [lastWrite, List.findSome?_cons]
  split
  case h_1 => rfl
  case h_2 => exact h

/-- The last write of a piece is recorded. -/
theorem mem_of_lastWrite {outcome : WriteOutcome} (h : lastWrite tr i = some (d, outcome)) :
    .wrote i d outcome ∈ tr := by
  obtain ⟨e, hmem, he⟩ := List.exists_of_findSome?_eq_some h
  cases e with
  | wrote j x r =>
    rw [Event.write?] at he
    split at he
    case isTrue hij =>
      cases he
      exact hij ▸ hmem
    case isFalse => cases he
  | _ => cases he

/-- Recording an event that writes nothing. -/
theorem Genuine.of_cons (h : Genuine env s) (hok : s'.pieceManager.Ok)
    (hhas : ∀ i, s'.pieceManager.hasPiece i = s.pieceManager.hasPiece i)
    (htr : s'.trace = e :: s.trace) (he : ∀ i, e.write? i = none) : Genuine env s' where
  ok := hok
  written := by
    intro i d outcome hmem
    rw [htr, List.mem_cons] at hmem
    rcases hmem with rfl | hmem
    · have hnone := he i
      simp [Event.write?] at hnone
    · exact h.written i d outcome hmem
  complete := by
    intro i hi
    rw [htr]
    exact isSome_lastWrite_cons e (h.complete i (hhas i ▸ hi))

theorem Genuine.of_trace_eq (h : Genuine env s) (hok : s'.pieceManager.Ok)
    (hhas : ∀ i, s'.pieceManager.hasPiece i = s.pieceManager.hasPiece i)
    (htr : s'.trace = s.trace) : Genuine env s' where
  ok := hok
  written := htr ▸ h.written
  complete := fun i hi => htr ▸ h.complete i (hhas i ▸ hi)

theorem Genuine.move (h : Genuine env s) (hm : Move s s') : Genuine env s' := by
  rcases hm.trace_cases with htr | ⟨e, he, htr⟩
  · exact h.of_trace_eq (hm.ok h.ok) (fun _ => hm.hasPiece_eq) htr
  · exact h.of_cons (hm.ok h.ok) (fun _ => hm.hasPiece_eq) htr he.write?_eq

theorem Genuine.hashFault (h : Genuine env s) (i : ℕ) :
    Genuine env { s with trace := hashFault T i ++ s.trace } := by
  rw [Coordinator.hashFault]
  split
  case isTrue => exact h
  case isFalse => exact h.of_cons h.ok (fun _ => rfl) rfl (fun _ => rfl)

theorem Genuine.head (h : Genuine env s) (hh : Head env s a s') : Genuine env s' := by
  have hok := hh.ok h.ok
  rcases hh.trace_cases with ⟨hhas, htr⟩ | ⟨p, idx, c, x, state, pm, -, -, -, -, -, hhas, htr⟩ |
    ⟨p, idx, c, x, state, pm, tr, outcome, -, -, -, hb, hv, hhas, htr, -, htr'⟩
  · exact h.of_trace_eq hok hhas htr
  · exact (h.hashFault idx.toNat).of_cons hok hhas htr (fun _ => rfl)
  · -- the callback is recorded, then the write
    have hmid : Genuine env { s with trace := tr } :=
      (h.hashFault idx.toNat).of_cons h.ok (fun _ => rfl) htr (fun _ => rfl)
    refine ⟨hok, fun i d outcome hmem hi => ?_, fun i hi => ?_⟩
    · rw [htr', List.mem_cons] at hmem
      rcases hmem with heq | hmem
      · cases heq
        exact PieceManager.of_validatePiece h.ok hb hv hi
      · exact hmid.written i d outcome hmem hi
    · rw [htr']
      rcases (hhas i).mp hi with ⟨rfl, -⟩ | hhad
      · rw [lastWrite, List.findSome?_cons, Event.write?, if_pos rfl]
        rfl
      · exact isSome_lastWrite_cons _ (hmid.complete i hhad)

theorem genuine_run (env : Env) (disk : Disk) (l : List Input) :
    Genuine env (run env disk l : State T) := by
  have hreach : Runs.Reach (Coordinator.step env) Runs.free (.init T disk) l (run env disk l) :=
    Runs.reach_free l
  exact hreach.invariant (genuine_init disk) fun s a h _ =>
    Runs.preserved_chain (moves_step env s a) (fun _ _ hs hm => hs.move hm)
      (h.head (head_spec env s a))

/-! ### Reading it back -/

/-- What was written last is there, if it got to the disk: later writes spare it. -/
theorem Logged.stored (h : Logged T env disk₀ tr disk) (hT : T.Layout)
    (hnd : (fileIds env.outputDir T.files).Nodup) (ha : Allocated env.outputDir disk₀ T.files)
    (hw : ∀ i d outcome, .wrote i d outcome ∈ tr → i < T.count →
      (d.length : ℤ) = pieceSize T i) :
    Allocated env.outputDir disk T.files ∧
      ∀ i d, lastWrite tr i = some (d, .landed) →
        i < T.count ∧ DiskIOManager.stored T env.outputDir disk i = d := by
  induction h with
  | start => exact ⟨ha, fun i d hi => nomatch hi⟩
  | other e tr disk he _ ih =>
    obtain ⟨hal, hst⟩ := ih fun i d outcome hmem => hw i d outcome (List.mem_cons_of_mem _ hmem)
    refine ⟨hal, fun i d hi => hst i d ?_⟩
    rwa [lastWrite_cons (he i)] at hi
  | write j x tr disk _ ih =>
    obtain ⟨hal, hst⟩ := ih fun i d outcome hmem => hw i d outcome (List.mem_cons_of_mem _ hmem)
    by_cases hj : j < T.count
    · have hdata : PieceData T (j, x) := ⟨hj, hw j x _ List.mem_cons_self hj⟩
      refine ⟨(writePiece_overlay hT hnd hal (env.io tr) hdata).allocated hal, fun i d hi => ?_⟩
      by_cases hij : j = i
      · subst hij
        rw [lastWrite, List.findSome?_cons, Event.write?, if_pos rfl] at hi
        obtain ⟨rfl, hland⟩ := Prod.mk.inj (Option.some.inj hi)
        exact ⟨hj, stored_writePiece_self hT hnd hal hdata hland⟩
      · rw [lastWrite_cons (by rw [Event.write?, if_neg hij])] at hi
        obtain ⟨hlt, hd⟩ := hst i d hi
        exact ⟨hlt, (stored_writePiece_of_ne hT hnd hal (env.io tr) hdata hlt hij).trans hd⟩
    · -- there is no such piece, and the write throws at once
      have hwr : writePiece T (env.io tr) env.outputDir j x disk = (some .outOfRange, disk) := by
        rw [writePiece, if_pos (Nat.not_lt.mp hj)]
      have hthrew : writeOutcome T (env.io tr) env.outputDir j x disk = .threw := by
        rw [writeOutcome, hwr, if_pos (by simp)]
      rw [hwr]
      refine ⟨hal, fun i d hi => hst i d ?_⟩
      rw [hthrew, lastWrite, List.findSome?_cons] at hi
      split at hi
      case h_1 v hv =>
        rw [Event.write?] at hv
        split at hv
        case isTrue =>
          cases hv
          cases hi
        case isFalse => cases hv
      case h_2 => exact hi

/-- The closing validation of `main`: whether every piece on disk has its digest. -/
def allOk (T : Torrent) (sha1 : List UInt8 → Digest) (io : FileInfo → ReadOutcome)
    (dir : OutputDir) (disk : Disk) : Bool :=
  (List.range T.count).all fun i => verifyPiece T sha1 io dir i disk

/-- **What is on disk after a run**: the files have their lengths, and a piece whose last write
got there is there. -/
theorem stored_run (env : Env) (hT : T.Layout) (hsized : T.Sized)
    (hsize : min T.pieceLength T.totalLength < 2 ^ 32)
    (hnd : (fileIds env.outputDir T.files).Nodup) {alloc : FileInfo → AllocOutcome}
    (hpre : preallocateFiles alloc env.outputDir T.files disk₀ = (none, disk)) (l : List Input) :
    Allocated env.outputDir (run env disk l : State T).disk T.files ∧
      ∀ i d, lastWrite (run env disk l : State T).trace i = some (d, .landed) →
        i < T.count ∧ stored T env.outputDir (run env disk l : State T).disk i = d := by
  have hg : Genuine env (run env disk l : State T) := genuine_run env disk l
  have hlen : ∀ i < T.count, (T.getPieceLength i : ℤ) = pieceSize T i := by
    intro i hi
    obtain ⟨hpos, hpl, htl⟩ := hsized.pieceSize_bounds hi
    rw [Torrent.getPieceLength_eq hi, Torrent.cast_u32 hpos.le (by omega)]
  exact (logged_run env disk l).stored hT hnd (allocated_of_preallocateFiles hnd hpre)
    fun i d outcome hmem hi => by rw [(hg.written i d outcome hmem hi).1, hlen i hi]

/-- **What was written is there.** The files have been created without an exception. Then in every
run whose steps are defined, whatever the peers send, whichever connections break and whichever
writes fail: a piece whose last write got to the disk reads back as it was written and passes the
check. So once every piece is complete, the closing validation finds nothing wrong unless a last
write has failed, with an exception or without. -/
theorem integrity_run (env : Env) (hT : T.Layout) (hsized : T.Sized)
    (hsize : min T.pieceLength T.totalLength < 2 ^ 32)
    (hnd : (fileIds env.outputDir T.files).Nodup) {alloc : FileInfo → AllocOutcome}
    (hpre : preallocateFiles alloc env.outputDir T.files disk₀ = (none, disk)) {l : List Input}
    (hrun : Runs.Reach (step env) (Defined env) (.init T disk) l s) :
    (∀ i d, lastWrite s.trace i = some (d, .landed) →
      readPiece T (fun _ => .good) env.outputDir i s.disk = .ok d ∧
      verifyPiece T env.sha1 (fun _ => .good) env.outputDir i s.disk = true) ∧
    ((∀ i < T.count, s.pieceManager.hasPiece i = true) →
      (∀ i d outcome, lastWrite s.trace i = some (d, outcome) → outcome = .landed) →
      allOk T env.sha1 (fun _ => .good) env.outputDir s.disk = true) := by
  obtain rfl : s = run env disk l := hrun.eq_foldl
  have hg : Genuine env (run env disk l : State T) := genuine_run env disk l
  obtain ⟨hal, hst⟩ := stored_run env hT hsized hsize hnd hpre l
  have hverify : ∀ i d, lastWrite (run env disk l : State T).trace i = some (d, .landed) →
      verifyPiece T env.sha1 (fun _ => .good) env.outputDir i (run env disk l : State T).disk =
        true := by
    intro i d hi
    obtain ⟨hlt, hd⟩ := hst i d hi
    rw [verifyPiece_eq_true_iff hT hal env.sha1 hlt, hd]
    exact (hg.written i d .landed (mem_of_lastWrite hi) hlt).2
  refine ⟨fun i d hi => ⟨?_, hverify i d hi⟩, fun hall hlanded => ?_⟩
  · obtain ⟨hlt, hd⟩ := hst i d hi
    rw [readPiece_good hT hal hlt, ← DiskIOManager.stored, hd]
  · rw [allOk, List.all_eq_true]
    intro i hi
    -- the piece was written, and the last write of it got to the disk
    obtain ⟨⟨d, outcome⟩, hlast⟩ :=
      Option.isSome_iff_exists.mp (hg.complete i (hall i (List.mem_range.mp hi)))
    obtain rfl := hlanded i d outcome hlast
    exact hverify i d hlast

/-! ### Two small files -/

/-- The files of `TransferEngine.Torrent.twoBytes`, before anything is written. -/
def twoBytesDisk : Disk :=
  (preallocateFiles (fun _ => .good) (.plain []) Torrent.twoBytes.files fun _ => none).2

theorem preallocateFiles_twoBytes : preallocateFiles (fun _ => .good) (.plain [])
    Torrent.twoBytes.files (fun _ => none) = (none, twoBytesDisk) :=
  Prod.ext (by decide) rfl

theorem layout_twoBytes : Torrent.twoBytes.Layout :=
  layout_of_consecutive (by decide) (by decide) (by decide) (by decide) (by decide) (by decide)

/-- A peer sends both pieces of `TransferEngine.Torrent.twoBytes`, the last one first. -/
def bothPieces : List Input :=
  [.establish 7, .register 7, .message 7 (.bitfieldMsg [0xc0]), .message 7 .unchokeMsg,
    .message 7 (.pieceMsg 1 0 [0x62]), .message 7 (.pieceMsg 0 0 [0x61])]

/-- An environment in which the file `a` never gets a byte, without a word about it. -/
def losesA : Env := { Env.calm with io := fun _ f => if f.path = [0x61] then .lost 0 else .good }

/-- Two files, downloaded. If nothing goes wrong the closing validation is content. If the byte of
`a` is lost, the byte of `b` is there. -/
theorem integrity_run_twoBytes :
    allOk Torrent.twoBytes Env.calm.sha1 (fun _ => .good) (.plain [])
      (run Env.calm twoBytesDisk bothPieces : State Torrent.twoBytes).disk = true ∧
    (run losesA twoBytesDisk bothPieces : State Torrent.twoBytes).pieceManager.hasPiece 0 = true ∧
    readPiece Torrent.twoBytes (fun _ => .good) (.plain []) 0
      (run losesA twoBytesDisk bothPieces : State Torrent.twoBytes).disk = .ok [0] ∧
    readPiece Torrent.twoBytes (fun _ => .good) (.plain []) 1
      (run losesA twoBytesDisk bothPieces : State Torrent.twoBytes).disk = .ok [0x62] := by
  have htrace : (run Env.calm twoBytesDisk bothPieces : State Torrent.twoBytes).trace =
      [.sent 7 (.haveMsg 0), .wrote 0 [0x61] .landed, .pieceCompleted 0 [0x61],
        .sent 7 (.haveMsg 1), .wrote 1 [0x62] .landed, .pieceCompleted 1 [0x62],
        .sent 7 (.requestMsg 1 0 1), .picked 7 1, .sent 7 (.requestMsg 0 0 1), .picked 7 0,
        .sent 7 .interestedMsg] := by
    decide +kernel
  have hlast : ∀ i d outcome, lastWrite (run Env.calm twoBytesDisk bothPieces :
      State Torrent.twoBytes).trace i = some (d, outcome) → outcome = .landed := by
    intro i d outcome hi
    have hmem := mem_of_lastWrite hi
    simp only [htrace, List.mem_cons, Event.wrote.injEq, List.not_mem_nil, reduceCtorEq, or_false,
      false_or] at hmem
    rcases hmem with ⟨-, -, rfl⟩ | ⟨-, -, rfl⟩ <;> rfl
  exact ⟨(integrity_run Env.calm layout_twoBytes Torrent.sized_twoBytes (by decide) (by decide)
      preallocateFiles_twoBytes (reach_of_no_fault (by decide +kernel))).2 (by decide +kernel)
        hlast, by decide +kernel, by decide +kernel,
    ((integrity_run losesA layout_twoBytes Torrent.sized_twoBytes (by decide) (by decide)
      preallocateFiles_twoBytes (reach_of_no_fault (by decide +kernel))).1 1 [0x62]
        (by decide +kernel)).1⟩

end Coordinator

end TransferEngine
