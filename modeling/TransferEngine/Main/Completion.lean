import TransferEngine.Main.Timers

/-!
# What the main program reports

Every second `main` computes from the pieces that are complete how many bytes there are, how many
have come in and how many are left. The lines add up (`TransferEngine.Main.Accounts`): the bytes
never become fewer, what is shown as come in sums up to what is there, and what is left is the rest
of the torrent, so that none of the unsigned differences wraps.

The loop is told to stop for one of two reasons: a stop was requested, or every piece is complete.
Only in the second case, and once, the files are checked and the completion is announced. `run` is
left when the loop was told to stop, and otherwise only because `epoll_wait` failed or a callback
threw (`TransferEngine.Main.completed_once`).
-/

namespace TransferEngine

variable {T : Torrent}

/-- With more pieces there are more bytes. -/
theorem Torrent.Sized.getDownloadedBytes_le (hT : T.Sized) {pm pm' : PieceManager T}
    (h : ∀ i, pm.hasPiece i = true → pm'.hasPiece i = true) :
    pm.getDownloadedBytes ≤ pm'.getDownloadedBytes := by
  have hsum : ((pm.getDownloadedBytes : ℤ)) ≤ pm'.getDownloadedBytes := by
    rw [hT.getDownloadedBytes_eq, hT.getDownloadedBytes_eq]
    refine Finset.sum_le_sum_of_subset_of_nonneg (Finset.monotone_filter_right _ fun i _ => h i)
      fun i hi _ => ?_
    exact (hT.pieceSize_bounds (Finset.mem_range.mp (Finset.mem_filter.mp hi).1)).1.le
  omega

namespace Main

variable {s s' : State T} {env : Env} {a : Input} {top : Timer} {line : Progress}
  {c r now after clock t₁ t₂ : ℤ} {io : FileInfo → ReadOutcome} {l : List Input}

/-- **A line of progress that is right.** -/
structure Progress.Right (T : Torrent) (line : Progress) : Prop where
  /-- What is left is the rest. -/
  total : (line.currentBytes : ℤ) + line.bytesLeft = T.totalLength
  /-- Nothing is left when all pieces are there, and only then. -/
  complete : line.completedPieces = T.count ↔ line.bytesLeft = 0
  /-- The time to go can be told if something has come in. -/
  eta_eq_none : line.eta = none ↔ line.bytesThisSec = 0
  /-- It is what is left at the present speed, in whole seconds. -/
  eta_eq_some : ∀ mins secs, line.eta = some (mins, secs) → secs < 60 ∧
    (mins * 60 + secs) * line.bytesThisSec ≤ line.bytesLeft ∧
    line.bytesLeft < (mins * 60 + secs + 1) * line.bytesThisSec

/-- **The lines of progress add up.** -/
structure Accounts (s : State T) : Prop where
  /-- Each line is right. -/
  right : ∀ line ∈ s.shown, line.Right T
  /-- What came in sums up to what was there last. -/
  sum_eq : (s.shown.map Progress.bytesThisSec).sum = s.lastBytes
  /-- The bytes that were shown are there. -/
  shown_le : ∀ line ∈ s.shown, line.currentBytes ≤ s.lastBytes
  /-- They do not become fewer. -/
  sorted : s.shown.Pairwise fun line earlier => earlier.currentBytes ≤ line.currentBytes
  /-- What was there last is still there. -/
  lastBytes_le : s.lastBytes ≤ s.coordinator.pieceManager.getDownloadedBytes

/-- **How it ends**, if at all. -/
structure Ending (s : State T) (env : Env) : Prop where
  /-- While the loop is running nothing is checked or announced. -/
  running : s.machine.loop.running = true → s.validated = none ∧ s.announced = []
  /-- It stops because a stop was requested, or because every piece is complete; then the files
  are checked, and the completion is announced once. -/
  stopped : s.machine.loop.running = false →
    (s.shutdownRequested = true ∧ s.validated = none ∧ s.announced = []) ∨
    (Complete s ∧ s.announced = [completedArgs T.totalLength.toNat] ∧ ∃ io,
      s.validated = some (Coordinator.allOk T env.sha1 io env.outputDir s.coordinator.disk))

/-! ### One line -/

/-- The time to go, from the other fields of the line. -/
theorem eta_progress (s : State T) : (progress s).eta =
    if 0 < (progress s).bytesThisSec then
      some ((progress s).bytesLeft / (progress s).bytesThisSec / 60,
        (progress s).bytesLeft / (progress s).bytesThisSec % 60)
    else none := rfl

/-- What came in, if there were not more bytes before. -/
theorem bytesThisSec_progress
    (h : s.lastBytes ≤ s.coordinator.pieceManager.getDownloadedBytes) :
    s.lastBytes + (progress s).bytesThisSec =
      s.coordinator.pieceManager.getDownloadedBytes := by
  rw [progress]
  dsimp only
  split <;> omega

/-- **The line that is shown is right.** -/
theorem right_progress (hT : T.Sized) (hclean : s.coordinator.pieceManager.bitfield.Clean) :
    (progress s).Right T := by
  have hle : (s.coordinator.pieceManager.getDownloadedBytes : ℤ) ≤ T.totalLength := by
    rw [hT.getDownloadedBytes_eq]
    exact hT.sum_filter_le _ le_rfl
  have hlt := hT.totalLength_lt
  have hleft : ((progress s).bytesLeft : ℤ) =
      T.totalLength - s.coordinator.pieceManager.getDownloadedBytes := by
    rw [progress, Torrent.u64_of_lt (by omega) (by omega)]
  have hdone := hT.getDownloadedBytes_eq_iff s.coordinator.pieceManager
  refine ⟨?_, ?_, ?_, fun mins secs heta => ?_⟩
  · show (s.coordinator.pieceManager.getDownloadedBytes : ℤ) + (progress s).bytesLeft = _
    omega
  · show s.coordinator.pieceManager.bitfield.count = T.count ↔ _
    rw [count_eq_iff hclean, Complete, ← hdone]
    omega
  · rw [eta_progress]
    split
    case isTrue hpos => simp [hpos.ne']
    case isFalse hzero => simp [Nat.eq_zero_of_not_pos hzero]
  · rw [eta_progress] at heta
    split at heta
    case isFalse => cases heta
    case isTrue hpos =>
      obtain ⟨rfl, rfl⟩ := Prod.mk.inj (Option.some.inj heta)
      -- minutes and seconds are the whole quotient
      rw [Nat.div_add_mod' _ 60]
      exact ⟨Nat.mod_lt _ (by decide), Nat.div_mul_le_self _ _,
        Nat.lt_mul_of_div_lt (Nat.lt_succ_self _) hpos⟩

/-! ### One step -/

/-- Nothing is shown. -/
theorem Accounts.quiet (h : Accounts s) (hshown : s'.shown = s.shown)
    (hlast : s'.lastBytes = s.lastBytes)
    (hle : s.coordinator.pieceManager.getDownloadedBytes ≤
      s'.coordinator.pieceManager.getDownloadedBytes) : Accounts s' where
  right := hshown ▸ h.right
  sum_eq := by rw [hshown, hlast, h.sum_eq]
  shown_le := by
    rw [hshown, hlast]
    exact h.shown_le
  sorted := hshown ▸ h.sorted
  lastBytes_le := by
    rw [hlast]
    exact h.lastBytes_le.trans hle

/-- A line is shown. -/
theorem Accounts.show (h : Accounts s) (hT : T.Sized)
    (hclean : s.coordinator.pieceManager.bitfield.Clean)
    (hshown : s'.shown = progress s :: s.shown)
    (hlast : s'.lastBytes = s.coordinator.pieceManager.getDownloadedBytes)
    (hpm : s'.coordinator = s.coordinator) : Accounts s' where
  right := by
    rw [hshown]
    exact List.forall_mem_cons.mpr ⟨right_progress hT hclean, h.right⟩
  sum_eq := by
    rw [hshown, hlast, List.map_cons, List.sum_cons, h.sum_eq, add_comm,
      bytesThisSec_progress h.lastBytes_le]
  shown_le := by
    rw [hshown, hlast]
    exact List.forall_mem_cons.mpr
      ⟨le_rfl, fun line hmem => (h.shown_le line hmem).trans h.lastBytes_le⟩
  sorted := by
    rw [hshown]
    exact List.pairwise_cons.mpr
      ⟨fun line hmem => (h.shown_le line hmem).trans h.lastBytes_le, h.sorted⟩
  lastBytes_le := by rw [hlast, hpm]

/-- A pass of the draining loop that shows nothing. -/
def Mute (s s' : State T) : Prop :=
  s'.shown = s.shown ∧ s'.lastBytes = s.lastBytes ∧ s'.validated = s.validated ∧
    s'.announced = s.announced ∧ (s'.machine.loop.running = true ∨ s.shutdownRequested = true)

/-- A pass that shows a line, and ends the program if the download is complete. -/
def Shows (env : Env) (s s' : State T) : Prop :=
  s'.shown = progress s :: s.shown ∧
    s'.lastBytes = s.coordinator.pieceManager.getDownloadedBytes ∧
    ((Complete s ∧ s'.machine.loop.running = false ∧
        s'.announced = completedArgs s.coordinator.pieceManager.getDownloadedBytes :: s.announced ∧
        ∃ io, s'.validated =
          some (Coordinator.allOk T env.sha1 io env.outputDir s.coordinator.disk)) ∨
      (s'.machine.loop.running = true ∧ s'.validated = s.validated ∧ s'.announced = s.announced))

/-- **What a pass of the draining loop shows.** -/
theorem Inv.drain_shows (h : Inv s c r) (env : Env) (io : FileInfo → ReadOutcome)
    (he : EventLoop.Enabled s.machine (.drain top)) :
    Mute s (Main.step env s (.drain top io)) ∨ Shows env s (Main.step env s (.drain top io)) := by
  rcases h.drain_cases he with ⟨t, -, -, hstep⟩ | ⟨other, hcalled, -, hroles⟩
  · rw [step_drain_wait hstep]
    exact Or.inl ⟨rfl, rfl, rfl, rfl, Or.inl he.2.1⟩
  · have hrun : (s.machine.step (.drain top)).loop.running = true := hcalled.running
    rcases hroles with ⟨htop, -⟩ | ⟨htop, -⟩
    · refine Or.inl ?_
      rw [step_drain hcalled.place htop, call, checkShutdown]
      split
      case isTrue hreq => exact ⟨rfl, rfl, rfl, rfl, Or.inr hreq⟩
      case isFalse => exact ⟨rfl, rfl, rfl, rfl, Or.inl hrun⟩
    · refine Or.inr ?_
      rw [step_drain hcalled.place htop, call, renderProgress]
      dsimp only
      split
      case isTrue hcount =>
        exact ⟨rfl, rfl, Or.inl ⟨(count_eq_iff h.clean).mp hcount, rfl, rfl, io, rfl⟩⟩
      case isFalse => exact ⟨rfl, rfl, Or.inr ⟨hrun, rfl, rfl⟩⟩

/-- The end of a callback shows nothing. -/
theorem mute_step_returns (env : Env) (s : State T) (now after : ℤ) :
    (Main.step env s (.returns now after)).shown = s.shown ∧
      (Main.step env s (.returns now after)).lastBytes = s.lastBytes ∧
      (Main.step env s (.returns now after)).validated = s.validated ∧
      (Main.step env s (.returns now after)).announced = s.announced := by
  rw [Main.step, rearm]
  cases s.rearming <;> exact ⟨rfl, rfl, rfl, rfl⟩

theorem Accounts.step (h : Accounts s) (hI : Inv s c r) (hT : T.Sized) (ha : Allowed env s a) :
    Accounts (Main.step env s a) := by
  cases a with
  | event a =>
    exact h.quiet rfl rfl (hT.getDownloadedBytes_le fun i hi =>
      Coordinator.hasPiece_step_of_hasPiece env a hi)
  | drain top io =>
    have hcoord := (step_drain_eq env s top io).1
    rcases hI.drain_shows env io ha with ⟨hshown, hlast, -⟩ | ⟨hshown, hlast, -⟩
    · exact h.quiet hshown hlast (by rw [hcoord])
    · exact h.show hT hI.clean hshown hlast hcoord
  | returns now after =>
    obtain ⟨hshown, hlast, -⟩ := mute_step_returns env s now after
    exact h.quiet hshown hlast (by rw [(step_returns_eq env s now after).1])
  | _ => exact h.quiet rfl rfl le_rfl

/-- What happens outside the draining loop neither ends the program nor goes on after its end. -/
theorem Ending.quiet (h : Ending s env)
    (hrun : s'.machine.loop.running = s.machine.loop.running)
    (hreq : s.shutdownRequested = true → s'.shutdownRequested = true)
    (hcoord : s'.coordinator = s.coordinator) (hvalidated : s'.validated = s.validated)
    (hannounced : s'.announced = s.announced) : Ending s' env where
  running := fun hr => by
    rw [hvalidated, hannounced]
    exact h.running (hrun ▸ hr)
  stopped := fun hr => by
    rw [hvalidated, hannounced, Complete, hcoord]
    exact (h.stopped (hrun ▸ hr)).imp_left fun hs => ⟨hreq hs.1, hs.2⟩

theorem Ending.step (h : Ending s env) (hI : Inv s c r) (hT : T.Sized) (ha : Allowed env s a) :
    Ending (Main.step env s a) env := by
  cases a with
  | sigint => exact h.quiet rfl (fun _ => rfl) rfl rfl rfl
  | event a =>
    have hrun := hI.running_of_inEvents ha.1
    exact ⟨fun _ => h.running hrun, fun hno => absurd (hrun.symm.trans hno) (by decide)⟩
  | drain top io =>
    obtain ⟨hcoord, hreq⟩ := step_drain_eq env s top io
    obtain ⟨hnone, hnil⟩ := h.running ha.2.1
    rcases hI.drain_shows env io ha with ⟨-, -, hvalidated, hannounced, hwhy⟩ |
      ⟨-, -, ⟨hall, hstop, hannounced, hvalidated⟩ | ⟨hrun, hvalidated, hannounced⟩⟩
    · rw [hnone] at hvalidated
      rw [hnil] at hannounced
      exact ⟨fun _ => ⟨hvalidated, hannounced⟩, fun hno => Or.inl
        ⟨hreq.trans (hwhy.resolve_left (by simp [hno])), hvalidated, hannounced⟩⟩
    · refine ⟨fun hrun => absurd (hrun.symm.trans hstop) (by decide), fun _ => Or.inr ⟨?_, ?_, ?_⟩⟩
      · rw [Complete, hcoord]
        exact hall
      · have htotal := (hT.getDownloadedBytes_eq_iff s.coordinator.pieceManager).mpr hall
        rw [hannounced, hnil, ← htotal, Int.toNat_natCast]
      · rwa [hcoord]
    · rw [hnone] at hvalidated
      rw [hnil] at hannounced
      exact ⟨fun _ => ⟨hvalidated, hannounced⟩,
        fun hno => absurd (hrun.symm.trans hno) (by decide)⟩
  | returns now after =>
    obtain ⟨-, -, hvalidated, hannounced⟩ := mute_step_returns env s now after
    obtain ⟨hcoord, hreq, hrun, -⟩ := step_returns_eq env s now after
    exact h.quiet hrun hreq.trans hcoord hvalidated hannounced
  | enter now =>
    refine h.quiet ?_ id rfl rfl rfl
    rw [Main.step, EventLoop.Machine.step]
    split <;> rfl
  | epollWait answer => cases answer <;> exact h.quiet rfl id rfl rfl rfl
  | drained => exact h.quiet rfl id rfl rfl rfl
  | dispatched => exact h.quiet rfl id rfl rfl rfl
  | throws => exact h.quiet rfl id rfl rfl rfl

/-- What is reported is right at every time of a run. -/
theorem accounts_ending_run (hT : T.Sized) {disk : Disk} (ht : Readings clock t₁ t₂)
    (hr : Runs.Reach (step env) (Allowed env) (start T disk clock t₁ t₂) l s) :
    Accounts s ∧ Ending s env := by
  have hall : Inv s s.machine.clock s.machine.clock ∧ Accounts s ∧ Ending s env := by
    refine hr.invariant (I := fun s => Inv s s.machine.clock s.machine.clock ∧ Accounts s ∧
      Ending s env) ⟨inv_start disk ht, ?_, ?_⟩ ?_
    · exact ⟨by simp [start, registerTimer], rfl, by simp [start, registerTimer],
        List.Pairwise.nil, Nat.zero_le _⟩
    · exact ⟨fun _ => ⟨rfl, rfl⟩, fun hno => by simp [start, EventLoop.Machine.step] at hno⟩
    · rintro s a ⟨hI, hA, hE⟩ ha
      have hle := hI.clock_le ha
      exact ⟨hI.step ha hle hle le_rfl (Or.inr le_rfl) (Or.inr le_rfl), hA.step hI hT ha,
        hE.step hI hT ha⟩
  exact hall.2

/-- Either nothing is checked or announced, or every piece is complete and the files are checked. -/
theorem Ending.quiet_or_checked (h : Ending s env) :
    (s.validated = none ∧ s.announced = []) ∨
      (Complete s ∧ ∃ io, s.validated =
        some (Coordinator.allOk T env.sha1 io env.outputDir s.coordinator.disk)) := by
  cases hrun : s.machine.loop.running with
  | true => exact Or.inl (h.running hrun)
  | false =>
    rcases h.stopped hrun with ⟨-, hquiet⟩ | ⟨hall, -, hvalidated⟩
    · exact Or.inl hquiet
    · exact Or.inr ⟨hall, hvalidated⟩

/-- Two pieces, which come in before the first second is over. -/
def bothPiecesInputs : List Input :=
  [.enter 0, .drain ⟨1, 250000000⟩ fun _ => .good, .epollWait .events] ++
  Coordinator.bothPieces.map .event ++
  [.dispatched, .enter 1000000000, .drain ⟨1, 250000000⟩ fun _ => .good,
    .returns 1000000000 1000000000, .drain ⟨2, 1000000000⟩ fun _ => .good,
    .returns 1000000000 1000000000, .drained]

theorem reach_bothPiecesInputs :
    Runs.Reach (step Env.calm) (Allowed Env.calm)
      (start Torrent.twoBytes Coordinator.twoBytesDisk 0 0 0) bothPiecesInputs
      (bothPiecesInputs.foldl (step Env.calm)
        (start Torrent.twoBytes Coordinator.twoBytesDisk 0 0 0)) := by
  refine Runs.reach_iff.mpr ⟨rfl, ?_⟩
  simp only [bothPiecesInputs, Coordinator.bothPieces, List.map_cons, List.map_nil,
    List.cons_append, List.nil_append, Runs.throughout_cons]
  have hlate : (0 : ℤ) ≤ 1000000000 := by decide
  refine ⟨⟨rfl, le_rfl⟩, ⟨⟨0, rfl⟩, rfl, ?_⟩, ⟨⟨250, rfl⟩, trivial⟩,
    ⟨rfl, ?_⟩, ⟨rfl, ?_⟩, ⟨rfl, ?_⟩, ⟨rfl, ?_⟩, ⟨rfl, ?_⟩, ⟨rfl, ?_⟩, ⟨rfl, trivial⟩, ⟨rfl, hlate⟩,
    ⟨⟨1000000000, rfl⟩, rfl, ?_⟩, ⟨rfl, le_rfl, le_rfl, by decide, by decide⟩,
    ⟨⟨1000000000, rfl⟩, rfl, ?_⟩, ⟨rfl, le_rfl, le_rfl, by decide, by decide⟩,
    ⟨⟨⟨1000000000, rfl⟩, Or.inr ?_⟩, trivial⟩, Runs.throughout_nil _⟩
  all_goals decide +kernel

end Main

end TransferEngine
