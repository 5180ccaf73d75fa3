import TransferEngine.Coordinator.Moves

/-!
# Completed pieces on disk

A piece that passed its check is handed to the callback `on_piece_completed`, which writes
it to disk; then it is counted as complete and announced. The callback catches every
exception of the write and returns as if nothing had happened, so a write that fails leaves
a piece that is complete, announced, and not on disk
(`TransferEngine.Coordinator.not_stepDurable_unopened`). A write that does not throw is not enough
either, since it may have lost its bytes all the same.

As long as every write gets to the disk, a complete piece is a written one
(`TransferEngine.Coordinator.durable_of_writesLand`).
-/

namespace TransferEngine

/-- A write of piece `i`: its bytes, and what became of it. -/
def Event.write? (i : ℕ) : Event → Option (List UInt8 × WriteOutcome)
  | .wrote j d outcome => if j = i then some (d, outcome) else none
  | _ => none

/-- The last write of piece `i`. -/
def lastWrite (tr : List Event) (i : ℕ) : Option (List UInt8 × WriteOutcome) :=
  tr.findSome? (·.write? i)

theorem Event.Follows.write?_eq {e : Event} {tr : List Event} (h : e.Follows tr) (i : ℕ) :
    e.write? i = none := by
  cases e with
  | wrote => exact h.elim
  | _ => rfl

theorem lastWrite_cons {e : Event} {i : ℕ} (h : e.write? i = none) (tr : List Event) :
    lastWrite (e :: tr) i = lastWrite tr i := by
  rw [lastWrite, List.findSome?_cons, h, lastWrite]

namespace Coordinator

variable {T : Torrent} {s s' : State T} {env : Env} {a : Input} {i : ℕ}

/-- **After the step, what is complete is on disk.** Every complete piece was last written
with bytes of the right digest, and that write returned with every byte in its file; and if a write
threw in this step, its piece is not complete and was not announced. -/
def StepDurable (env : Env) (s : State T) (a : Input) : Prop :=
  (∀ i, (step env s a).pieceManager.hasPiece i = true →
    ∃ d, lastWrite (step env s a).trace i = some (d, .landed) ∧
      T.pieceHashes[i]? = some (env.sha1 d)) ∧
  ∀ new, (step env s a).trace = new ++ s.trace → ∀ i d, .wrote i d .threw ∈ new →
    (step env s a).pieceManager.hasPiece i = false ∧
      ∀ p, .sent p (.haveMsg (.ofNat i)) ∉ new

/-- **The write gets to the disk**: if the block completes a piece that passes its check, each
file that the piece lies in can be opened and takes its part of the piece. -/
def WriteLands (env : Env) (s : State T) (a : Input) : Prop :=
  ∀ p idx c x state pm, a = .message p (.pieceMsg idx c x) →
    (s.connections p).state = .active → s.peers.lookup p = some state →
    s.pieceManager.blockReceived idx.toNat c.toNat x = (true, pm) →
    pm.validatePiece env.sha1 (env.garbage idx.toNat) idx.toNat = true →
    DiskIOManager.writeOutcome T
      (env.io (.pieceCompleted idx.toNat (pm.getPieceData idx.toNat) ::
        (hashFault T idx.toNat ++ s.trace)))
      env.outputDir idx.toNat (pm.getPieceData idx.toNat) s.disk = .landed

/-! ### The invariant -/

/-- What is complete is on disk, and every write got there. -/
structure Durable (env : Env) (s : State T) : Prop where
  /-- The entries of the piece manager are sound. -/
  ok : s.pieceManager.Ok
  /-- A complete piece was last written in full. -/
  written : ∀ i, s.pieceManager.hasPiece i = true →
    ∃ d, lastWrite s.trace i = some (d, .landed) ∧ T.pieceHashes[i]? = some (env.sha1 d)
  /-- Every write got to the disk. -/
  landed : ∀ i d outcome, .wrote i d outcome ∈ s.trace → outcome = .landed

theorem durable_init (disk : Disk) : Durable env (.init T disk) where
  ok := PieceManager.ok_init
  written := fun i h => by simp [State.init, PieceManager.init, PieceManager.hasPiece] at h
  landed := fun _ _ _ h => nomatch h

theorem Durable.of_trace_eq (h : Durable env s) (hok : s'.pieceManager.Ok)
    (hhas : ∀ i, s'.pieceManager.hasPiece i = s.pieceManager.hasPiece i)
    (htr : s'.trace = s.trace) : Durable env s' where
  ok := hok
  written := by
    intro i hi
    rw [htr]
    exact h.written i (hhas i ▸ hi)
  landed := htr ▸ h.landed

/-- Recording an event that is not a write. -/
theorem Durable.of_cons {e : Event} (h : Durable env s) (hok : s'.pieceManager.Ok)
    (hhas : ∀ i, s'.pieceManager.hasPiece i = s.pieceManager.hasPiece i)
    (htr : s'.trace = e :: s.trace) (he : ∀ i, e.write? i = none) : Durable env s' where
  ok := hok
  written := by
    intro i hi
    rw [htr, lastWrite_cons (he i)]
    exact h.written i (hhas i ▸ hi)
  landed := by
    intro i d outcome hmem
    rw [htr, List.mem_cons] at hmem
    rcases hmem with rfl | hmem
    · have hnone := he i
      simp [Event.write?] at hnone
    · exact h.landed i d outcome hmem

theorem Durable.move (h : Durable env s) (hm : Move s s') : Durable env s' := by
  rcases hm.trace_cases with htr | ⟨e, he, htr⟩
  · exact h.of_trace_eq (hm.ok h.ok) (fun _ => hm.hasPiece_eq) htr
  · exact h.of_cons (hm.ok h.ok) (fun _ => hm.hasPiece_eq) htr he.write?_eq

theorem Durable.hashFault (h : Durable env s) (i : ℕ) :
    Durable env { s with trace := hashFault T i ++ s.trace } := by
  rw [Coordinator.hashFault]
  split
  case isTrue => exact h
  case isFalse => exact h.of_cons h.ok (fun _ => rfl) rfl (fun _ => rfl)

/-- A piece is written in full and its bit set. -/
theorem Durable.complete {d : List UInt8} (h : Durable env s) (hok : s'.pieceManager.Ok)
    (hhas : ∀ j, s'.pieceManager.hasPiece j = true ↔
      (i = j ∧ i < T.count) ∨ s.pieceManager.hasPiece j = true)
    (hd : i < T.count → T.pieceHashes[i]? = some (env.sha1 d))
    (hi : s.pieceManager.hasPiece i = false)
    (htr : s'.trace = .wrote i d .landed :: s.trace) : Durable env s' where
  ok := hok
  written := by
    intro j hj
    rw [htr]
    by_cases hij : i = j
    · subst hij
      rcases (hhas i).mp hj with ⟨-, hlt⟩ | hhad
      · refine ⟨d, ?_, hd hlt⟩
        rw [lastWrite, List.findSome?_cons, Event.write?, if_pos rfl]
      · rw [hi] at hhad
        cases hhad
    · rw [lastWrite_cons (by rw [Event.write?, if_neg hij])]
      exact h.written j (((hhas j).mp hj).resolve_left fun hc => hij hc.1)
  landed := by
    intro j d' outcome hmem
    rw [htr, List.mem_cons] at hmem
    rcases hmem with heq | hmem
    · cases heq
      rfl
    · exact h.landed j d' outcome hmem

theorem Durable.head (h : Durable env s) (ha : WriteLands env s a) (hh : Head env s a s') :
    Durable env s' := by
  have hok := hh.ok h.ok
  rcases hh.trace_cases with ⟨hhas, htr⟩ | ⟨p, idx, c, x, state, pm, -, -, -, -, -, hhas, htr⟩ |
    ⟨p, idx, c, x, state, pm, tr, outcome, he, hact, hp, hb, hv, hhas, htr, hret, htr'⟩
  · exact h.of_trace_eq hok hhas htr
  · exact (h.hashFault idx.toNat).of_cons hok hhas htr (fun _ => rfl)
  · have hland := ha p idx c x state pm he hact hp hb hv
    rw [htr, hland] at hret
    subst hret
    -- the callback is recorded, then the write
    have hmid : Durable env { s with trace := tr } :=
      (h.hashFault idx.toNat).of_cons h.ok (fun _ => rfl) htr (fun _ => rfl)
    exact hmid.complete hok hhas (fun hlt => (PieceManager.of_validatePiece h.ok hb hv hlt).2)
      (PieceManager.of_blockReceived_true h.ok hb).1 htr'

theorem Durable.step (h : Durable env s) (ha : WriteLands env s a) :
    Durable env (step env s a) :=
  Runs.preserved_chain (moves_step env s a) (fun _ _ hs hm => hs.move hm)
    (h.head ha (head_spec env s a))

/-! ### Runs -/

/-- **A completed piece is on disk**, at every step of a run in which every write gets to the
disk and every step is defined. -/
theorem durable_of_writesLand (env : Env) (disk : Disk) (l : List Input)
    (hl : Runs.Throughout (step env) (.init T disk) l fun s a =>
      WriteLands env s a ∧ Defined env s a) :
    Runs.Throughout (step env) (.init T disk) l (StepDurable env) := by
  induction l using List.reverseRecOn with
  | nil => exact Runs.throughout_nil _
  | append_singleton l a ih =>
    obtain ⟨hl, ha⟩ := Runs.throughout_snoc.mp hl
    have h : Durable env (l.foldl (Coordinator.step env) (.init T disk)) :=
      (Runs.reach_iff.mpr ⟨rfl, hl⟩).invariant (durable_init disk) fun _ _ hs ha => hs.step ha.1
    have hstep := h.step ha.1
    refine Runs.throughout_snoc.mpr ⟨ih hl, hstep.written, fun new htr i d hmem => ?_⟩
    exact absurd (hstep.landed i d .threw (htr ▸ List.mem_append_left _ hmem)) (by simp)

/-- The smallest torrent, downloaded. -/
theorem durable_of_writesLand_oneByte :
    Runs.Throughout (step Env.calm) (.init Torrent.oneByte Disk.oneByte)
        (arrival 7 ++ [.message 7 (.pieceMsg 0 0 [0x61])]) (StepDurable Env.calm) ∧
      (run Env.calm Disk.oneByte (arrival 7 ++ [.message 7 (.pieceMsg 0 0 [0x61])]) :
        State Torrent.oneByte).pieceManager.hasPiece 0 = true := by
  refine ⟨durable_of_writesLand _ _ _ (Runs.throughout_snoc.mpr ⟨?_, ?_, by decide⟩), by decide⟩
  · -- until the block comes in, nothing is written
    simp only [arrival, Runs.throughout_cons, Runs.throughout_nil, and_true]
    refine ⟨⟨?_, by decide⟩, ⟨?_, by decide⟩, ⟨?_, by decide⟩, ?_, by decide⟩ <;>
      · rintro p idx c x state pm ⟨⟩
  · rintro p idx c x state pm ⟨⟩ - - hb -
    obtain rfl := (congrArg Prod.snd hb).symm
    decide

/-- **The file cannot be opened.** The piece is complete although its write threw. -/
theorem not_stepDurable_unopened :
    ¬Runs.Throughout (step { Env.calm with io := fun _ _ => .openFails })
      (.init Torrent.oneByte Disk.oneByte) (arrival 7 ++ [.message 7 (.pieceMsg 0 0 [0x61])])
      (StepDurable { Env.calm with io := fun _ _ => .openFails }) := by
  intro h
  obtain ⟨-, hlast⟩ := Runs.throughout_snoc.mp h
  obtain ⟨d, hd, -⟩ := hlast.1 0 (by decide)
  have hthrew : lastWrite (run { Env.calm with io := fun _ _ => .openFails } Disk.oneByte
      (arrival 7 ++ [.message 7 (.pieceMsg 0 0 [0x61])]) : State Torrent.oneByte).trace 0 =
      some ([0x61], .threw) := by decide
  cases hthrew.symm.trans hd

end Coordinator

end TransferEngine
