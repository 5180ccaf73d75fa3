import TransferEngine.Lib.Runs
import TransferEngine.PieceManager.Operations

/-!
# The received-block counter

`block_received` decides that a piece is complete by comparing a counter with the
number of blocks. It marks the block received *before* it looks at the size of the
bytes and counts it *after*, so bytes that run past the end of the piece leave a block
that is received and not counted: from then on the counter can never reach the number
of blocks, and the block is never asked for again.

This file says exactly when that happens. A run is any sequence of operations on the
pieces of the torrent, watched by a monitor (`TransferEngine.PieceManager.Monitored`) that
remembers which pieces `block_received` has reported complete since they were last
completed or failed. A step is sound (`TransferEngine.PieceManager.StepSound`) if after it
every counter is exact, a completion was reported exactly when every block is received,
and no fully received piece is left unreported.

**A run is sound at every step exactly when every step fits**
(`TransferEngine.PieceManager.throughout_stepSound_iff`), where an operation fits
(`TransferEngine.PieceManager.Fits`) unless it delivers too many bytes to a block it is
going to mark, or is the first to touch a piece of length zero without delivering
anything.
-/

namespace TransferEngine

namespace PieceManager

variable {T : Torrent}

/-! ### Runs of the piece manager -/

/-- The operations a caller can perform. -/
inductive Op
  | getNextBlock (pieceIdx : ℕ)
  | blockReceived (pieceIdx begin : ℕ) (blockData : List UInt8)
  | blockRequestFailed (pieceIdx begin : ℕ)
  | pieceCompleted (pieceIdx : ℕ)
  | pieceFailed (pieceIdx : ℕ)

/-- The piece an operation is about. -/
def Op.piece : Op → ℕ
  | .getNextBlock i => i
  | .blockReceived i _ _ => i
  | .blockRequestFailed i _ => i
  | .pieceCompleted i => i
  | .pieceFailed i => i

/-- A piece manager with the pieces it has reported complete since they were last
completed or failed. -/
structure Monitored (T : Torrent) where
  /-- The manager. -/
  pm : PieceManager T
  /-- The pieces reported complete. -/
  reported : ℕ → Bool

/-- Nothing downloaded, nothing reported. -/
def Monitored.init (T : Torrent) : Monitored T where
  pm := PieceManager.init T
  reported := fun _ => false

/-- One operation, and what the monitor makes of its answer. -/
def Monitored.step (m : Monitored T) : Op → Monitored T
  | .getNextBlock i => { m with pm := (m.pm.getNextBlock i).2 }
  | .blockReceived i c x =>
    { pm := (m.pm.blockReceived i c x).2
      reported := if (m.pm.blockReceived i c x).1 then Function.update m.reported i true
        else m.reported }
  | .blockRequestFailed i c => { m with pm := m.pm.blockRequestFailed i c }
  | .pieceCompleted i =>
    { pm := m.pm.pieceCompleted i, reported := Function.update m.reported i false }
  | .pieceFailed i =>
    { pm := m.pm.pieceFailed i, reported := Function.update m.reported i false }

/-! ### What is claimed of a step -/

/-- Every counter is the number of received blocks. -/
def CountExact (pm : PieceManager T) : Prop :=
  ∀ i st, pm.inProgress i = some st →
    st.blocksReceived = st.blocks.countP (·.state == .received)

/-- Every block of the piece is received. -/
def FullyReceived (pm : PieceManager T) (i : ℕ) : Prop :=
  ∃ st, pm.inProgress i = some st ∧ ∀ b ∈ st.blocks, b.state = .received

/-- No piece is fully received without having been reported. -/
def Monitored.NotStuck (m : Monitored T) : Prop :=
  ∀ i, m.pm.FullyReceived i → m.reported i = true

/-- **A sound step**: the counters are exact after it, `block_received` reports a piece
it did not have yet exactly when all its blocks are received, and no piece is stuck. -/
def StepSound (m : Monitored T) (op : Op) : Prop :=
  CountExact (m.step op).pm ∧
    (∀ i c x, op = .blockReceived i c x → m.pm.hasPiece i = false →
      ((m.pm.blockReceived i c x).1 = true ↔ (m.step op).pm.FullyReceived i)) ∧
    (m.step op).NotStuck

/-- **An operation fits.** Bytes for a block that is going to be marked do not run past
the end of the piece, and `get_next_block` is not the first to touch an unfinished
piece of length zero. -/
def Fits (m : Monitored T) : Op → Prop
  | .blockReceived i c x => m.pm.hasPiece i = true ∨ c ∉ (freshBlocks T i).map Block.begin ∨
      m.pm.blockState i c = some .received ∨ c + x.length ≤ T.getPieceLength i
  | .getNextBlock i => m.pm.hasPiece i = true ∨ m.pm.isInProgress i = true ∨
      T.getPieceLength i ≠ 0
  | _ => True

/-! ### Invariants that need no promise -/

/-- Entries are sound, and only a piece in progress is reported. -/
structure Monitored.Inv (m : Monitored T) : Prop where
  /-- Every entry is sound. -/
  ok : m.pm.Ok
  /-- A reported piece has an entry. -/
  started : ∀ i, m.reported i = true → (m.pm.inProgress i).isSome

theorem Monitored.inv_init : (Monitored.init T).Inv where
  ok := ok_init
  started := fun _ h => nomatch h

/-- A piece whose entry goes is not reported any more. -/
theorem Monitored.Inv.started_of_erased {m : Monitored T} {pm' : PieceManager T} {i : ℕ} (h : m.Inv)
    (he : ∀ j, pm'.inProgress j = if j = i then none else m.pm.inProgress j) (j : ℕ)
    (hj : Function.update m.reported i false j = true) : (pm'.inProgress j).isSome := by
  have hne : j ≠ i := by
    rintro rfl
    rw [Function.update_self] at hj
    cases hj
  rw [Function.update_of_ne hne] at hj
  rw [he, if_neg hne]
  exact h.started j hj

theorem Monitored.Inv.step {m : Monitored T} (h : m.Inv) (op : Op) : (m.step op).Inv := by
  cases op with
  | getNextBlock i =>
    refine ⟨h.ok.getNextBlock, fun j hj => ?_⟩
    have hs := h.started j hj
    rcases hg : m.pm.getNextBlock i with ⟨_ | b, pm'⟩
    · rcases getNextBlock_none h.ok hg with ⟨-, rfl⟩ | ⟨-, rfl, -⟩
      · simpa [Monitored.step, hg] using hs
      · simp only [Monitored.step, hg, inProgress_put]
        split <;> simp_all
    · obtain ⟨-, -, -, -, -, st', rfl, -⟩ := getNextBlock_some h.ok hg
      simp only [Monitored.step, hg, inProgress_put]
      split <;> simp_all
  | blockReceived i c x =>
    refine ⟨h.ok.blockReceived, fun j hj => ?_⟩
    rcases hp : m.pm.hasPiece i with _ | _
    · rw [Monitored.step, blockReceived_eq h.ok hp, inProgress_put]
      split
      case isTrue => rfl
      case isFalse hne =>
        -- only the piece of the block can be newly reported
        refine h.started j ?_
        simp only [Monitored.step] at hj
        split at hj
        · rwa [Function.update_of_ne hne] at hj
        · exact hj
    · simp only [Monitored.step, blockReceived_of_hasPiece hp] at hj ⊢
      exact h.started j hj
  | blockRequestFailed i c =>
    exact ⟨h.ok.blockRequestFailed, fun j hj => (isSome_blockRequestFailed h.ok).trans
      (h.started j hj)⟩
  | pieceCompleted i =>
    exact ⟨h.ok.pieceCompleted, h.started_of_erased fun j => inProgress_pieceCompleted⟩
  | pieceFailed i => exact ⟨h.ok.pieceFailed, h.started_of_erased fun j => inProgress_pieceFailed⟩

/-! ### Exact counters -/

section Exact

variable {pm : PieceManager T} {i j c : ℕ} {st : PieceState} {x : List UInt8}

theorem CountExact.put (h : CountExact pm)
    (hst : st.blocksReceived = st.blocks.countP (·.state == .received)) :
    CountExact (pm.put i st) := by
  intro j st' hj
  rw [inProgress_put] at hj
  split at hj
  case isTrue =>
    cases hj
    exact hst
  case isFalse => exact h j st' hj

theorem CountExact.of_erased {pm' : PieceManager T} (h : CountExact pm)
    (he : ∀ j, pm'.inProgress j = if j = i then none else pm.inProgress j) :
    CountExact pm' := by
  intro j st' hj
  rw [he] at hj
  split at hj
  case isTrue => cases hj
  case isFalse => exact h j st' hj

/-- A fresh entry has received nothing. -/
theorem count_freshState : (freshState T i).blocksReceived =
    (freshState T i).blocks.countP (·.state == .received) := by
  symm
  rw [freshState, List.countP_eq_zero]
  intro b hb
  simp [(of_mem_freshBlocks hb).2.2.2.2]

/-- Moving a block between pending and requested keeps the counter exact. -/
theorem count_marks {σ : BlockState} {st' : PieceState} (hm : PieceState.Marks T i st st' c σ)
    (hst : st.blocksReceived = st.blocks.countP (·.state == .received)) :
    st'.blocksReceived = st'.blocks.countP (·.state == .received) := by
  rw [hm.blocksReceived, hm.countP, hst]

/-- Storing a block keeps the counter exact, unless it is marked and its bytes do not fit. -/
theorem count_storeBlock (hst : st.blocksReceived = st.blocks.countP (·.state == .received))
    (hfit : ∀ b, st.blocks.find? (·.begin == c) = some b → b.state ≠ .received →
      c + x.length ≤ st.data.length) :
    (st.storeBlock c x).blocksReceived =
      (st.storeBlock c x).blocks.countP (·.state == .received) := by
  rcases PieceState.storeBlock_cases st c x with
    ⟨hs, -⟩ | ⟨⟨b, hb, hne⟩, hbl, -, -, ⟨-, -, hr⟩ | ⟨hlt, -, -⟩⟩
  · rw [hs, hst]
  · rw [hbl, PieceState.countP_mark hb hne, if_pos rfl, hr, hst]
  · exact absurd (hfit b hb hne) (Nat.not_le.mpr hlt)

/-- Touching a piece keeps the counters exact. -/
theorem CountExact.touched (h : CountExact pm) (i : ℕ) :
    (pm.touched i).blocksReceived = (pm.touched i).blocks.countP (·.state == .received) := by
  rcases hi : pm.inProgress i with _ | st
  · rw [touched_of_none hi]
    exact count_freshState
  · rw [touched_of_inProgress hi]
    exact h i st hi

theorem fullyReceived_put : (pm.put i st).FullyReceived j ↔
    if j = i then ∀ b ∈ st.blocks, b.state = .received else pm.FullyReceived j := by
  rw [FullyReceived, inProgress_put]
  split
  case isTrue => simp
  case isFalse => rfl

/-- A block in another state keeps its piece from being fully received. -/
theorem not_fullyReceived_of_stateAt {σ : BlockState} (hσ : σ ≠ .received)
    (hs : st.stateAt c = some σ) : ¬∀ b ∈ st.blocks, b.state = .received := by
  obtain ⟨b, hb, -, rfl⟩ := PieceState.exists_of_stateAt hs
  exact fun h => hσ (h b hb)

/-- An exact counter is full exactly when every block is received. -/
theorem full_iff (h : st.blocksReceived = st.blocks.countP (·.state == .received)) :
    (st.blocksReceived == st.blocks.length) = true ↔ ∀ b ∈ st.blocks, b.state = .received := by
  rw [beq_iff_eq, h, List.countP_eq_length]
  simp

end Exact

/-! ### A step that fits is sound -/

section Sound

variable {m : Monitored T} {op : Op} {i c : ℕ} {x : List UInt8}

/-- The entry stays exact when the bytes fit. -/
theorem storeBlock_exact (h : m.Inv) (hc : CountExact m.pm) (hp : m.pm.hasPiece i = false)
    (hf : Fits m (.blockReceived i c x)) :
    ((m.pm.touched i).storeBlock c x).blocksReceived =
      ((m.pm.touched i).storeBlock c x).blocks.countP (·.state == .received) := by
  have hok := h.ok.touched i
  refine count_storeBlock (hc.touched i) fun b hb hne => ?_
  have hmem := List.mem_of_find?_eq_some hb
  have hcb : b.begin = c := by simpa using List.find?_some hb
  rcases hf with hhas | hnot | hrec | hle
  · rw [hp] at hhas
    cases hhas
  · obtain ⟨b₀, hb₀, hsp⟩ := hok.exists_fresh hmem
    have hbeg : b₀.begin = c := (congrArg (fun y : ℕ × ℕ × ℕ => y.2.1) hsp).trans hcb
    exact absurd (List.mem_map.mpr ⟨b₀, hb₀, hbeg⟩) hnot
  · have hst := stateAt_touched_of_blockState hrec
    rw [← hcb, hok.stateAt_begin hmem] at hst
    exact absurd (Option.some.inj hst) hne
  · rwa [hok.data_length]

/-- **A piece with a new entry.** No piece is stuck if this one is not. -/
theorem Monitored.NotStuck.put {st : PieceState} (hn : m.NotStuck)
    (hst : (∀ b ∈ st.blocks, b.state = .received) → m.reported i = true) :
    Monitored.NotStuck { m with pm := m.pm.put i st } := by
  intro j hj
  rw [fullyReceived_put] at hj
  split at hj
  case isTrue hji =>
    subst hji
    exact hst hj
  case isFalse => exact hn j hj

/-- **A piece whose entry goes** is not stuck. -/
theorem Monitored.NotStuck.erased {pm' : PieceManager T} (hn : m.NotStuck)
    (he : ∀ j, pm'.inProgress j = if j = i then none else m.pm.inProgress j) :
    Monitored.NotStuck ⟨pm', Function.update m.reported i false⟩ := by
  rintro j ⟨st, hj, hall⟩
  rw [he] at hj
  split at hj
  case isTrue => cases hj
  case isFalse hji => exact (Function.update_of_ne hji _ _).trans (hn j ⟨st, hj, hall⟩)

/-- For an operation that delivers nothing, soundness is about the state it leaves. -/
theorem stepSound_of_ne (hop : ∀ i c x, op ≠ .blockReceived i c x)
    (hc : CountExact (m.step op).pm) (hn : (m.step op).NotStuck) : StepSound m op :=
  ⟨hc, fun i c x he => absurd he (hop i c x), hn⟩

/-- A block that moves to another state leaves no piece stuck. -/
theorem stepSound_of_marks {st st' : PieceState} {σ : BlockState}
    (hop : ∀ i c x, op ≠ .blockReceived i c x) (hstep : m.step op = { m with pm := m.pm.put i st' })
    (hc : CountExact m.pm) (hn : m.NotStuck)
    (hst : st.blocksReceived = st.blocks.countP (·.state == .received))
    (hm : PieceState.Marks T i st st' c σ) (hσ : σ ≠ .received) : StepSound m op := by
  have hs := hm.stateAt c
  rw [if_pos rfl] at hs
  refine stepSound_of_ne hop ?_ ?_
  · rw [hstep]
    exact hc.put (count_marks hm hst)
  · rw [hstep]
    exact hn.put fun hall => absurd hall (not_fullyReceived_of_stateAt hσ hs)

theorem stepSound_getNextBlock (h : m.Inv) (hc : CountExact m.pm) (hn : m.NotStuck)
    (hf : Fits m (.getNextBlock i)) : StepSound m (.getNextBlock i) := by
  rcases hg : m.pm.getNextBlock i with ⟨_ | b, pm'⟩
  · rcases getNextBlock_none h.ok hg with ⟨-, rfl⟩ | ⟨hp, rfl, hnp⟩
    · refine stepSound_of_ne (by simp) ?_ ?_ <;> simp only [Monitored.step, hg]
      · exact hc
      · exact hn
    · refine stepSound_of_ne (by simp) ?_ ?_ <;> simp only [Monitored.step, hg]
      · exact hc.put (hc.touched i)
      · refine hn.put fun hall => ?_
        rcases hi : m.pm.inProgress i with _ | st
        · -- the first touch: the piece has a block, and it is pending
          have hl : T.getPieceLength i ≠ 0 := by
            rcases hf with h' | h' | h'
            · rw [hp] at h'
              cases h'
            · simp [isInProgress, hi] at h'
            · exact h'
          obtain ⟨b, hb, -⟩ := exists_mem_freshBlocks (T := T) (i := i) (Nat.pos_of_ne_zero hl)
          rw [touched_of_none hi] at hnp
          exact absurd (of_mem_freshBlocks hb).2.2.2.2 (hnp b hb)
        · rw [touched_of_inProgress hi] at hall
          exact hn i ⟨st, hi, hall⟩
  · obtain ⟨-, -, -, -, -, st', rfl, hst⟩ := getNextBlock_some h.ok hg
    exact stepSound_of_marks (by simp) (by simp only [Monitored.step, hg]) hc hn (hc.touched i) hst
      (by simp)

theorem stepSound_blockReceived (h : m.Inv) (hc : CountExact m.pm) (hn : m.NotStuck)
    (hf : Fits m (.blockReceived i c x)) : StepSound m (.blockReceived i c x) := by
  rcases hp : m.pm.hasPiece i with _ | _
  · have hex := storeBlock_exact h hc hp hf
    have hrep := full_iff hex
    refine ⟨?_, ?_, ?_⟩
    · simp only [Monitored.step, blockReceived_eq h.ok hp]
      exact hc.put hex
    · rintro i' c' x' he -
      cases he
      simp only [Monitored.step, blockReceived_eq h.ok hp, fullyReceived_put, if_true]
      exact hrep
    · intro j hj
      simp only [Monitored.step, blockReceived_eq h.ok hp, fullyReceived_put] at hj ⊢
      split at hj
      case isTrue hji => rw [if_pos (hrep.mpr hj), hji, Function.update_self]
      case isFalse hji =>
        split
        · rw [Function.update_of_ne hji]
          exact hn j hj
        · exact hn j hj
  · refine ⟨?_, ?_, ?_⟩
    · simp only [Monitored.step, blockReceived_of_hasPiece hp]
      exact hc
    · rintro i' c' x' he hp'
      cases he
      rw [hp] at hp'
      cases hp'
    · simp only [Monitored.step, blockReceived_of_hasPiece hp]
      exact hn

theorem stepSound_blockRequestFailed (h : m.Inv) (hc : CountExact m.pm) (hn : m.NotStuck) :
    StepSound m (.blockRequestFailed i c) := by
  rcases blockRequestFailed_cases h.ok (i := i) (c := c) with
    ⟨he, -⟩ | ⟨st, st', hi, -, he, hst⟩
  · refine stepSound_of_ne (by simp) ?_ ?_ <;> simp only [Monitored.step, he]
    · exact hc
    · exact hn
  · exact stepSound_of_marks (by simp) (by simp only [Monitored.step, he]) hc hn (hc i st hi) hst
      (by simp)

/-- **A step that fits is sound**, from a state with exact counters and no stuck
piece. -/
theorem stepSound_of_fits (h : m.Inv) (hc : CountExact m.pm) (hn : m.NotStuck)
    (hf : Fits m op) : StepSound m op := by
  cases op with
  | getNextBlock i => exact stepSound_getNextBlock h hc hn hf
  | blockReceived i c x => exact stepSound_blockReceived h hc hn hf
  | blockRequestFailed i c => exact stepSound_blockRequestFailed h hc hn
  | pieceCompleted i =>
    exact stepSound_of_ne (by simp) (hc.of_erased fun j => inProgress_pieceCompleted)
      (hn.erased fun j => inProgress_pieceCompleted)
  | pieceFailed i =>
    exact stepSound_of_ne (by simp) (hc.of_erased fun j => inProgress_pieceFailed)
      (hn.erased fun j => inProgress_pieceFailed)

/-! ### A sound step fits -/

/-- **A step that is sound fits**, from a state with exact counters. -/
theorem fits_of_stepSound (h : m.Inv) (hc : CountExact m.pm) (hs : StepSound m op) :
    Fits m op := by
  cases op with
  | getNextBlock i =>
    by_contra hf
    simp only [Fits, not_or, Bool.not_eq_true, not_not] at hf
    obtain ⟨hp, hi, hl⟩ := hf
    have hnone : m.pm.inProgress i = none := by simpa [isInProgress] using hi
    have hrep : m.reported i = false := by
      by_contra hr
      have := h.started i (by simpa using hr)
      simp [hnone] at this
    -- the piece now has an entry without blocks
    have hfull : (m.step (.getNextBlock i)).pm.FullyReceived i := by
      refine ⟨freshState T i, ?_, ?_⟩
      · have ht := touched_of_none hnone
        simp only [Monitored.step, getNextBlock, hp, Bool.false_eq_true, if_false,
          initPieceState_eq h.ok, ht, entry_put, freshState, freshBlocks_eq_nil_iff.mpr hl,
          List.find?_nil, inProgress_put, if_true]
      · intro b hb
        rw [freshState, freshBlocks_eq_nil_iff.mpr hl] at hb
        cases hb
    have := hs.2.2 i hfull
    simp only [Monitored.step, hrep] at this
    cases this
  | blockReceived i c x =>
    by_contra hf
    simp only [Fits, not_or, Bool.not_eq_true, not_not, Nat.not_le] at hf
    obtain ⟨hp, hmem, hrec, hlt⟩ := hf
    have hok := h.ok.touched i
    have hex := hc.touched i
    have hpost := hs.1 i ((m.pm.touched i).storeBlock c x)
      (by simp only [Monitored.step, inProgress_blockReceived h.ok hp])
    -- the block at `c` exists and was not received
    obtain ⟨b₀, hb₀, rfl⟩ := List.mem_map.mp hmem
    obtain ⟨b, hb, hsp⟩ := hok.exists_block hb₀
    have hbeg : b.begin = b₀.begin := congrArg (fun y : ℕ × ℕ × ℕ => y.2.1) hsp
    have hstate : (m.pm.touched i).stateAt b₀.begin = some b.state := by
      rw [← hbeg, hok.stateAt_begin hb]
    rcases PieceState.storeBlock_cases (m.pm.touched i) b₀.begin x with
      ⟨-, hn | hr⟩ | ⟨⟨b', hb', hne⟩, hbl, -, -, ⟨hle, -, -⟩ | ⟨-, -, hr⟩⟩
    · rw [hstate] at hn
      cases hn
    · exact hrec (blockState_of_stateAt_touched (by simp) hr)
    · rw [hok.data_length] at hle
      omega
    · rw [hr, hbl, PieceState.countP_mark hb' hne, if_pos rfl, hex] at hpost
      omega
  | blockRequestFailed => trivial
  | pieceCompleted => trivial
  | pieceFailed => trivial

end Sound

/-! ### Whole runs -/

variable {l : List Op}

theorem Monitored.inv_foldl (l : List Op) : (l.foldl Monitored.step (Monitored.init T)).Inv :=
  (Runs.reach_free l).invariant Monitored.inv_init fun _ op h _ => h.step op

theorem countExact_init : CountExact (Monitored.init T).pm := fun _ _ h => nomatch h

theorem notStuck_init : (Monitored.init T).NotStuck := fun _ ⟨_, h, _⟩ => nomatch h

/-- A run that is sound at every step ends with exact counters and no stuck piece. -/
theorem countExact_of_throughout
    (h : Runs.Throughout Monitored.step (Monitored.init T) l StepSound) :
    CountExact (l.foldl Monitored.step (Monitored.init T)).pm ∧
      (l.foldl Monitored.step (Monitored.init T)).NotStuck := by
  rcases List.eq_nil_or_concat l with rfl | ⟨l', op, rfl⟩
  · exact ⟨countExact_init, notStuck_init⟩
  · rw [List.concat_eq_append] at h ⊢
    obtain ⟨hc, -, hn⟩ := (Runs.throughout_snoc.mp h).2
    rw [List.foldl_append]
    exact ⟨hc, hn⟩

/-- **The counter is exact in a run exactly as long as every operation fits.** Every
step of a run from an empty manager leaves exact counters, right reports and no stuck
piece if and only if every operation of it fits the state it is performed in. -/
theorem throughout_stepSound_iff (l : List Op) :
    Runs.Throughout Monitored.step (Monitored.init T) l StepSound ↔
      Runs.Throughout Monitored.step (Monitored.init T) l Fits := by
  induction l using List.reverseRecOn with
  | nil => exact iff_of_true (Runs.throughout_nil _) (Runs.throughout_nil _)
  | append_singleton l op ih =>
    have hinv := Monitored.inv_foldl (T := T) l
    rw [Runs.throughout_snoc, Runs.throughout_snoc, ← ih]
    refine and_congr_right fun hl => ?_
    obtain ⟨hc, hn⟩ := countExact_of_throughout hl
    exact ⟨fits_of_stepSound hinv hc, stepSound_of_fits hinv hc hn⟩

/-- **Two bytes for a block of one.** The block of the one-byte torrent is marked
received and not counted. -/
theorem not_stepSound_oversized :
    ¬Runs.Throughout Monitored.step (Monitored.init Torrent.oneByte)
      [.blockReceived 0 0 [0x61, 0x61]] StepSound := by
  intro h
  have hcount := (h [] _ [] rfl).1 0
    { index := 0, length := 1, data := [0],
      blocks := [{ piece := 0, begin := 0, length := 1, state := .received }] } rfl
  exact absurd hcount (by decide)

end PieceManager

end TransferEngine
