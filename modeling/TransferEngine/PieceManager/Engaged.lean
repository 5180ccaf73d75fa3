import TransferEngine.PieceManager.Operations

/-!
# Which blocks are requested or received

A block is **engaged** when it is requested or received: nobody will be asked for it. Each
operation of the piece manager is described here by the blocks it engages and the blocks
it lets go. A piece that has just been touched has only pending blocks, so touching a piece
makes no difference to any of this.
-/

namespace TransferEngine

namespace PieceManager

variable {T : Torrent} {pm pm' : PieceManager T} {i j c d : ℕ} {b : Block} {x : List UInt8}
  {σ : BlockState}

/-- The block of piece `i` at `c` is requested or received. -/
def Engaged (pm : PieceManager T) (i c : ℕ) : Prop :=
  pm.blockState i c = some .requested ∨ pm.blockState i c = some .received

theorem stateAt_touched_iff (hσ : σ ≠ .pending) :
    (pm.touched i).stateAt c = some σ ↔ pm.blockState i c = some σ :=
  ⟨blockState_of_stateAt_touched hσ, stateAt_touched_of_blockState⟩

/-- Only a piece of the torrent has blocks. -/
theorem lt_count_of_blockState (h : pm.Ok) (hs : pm.blockState i c = some σ) : i < T.count := by
  rw [blockState, Option.bind_eq_some_iff] at hs
  obtain ⟨st, hst, hs⟩ := hs
  obtain ⟨b, hb, -, -⟩ := PieceState.exists_of_stateAt hs
  refine Torrent.lt_count_of_getPieceLength fun hz => ?_
  rw [(h i st hst).blocks_eq_nil_iff.mpr hz] at hb
  cases hb

theorem Engaged.lt_count (h : pm.Ok) (he : pm.Engaged i c) : i < T.count := by
  rcases he with hs | hs
  · exact lt_count_of_blockState h hs
  · exact lt_count_of_blockState h hs

/-! ### Asking -/

/-- The requested and received blocks after a block is handed out. -/
theorem blockState_getNextBlock_some (h : pm.Ok) (hg : pm.getNextBlock i = (some b, pm'))
    (hσ : σ ≠ .pending) : pm'.blockState j d = some σ ↔
      if j = i ∧ d = b.begin then σ = .requested else pm.blockState j d = some σ := by
  obtain ⟨-, -, -, -, -, st', rfl, hst⟩ := getNextBlock_some h hg
  rw [blockState_put]
  by_cases hj : j = i
  · subst hj
    rw [if_pos rfl, hst.stateAt]
    by_cases hd : b.begin = d
    · rw [if_pos hd, if_pos ⟨rfl, hd.symm⟩, Option.some_inj, eq_comm]
    · rw [if_neg hd, if_neg fun hc => hd hc.2.symm, stateAt_touched_iff hσ]
  · rw [if_neg hj, if_neg fun hc => hj hc.1]

/-- The requested and received blocks after no block is handed out. -/
theorem blockState_getNextBlock_none (h : pm.Ok) (hg : pm.getNextBlock i = (none, pm'))
    (hσ : σ ≠ .pending) : pm'.blockState j d = some σ ↔ pm.blockState j d = some σ := by
  rcases getNextBlock_none h hg with ⟨-, rfl⟩ | ⟨-, rfl, -⟩
  · rfl
  · rw [blockState_put]
    split
    case isTrue hj => rw [hj, stateAt_touched_iff hσ]
    case isFalse => rfl

/-- A block handed out was not engaged. -/
theorem not_engaged_of_getNextBlock (h : pm.Ok) (hg : pm.getNextBlock i = (some b, pm')) :
    ¬pm.Engaged i b.begin := by
  obtain ⟨-, hpend, -⟩ := getNextBlock_some h hg
  rintro (hs | hs)
  · rw [stateAt_touched_of_blockState hs] at hpend
    cases hpend
  · rw [stateAt_touched_of_blockState hs] at hpend
    cases hpend

theorem engaged_getNextBlock_some (h : pm.Ok) (hg : pm.getNextBlock i = (some b, pm')) :
    pm'.Engaged j d ↔ (j = i ∧ d = b.begin) ∨ pm.Engaged j d := by
  rw [Engaged, blockState_getNextBlock_some h hg (by simp),
    blockState_getNextBlock_some h hg (by simp)]
  by_cases hjd : j = i ∧ d = b.begin
  · simp [hjd]
  · simp [hjd, Engaged]

theorem engaged_getNextBlock_none (h : pm.Ok) (hg : pm.getNextBlock i = (none, pm')) :
    pm'.Engaged j d ↔ pm.Engaged j d := by
  rw [Engaged, blockState_getNextBlock_none h hg (by simp),
    blockState_getNextBlock_none h hg (by simp), Engaged]

/-! ### Receiving -/

/-- The requested and received blocks after a block has come in. -/
theorem blockState_blockReceived {r : Bool} (h : pm.Ok)
    (hr : pm.blockReceived i c x = (r, pm')) (hp : pm.hasPiece i = false) (hσ : σ ≠ .pending) :
    pm'.blockState j d = some σ ↔
      if j = i ∧ d = c ∧ ((pm.touched i).stateAt c).isSome then σ = .received
      else pm.blockState j d = some σ := by
  rw [blockReceived_eq h hp, Prod.mk.injEq] at hr
  rw [← hr.2, blockState_put]
  by_cases hj : j = i
  · subst hj
    rw [if_pos rfl, (h.touched j).stateAt_storeBlock]
    by_cases hd : d = c ∧ ((pm.touched j).stateAt c).isSome
    · rw [if_pos hd, if_pos ⟨rfl, hd⟩, Option.some_inj, eq_comm]
    · rw [if_neg hd, if_neg fun hc => hd hc.2, stateAt_touched_iff hσ]
  · rw [if_neg hj, if_neg fun hc => hj hc.1]

/-- A block that comes in is not waited for any more, and no other block is requested that
was not. -/
theorem requested_of_blockReceived {r : Bool} (h : pm.Ok)
    (hr : pm.blockReceived i c x = (r, pm')) (hp : pm.hasPiece i = false)
    (hs : pm'.blockState j d = some .requested) :
    pm.blockState j d = some .requested ∧ ¬(j = i ∧ d = c) := by
  rw [blockState_blockReceived h hr hp (by simp)] at hs
  split at hs
  case isTrue => cases hs
  case isFalse hne =>
    refine ⟨hs, ?_⟩
    rintro ⟨rfl, rfl⟩
    refine hne ⟨rfl, rfl, ?_⟩
    rw [stateAt_touched_of_blockState hs]
    rfl

/-- A block that comes in lets no block go. -/
theorem Engaged.of_blockReceived {r : Bool} (h : pm.Ok)
    (hr : pm.blockReceived i c x = (r, pm')) (he : pm.Engaged j d) : pm'.Engaged j d := by
  rcases hp : pm.hasPiece i with _ | _
  · rw [Engaged, blockState_blockReceived h hr hp (by simp),
      blockState_blockReceived h hr hp (by simp)]
    by_cases hjd : j = i ∧ d = c ∧ ((pm.touched i).stateAt c).isSome = true
    · simp [hjd]
    · rw [if_neg hjd, if_neg hjd]
      exact he
  · rw [blockReceived_of_hasPiece hp] at hr
    cases hr
    exact he

/-! ### Ending a piece -/

theorem blockState_pieceCompleted : (pm.pieceCompleted i).blockState j d =
    if j = i then none else pm.blockState j d := by
  rw [blockState, inProgress_pieceCompleted]
  split <;> rfl

theorem blockState_pieceFailed : (pm.pieceFailed i).blockState j d =
    if j = i then none else pm.blockState j d :=
  blockState_erase

/-- Ending a piece leaves the blocks of other pieces alone. -/
theorem engaged_pieceCompleted (hj : j ≠ i) :
    (pm.pieceCompleted i).Engaged j d ↔ pm.Engaged j d := by
  rw [Engaged, blockState_pieceCompleted, if_neg hj, Engaged]

theorem engaged_pieceFailed (hj : j ≠ i) :
    (pm.pieceFailed i).Engaged j d ↔ pm.Engaged j d := by
  rw [Engaged, blockState_pieceFailed, if_neg hj, Engaged]

end PieceManager

end TransferEngine
