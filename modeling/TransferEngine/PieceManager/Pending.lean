import Mathlib.Data.Finset.Card
import Mathlib.Data.Finset.Range
import TransferEngine.PieceManager.Operations

/-!
# Which pieces have pending blocks

`has_pending_blocks` is what the coordinator asks before it picks a piece. It holds of a
piece nobody has touched and of a piece in progress with a block that is still to be asked
for. Handing blocks out and taking blocks in can only make it fail; it comes back when a
request is returned or a bad piece is discarded, and in no other way.
-/

namespace TransferEngine

namespace PieceManager

variable {T : Torrent} {pm pm' : PieceManager T} {i j c : ℕ} {x : List UInt8} {st : PieceState}

/-- **A piece has pending blocks** if it is not complete, and nobody has touched it or one
of its blocks is pending. -/
theorem hasPendingBlocks_iff (h : pm.Ok) : pm.hasPendingBlocks i = true ↔
    pm.hasPiece i = false ∧ (pm.inProgress i = none ∨ ∃ c, pm.blockState i c = some .pending) := by
  rw [hasPendingBlocks]
  cases hp : pm.hasPiece i with
  | true => simp
  | false =>
    rcases hi : pm.inProgress i with _ | st
    · simp
    · have hok := h i st hi
      simp only [Bool.false_eq_true, if_false, List.any_eq_true, beq_iff_eq, true_and,
        reduceCtorEq, false_or]
      constructor
      · rintro ⟨b, hb, hs⟩
        exact ⟨b.begin, by rw [blockState_of_inProgress hi, hok.stateAt_begin hb, hs]⟩
      · rintro ⟨c, hc⟩
        rw [blockState_of_inProgress hi] at hc
        obtain ⟨b, hb, -, hs⟩ := PieceState.exists_of_stateAt hc
        exact ⟨b, hb, hs⟩

/-- A new entry in which only blocks are pending that were so once touched. -/
theorem hasPendingBlocks_of_put (h : pm.Ok) (hst : st.Ok T i)
    (hsub : ∀ c, st.stateAt c = some .pending → (pm.touched i).stateAt c = some .pending)
    (hj : (pm.put i st).hasPendingBlocks j = true) : pm.hasPendingBlocks j = true := by
  obtain ⟨hp, hpend⟩ := (hasPendingBlocks_iff (h.put hst)).mp hj
  refine (hasPendingBlocks_iff h).mpr ⟨hp, ?_⟩
  by_cases hji : j = i
  · subst hji
    rw [inProgress_put, if_pos rfl] at hpend
    obtain hnone | ⟨c, hc⟩ := hpend
    · cases hnone
    · rw [blockState_put, if_pos rfl] at hc
      rcases stateAt_touched pm j c with he | ⟨hn, -⟩
      · exact Or.inr ⟨c, he.symm.trans (hsub c hc)⟩
      · exact Or.inl hn
  · rw [inProgress_put, if_neg hji] at hpend
    refine hpend.imp id ?_
    rintro ⟨c, hc⟩
    exact ⟨c, by rwa [blockState_put, if_neg hji] at hc⟩

/-! ### Asking and receiving -/

/-- Handing out a block makes no piece pending. -/
theorem hasPendingBlocks_of_getNextBlock {r : Option Block} (h : pm.Ok)
    (hg : pm.getNextBlock i = (r, pm')) (hj : pm'.hasPendingBlocks j = true) :
    pm.hasPendingBlocks j = true := by
  cases r with
  | none =>
    rcases getNextBlock_none h hg with ⟨-, rfl⟩ | ⟨-, rfl, -⟩
    · exact hj
    · exact hasPendingBlocks_of_put h (h.touched i) (fun _ hc => hc) hj
  | some b =>
    obtain ⟨-, -, -, -, -, st', rfl, hst⟩ := getNextBlock_some h hg
    refine hasPendingBlocks_of_put h hst.ok (fun c hc => ?_) hj
    rw [hst.stateAt] at hc
    split at hc
    case isTrue => cases hc
    case isFalse => exact hc

/-- A piece that has no block to hand out has no pending block. -/
theorem hasPendingBlocks_of_getNextBlock_none (h : pm.Ok)
    (hg : pm.getNextBlock i = (none, pm')) : pm'.hasPendingBlocks i = false := by
  rcases getNextBlock_none h hg with ⟨hp, rfl⟩ | ⟨hp, rfl, hb⟩
  · rw [hasPendingBlocks, hp, if_pos rfl]
  · rw [hasPendingBlocks, hasPiece_put, hp, inProgress_put, if_pos rfl]
    simpa using hb

/-- Taking in a block makes no piece pending. -/
theorem hasPendingBlocks_of_blockReceived {r : Bool} (h : pm.Ok)
    (hr : pm.blockReceived i c x = (r, pm')) (hj : pm'.hasPendingBlocks j = true) :
    pm.hasPendingBlocks j = true := by
  cases hp : pm.hasPiece i with
  | true =>
    rw [blockReceived_of_hasPiece hp] at hr
    cases hr
    exact hj
  | false =>
    rw [blockReceived_eq h hp, Prod.mk.injEq] at hr
    rw [← hr.2] at hj
    refine hasPendingBlocks_of_put h (h.touched i).storeBlock (fun d hd => ?_) hj
    rw [(h.touched i).stateAt_storeBlock] at hd
    split at hd
    case isTrue => cases hd
    case isFalse => exact hd

/-! ### Ending a piece -/

/-- A completed piece has no pending blocks, and no other piece has more. -/
theorem hasPendingBlocks_of_pieceCompleted (hlt : j < T.count)
    (hj : (pm.pieceCompleted i).hasPendingBlocks j = true) :
    j ≠ i ∧ pm.hasPendingBlocks j = true := by
  have hji : j ≠ i := by
    rintro rfl
    rw [hasPendingBlocks, hasPiece_pieceCompleted.mpr (Or.inl ⟨rfl, hlt⟩), if_pos rfl] at hj
    cases hj
  refine ⟨hji, ?_⟩
  have hp : (pm.pieceCompleted i).hasPiece j = pm.hasPiece j := by
    rw [Bool.eq_iff_iff, hasPiece_pieceCompleted]
    exact or_iff_right fun hc => hji hc.1.symm
  rwa [hasPendingBlocks, hp, inProgress_pieceCompleted, if_neg hji] at hj

/-- A discarded piece may be pending again, and no other piece is. -/
theorem hasPendingBlocks_of_pieceFailed (hj : (pm.pieceFailed i).hasPendingBlocks j = true) :
    j = i ∨ pm.hasPendingBlocks j = true := by
  by_cases hji : j = i
  · exact Or.inl hji
  · rw [hasPendingBlocks, hasPiece_pieceFailed, inProgress_pieceFailed, if_neg hji] at hj
    exact Or.inr hj

/-! ### Counting -/

/-- The pieces that have pending blocks. -/
def pendingPieces (pm : PieceManager T) : Finset ℕ :=
  (Finset.range T.count).filter fun i => pm.hasPendingBlocks i = true

theorem card_pendingPieces_le (pm : PieceManager T) : pm.pendingPieces.card ≤ T.count :=
  (Finset.card_filter_le _ _).trans (Finset.card_range _).le

theorem card_pendingPieces_mono
    (hsub : ∀ j, pm'.hasPendingBlocks j = true → pm.hasPendingBlocks j = true) :
    pm'.pendingPieces.card ≤ pm.pendingPieces.card :=
  Finset.card_le_card (Finset.monotone_filter_right _ fun j _ => hsub j)

/-- A piece that stops being pending is one less. -/
theorem card_pendingPieces_lt
    (hsub : ∀ j, pm'.hasPendingBlocks j = true → pm.hasPendingBlocks j = true)
    (hlt : i < T.count) (hi : pm.hasPendingBlocks i = true) (hi' : pm'.hasPendingBlocks i = false) :
    pm'.pendingPieces.card < pm.pendingPieces.card := by
  refine Finset.card_lt_card (Finset.ssubset_iff_of_subset ?_ |>.mpr ⟨i, ?_, ?_⟩)
  · exact Finset.monotone_filter_right _ fun j _ => hsub j
  · exact Finset.mem_filter.mpr ⟨Finset.mem_range.mpr hlt, hi⟩
  · rintro hmem
    rw [(Finset.mem_filter.mp hmem).2] at hi'
    cases hi'

end PieceManager

end TransferEngine
