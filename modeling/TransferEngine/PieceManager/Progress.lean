import Mathlib.Data.Finset.Card
import Mathlib.Data.Finset.Union
import TransferEngine.PieceManager.Assembly
import TransferEngine.PieceManager.Count
import TransferEngine.PieceManager.Engaged

/-!
# How far a download has come

A download is a set of blocks that fills up: the blocks of complete pieces, and the received
blocks of pieces in progress (`TransferEngine.PieceManager.receivedKeys`). Asking for blocks and
giving requests back does not change it. A true block that was not there is added to it, and
nothing else changes, also when it completes its piece; a piece in progress always has a block
that is still to come (`TransferEngine.PieceManager.Underway`), so that the set is full exactly
when all pieces are complete.
-/

namespace TransferEngine

variable {T : Torrent}

/-- **An entry that true blocks have made**: its counter is exact, its received blocks hold the
content, and one of its blocks is still to come. -/
structure PieceState.Underway (d : List UInt8) (st : PieceState) : Prop where
  /-- The counter is exact. -/
  count : st.blocksReceived = st.blocks.countP (·.state == .received)
  /-- The received blocks hold the content. -/
  holds : st.Holds d
  /-- A block is still to come. -/
  unfinished : st.blocksReceived < st.blocks.length

namespace PieceManager

variable {pm pm' : PieceManager T} {D : ℕ → List UInt8} {st : PieceState} {i j c : ℕ}
  {x : List UInt8} {k : ℕ × ℕ}

/-- **Every piece in progress is under way.** -/
def Underway (D : ℕ → List UInt8) (pm : PieceManager T) : Prop :=
  ∀ i st, pm.inProgress i = some st → st.Underway (D i)

theorem underway_init : Underway D (init T) := fun _ _ h => nomatch h

theorem Underway.put (h : Underway D pm) (hst : st.Underway (D i)) : Underway D (pm.put i st) := by
  intro j st' hj
  rw [inProgress_put] at hj
  split at hj
  case isTrue hji =>
    cases hj
    exact hji ▸ hst
  case isFalse => exact h j st' hj

theorem Underway.of_erased (h : Underway D pm)
    (he : ∀ j, pm'.inProgress j = if j = i then none else pm.inProgress j) : Underway D pm' := by
  intro j st' hj
  rw [he] at hj
  split at hj
  case isTrue => cases hj
  case isFalse => exact h j st' hj

/-- An entry that nobody has touched is under way, if the piece has bytes. -/
theorem underway_freshState {d : List UInt8} (hi : T.getPieceLength i ≠ 0) :
    (freshState T i).Underway d where
  count := count_freshState
  holds := PieceState.holds_freshState
  unfinished := List.length_pos_iff.mpr fun hnil => hi (freshBlocks_eq_nil_iff.mp hnil)

theorem Underway.touched (h : Underway D pm) (hi : T.getPieceLength i ≠ 0) :
    (pm.touched i).Underway (D i) := by
  rcases hst : pm.inProgress i with _ | st
  · rw [touched_of_none hst]
    exact underway_freshState hi
  · rw [touched_of_inProgress hst]
    exact h i st hst

/-- Two sound entries of a piece have as many blocks. -/
theorem length_blocks_eq {st' : PieceState} (h : st.Ok T i) (h' : st'.Ok T i) :
    st'.blocks.length = st.blocks.length := by
  rw [← List.length_map (f := Block.span), h'.spans, ← h.spans, List.length_map]

/-- Moving a block between pending and requested. -/
theorem underway_marks {d : List UInt8} {st' : PieceState} {σ : BlockState} (h : st.Underway d)
    (hok : st.Ok T i) (hm : PieceState.Marks T i st st' c σ) (hσ : σ ≠ .received) :
    st'.Underway d where
  count := count_marks hm h.count
  holds := h.holds.marks hok hm hσ
  unfinished := by
    rw [hm.blocksReceived, length_blocks_eq hok hm.ok]
    exact h.unfinished

/-- Asking for a block. -/
theorem Underway.getNextBlock {r : Option Block} (h : Underway D pm) (hok : pm.Ok)
    (hi : T.getPieceLength i ≠ 0) (hg : pm.getNextBlock i = (r, pm')) : Underway D pm' := by
  cases r with
  | none =>
    rcases getNextBlock_none hok hg with ⟨-, rfl⟩ | ⟨-, rfl, -⟩
    · exact h
    · exact h.put (h.touched hi)
  | some b =>
    obtain ⟨-, -, -, -, -, st', rfl, hm⟩ := getNextBlock_some hok hg
    exact h.put (underway_marks (h.touched hi) (hok.touched i) hm (by simp))

/-- Giving a request back. -/
theorem Underway.blockRequestFailed (h : Underway D pm) (hok : pm.Ok) :
    Underway D (pm.blockRequestFailed i c) := by
  rcases blockRequestFailed_cases hok (i := i) (c := c) with ⟨he, -⟩ | ⟨st, st', hi, -, he, hm⟩
  · rwa [he]
  · rw [he]
    exact h.put (underway_marks (h i st hi) (hok i st hi) hm (by simp))

/-- **A true block comes in.** The piece stays under way unless it is reported complete. -/
theorem Underway.blockReceived (h : Underway D pm) (hok : pm.Ok)
    (hd : (D i).length = T.getPieceLength i) (hx : TrueBlock T i (D i) c x)
    (hr : pm.blockReceived i c x = (false, pm')) : Underway D pm' := by
  have hi : T.getPieceLength i ≠ 0 := by
    obtain ⟨b, hb, -⟩ := hx
    intro hz
    rw [freshBlocks_eq_nil_iff.mpr hz] at hb
    cases hb
  rcases hp : pm.hasPiece i with _ | _
  · rw [blockReceived_eq hok hp, Prod.mk.injEq] at hr
    obtain ⟨hfull, rfl⟩ := hr
    have ht := h.touched hi
    have hokt := hok.touched i
    refine h.put ⟨count_storeBlock ht.count fun b hb _ => ?_, ht.holds.storeBlock hokt hd hx, ?_⟩
    · -- the bytes of a true block fit
      obtain ⟨-, -, -, -, -, hfit⟩ := hx.fits hd
      rwa [hokt.data_length]
    · have hle := hokt.storeBlock (c := c) (x := x).received_le
      have hcount := List.countP_le_length (p := (·.state == .received))
        (l := ((pm.touched i).storeBlock c x).blocks)
      have hne : ((pm.touched i).storeBlock c x).blocksReceived ≠
          ((pm.touched i).storeBlock c x).blocks.length := by simpa using hfull
      omega
  · rw [blockReceived_of_hasPiece hp] at hr
    cases hr
    exact h

/-! ### The received blocks -/

variable (T) in
/-- All blocks of the torrent, as pairs of a piece and an offset. -/
def blockKeys : Finset (ℕ × ℕ) :=
  (Finset.range T.count).biUnion fun i => ((freshBlocks T i).map fun b => (i, b.begin)).toFinset

theorem mem_blockKeys : k ∈ blockKeys T ↔
    k.1 < T.count ∧ ∃ b ∈ freshBlocks T k.1, b.begin = k.2 := by
  simp only [blockKeys, Finset.mem_biUnion, Finset.mem_range, List.mem_toFinset, List.mem_map]
  constructor
  · rintro ⟨i, hi, b, hb, rfl⟩
    exact ⟨hi, b, hb, rfl⟩
  · rintro ⟨hi, b, hb, hc⟩
    exact ⟨k.1, hi, b, hb, Prod.ext rfl hc⟩

/-- A block is there: its piece is complete, or it is received. -/
def Received (pm : PieceManager T) (k : ℕ × ℕ) : Prop :=
  pm.hasPiece k.1 = true ∨ pm.blockState k.1 k.2 = some .received

instance (pm : PieceManager T) : DecidablePred pm.Received :=
  fun _ => inferInstanceAs (Decidable (_ ∨ _))

/-- **The blocks that are there.** -/
def receivedKeys (pm : PieceManager T) : Finset (ℕ × ℕ) := (blockKeys T).filter pm.Received

theorem mem_receivedKeys : k ∈ pm.receivedKeys ↔ k ∈ blockKeys T ∧ pm.Received k :=
  Finset.mem_filter

theorem receivedKeys_init : (init T).receivedKeys = ∅ := by
  refine Finset.filter_eq_empty_iff.mpr fun k _ => ?_
  rintro (hk | hk)
  · simp [init, hasPiece] at hk
  · cases hk

theorem receivedKeys_congr (h : ∀ k, pm'.Received k ↔ pm.Received k) :
    pm'.receivedKeys = pm.receivedKeys :=
  Finset.filter_congr fun k _ => h k

theorem receivedKeys_subset : pm.receivedKeys ⊆ blockKeys T := Finset.filter_subset _ _

/-- The number of blocks that are still to come. -/
def blocksLeft (pm : PieceManager T) : ℕ := (blockKeys T).card - pm.receivedKeys.card

theorem blocksLeft_add_card (pm : PieceManager T) :
    pm.blocksLeft + pm.receivedKeys.card = (blockKeys T).card :=
  Nat.sub_add_cancel (Finset.card_le_card receivedKeys_subset)

/-- A block that was not there leaves one less to come. -/
theorem blocksLeft_of_insert (hk : k ∉ pm.receivedKeys)
    (h : pm'.receivedKeys = insert k pm.receivedKeys) : pm'.blocksLeft + 1 = pm.blocksLeft := by
  have hpm := blocksLeft_add_card pm
  have hpm' := blocksLeft_add_card pm'
  rw [h, Finset.card_insert_of_notMem hk] at hpm'
  omega

/-- Asking for a block adds none. -/
theorem received_getNextBlock {r : Option Block} (hok : pm.Ok)
    (hg : pm.getNextBlock i = (r, pm')) (k : ℕ × ℕ) : pm'.Received k ↔ pm.Received k := by
  have hhas : pm'.hasPiece k.1 = pm.hasPiece k.1 := by
    rw [hasPiece, bitfield_of_getNextBlock hg, hasPiece]
  rw [Received, Received, hhas]
  cases r with
  | none => rw [blockState_getNextBlock_none hok hg (by simp)]
  | some b =>
    rw [blockState_getNextBlock_some hok hg (by simp)]
    split
    case isTrue hk =>
      -- the block was pending
      have hne := not_engaged_of_getNextBlock hok hg
      rw [Engaged, not_or] at hne
      simp [hk, hne.2]
    case isFalse => rfl

/-- A block of the cut has a state once its piece is touched. -/
theorem isSome_stateAt_touched (hok : pm.Ok) (hx : ∃ b ∈ freshBlocks T i, b.begin = c) :
    ((pm.touched i).stateAt c).isSome := by
  obtain ⟨b, hb, rfl⟩ := hx
  obtain ⟨b', hb', hspan⟩ := (hok.touched i).exists_block hb
  have hbeg : b'.begin = b.begin := congrArg (fun y : ℕ × ℕ × ℕ => y.2.1) hspan
  rw [← hbeg, (hok.touched i).stateAt_begin hb', Option.isSome_some]

/-- **A block that comes in is there**, and no other is that was not. -/
theorem receivedKeys_blockReceived {r : Bool} (hok : pm.Ok) (hp : pm.hasPiece i = false)
    (hi : i < T.count) (hx : ∃ b ∈ freshBlocks T i, b.begin = c)
    (hr : pm.blockReceived i c x = (r, pm')) :
    pm'.receivedKeys = insert (i, c) pm.receivedKeys := by
  ext ⟨j, d⟩
  rw [Finset.mem_insert, mem_receivedKeys, mem_receivedKeys, Received, Received,
    hasPiece_of_blockReceived hr, blockState_blockReceived hok hr hp (by simp), Prod.mk.injEq]
  by_cases hk : j = i ∧ d = c
  · obtain ⟨rfl, rfl⟩ := hk
    have hkey : (j, d) ∈ blockKeys T := mem_blockKeys.mpr ⟨hi, hx⟩
    simp [hkey, isSome_stateAt_touched hok hx]
  · have hk' : ¬(j = i ∧ d = c ∧ ((pm.touched i).stateAt c).isSome = true) :=
      fun hc => hk ⟨hc.1, hc.2.1⟩
    rw [if_neg hk', or_iff_right hk]

/-- **Completing a piece adds no block**: they are all there. -/
theorem receivedKeys_pieceCompleted (hok : pm.Ok) (hr : pm.blockReceived i c x = (true, pm')) :
    (pm'.pieceCompleted i).receivedKeys = pm'.receivedKeys := by
  obtain ⟨-, hall⟩ := blockReceived_true hok (congrArg Prod.fst hr)
  obtain ⟨-, rfl⟩ := of_blockReceived_true hok hr
  have hokt := (hok.touched i).storeBlock (c := c) (x := x)
  ext ⟨j, d⟩
  rw [mem_receivedKeys, mem_receivedKeys, Received, Received, hasPiece_pieceCompleted,
    blockState_pieceCompleted]
  refine and_congr_right fun hkey => ?_
  obtain ⟨hlt, b, hb, hbeg⟩ := mem_blockKeys.mp hkey
  dsimp only at hlt hb hbeg ⊢
  by_cases hj : j = i
  · subst hj
    obtain ⟨b', hb', hspan⟩ := hokt.exists_block hb
    have hbeg' : b'.begin = d := (congrArg (fun y : ℕ × ℕ × ℕ => y.2.1) hspan).trans hbeg
    have hst : (pm.put j ((pm.touched j).storeBlock c x)).blockState j d = some .received := by
      rw [blockState_put, if_pos rfl, ← hbeg', hokt.stateAt_begin hb', hall b' hb']
    simp [hlt, hst]
  · rw [if_neg hj]
    simp [Ne.symm hj]

/-- A piece in progress has a block that has not been received. -/
theorem Underway.exists_missing (h : Underway D pm) (hst : pm.inProgress i = some st) :
    ∃ b ∈ st.blocks, b.state ≠ .received := by
  by_contra hall
  push Not at hall
  have hfull : st.blocks.countP (·.state == .received) = st.blocks.length := by
    rw [List.countP_eq_length]
    intro b hb
    simp [hall b hb]
  have hlt := (h i st hst).unfinished
  rw [(h i st hst).count, hfull] at hlt
  exact lt_irrefl _ hlt

/-- **The set is full exactly when all pieces are complete.** -/
theorem receivedKeys_eq_iff (h : Underway D pm) (hok : pm.Ok)
    (hne : ∀ i < T.count, T.getPieceLength i ≠ 0) :
    pm.receivedKeys = blockKeys T ↔ ∀ i < T.count, pm.hasPiece i = true := by
  rw [receivedKeys, Finset.filter_eq_self]
  constructor
  · intro hall i hi
    by_contra hp
    have hrec : ∀ b ∈ freshBlocks T i, pm.blockState i b.begin = some .received := by
      intro b hb
      exact (hall (i, b.begin) (mem_blockKeys.mpr ⟨hi, b, hb, rfl⟩)).resolve_left hp
    -- a piece with blocks that are received is in progress, and has one that is not
    obtain ⟨b, hb, -⟩ := exists_mem_freshBlocks (Nat.pos_of_ne_zero (hne i hi))
    obtain ⟨st, hst, -⟩ := Option.bind_eq_some_iff.mp (hrec b hb)
    obtain ⟨b', hb', hmissing⟩ := h.exists_missing hst
    obtain ⟨b₀, hb₀, hspan⟩ := (hok i st hst).exists_fresh hb'
    have hbeg : b₀.begin = b'.begin := congrArg (fun y : ℕ × ℕ × ℕ => y.2.1) hspan
    have hs := hrec b₀ hb₀
    rw [blockState_of_inProgress hst, hbeg, (hok i st hst).stateAt_begin hb'] at hs
    exact hmissing (Option.some.inj hs)
  · intro hall k hk
    exact Or.inl (hall k.1 (mem_blockKeys.mp hk).1)

/-- The same, by number. -/
theorem blocksLeft_eq_zero_iff (h : Underway D pm) (hok : pm.Ok)
    (hne : ∀ i < T.count, T.getPieceLength i ≠ 0) :
    pm.blocksLeft = 0 ↔ ∀ i < T.count, pm.hasPiece i = true := by
  rw [← receivedKeys_eq_iff h hok hne]
  have hadd := blocksLeft_add_card pm
  constructor
  · intro hz
    exact Finset.eq_of_subset_of_card_le receivedKeys_subset (by omega)
  · intro hfull
    rw [hfull] at hadd
    omega

end PieceManager

end TransferEngine
