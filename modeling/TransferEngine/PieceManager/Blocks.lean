import Mathlib.Data.List.Pairwise
import TransferEngine.PieceManager.Model

/-!
# The blocks of a piece

What the piece manager keeps about the blocks of a piece, whatever is done to it.

* `TransferEngine.cutBlocks` cuts a piece of `length` bytes into blocks that are
  disjoint and cover it.
* `TransferEngine.PieceState.Ok` is what every entry of `in_progress_` satisfies: its
  blocks are that cut, its buffer has the length of the piece, and its counter does
  not exceed the number of received blocks. The counter may well stay *below* that
  number; when it does not is the subject of
  `TransferEngine.PieceManager.Count`.
* `TransferEngine.PieceManager.blockState` is the state of one block, and one lemma
  per operation says what becomes of it. Everything the coordinator's proofs know
  about block states is in these lemmas.
-/

namespace TransferEngine

/-! ### Cutting a piece -/

section Cut

variable {piece length fuel offset : ℕ} {b : Block}

/-- What a block of a cut looks like. -/
theorem of_mem_cutBlocks (h : b ∈ cutBlocks piece length fuel offset) :
    b.piece = piece ∧ offset ≤ b.begin ∧ 0 < b.length ∧ b.length ≤ blockSize ∧
      b.begin + b.length ≤ length ∧ b.state = .pending := by
  induction fuel generalizing offset with
  | zero => simp [cutBlocks] at h
  | succ fuel ih =>
    rw [cutBlocks] at h
    split at h
    case isTrue hlt =>
      have hpos : 0 < min blockSize (length - offset) := by
        simp only [blockSize]
        omega
      rcases List.mem_cons.mp h with rfl | h'
      · exact ⟨rfl, le_rfl, hpos, Nat.min_le_left _ _, by dsimp only; omega, rfl⟩
      · obtain ⟨h₁, h₂, h₃⟩ := ih h'
        exact ⟨h₁, by omega, h₃⟩
    case isFalse => simp at h

/-- The blocks of a cut start at different offsets. -/
theorem nodup_begin_cutBlocks :
    ((cutBlocks piece length fuel offset).map Block.begin).Nodup := by
  induction fuel generalizing offset with
  | zero => simp [cutBlocks]
  | succ fuel ih =>
    rw [cutBlocks]
    split
    case isTrue hlt =>
      rw [List.map_cons, List.nodup_cons]
      refine ⟨fun hc => ?_, ih⟩
      obtain ⟨b, hb, hbeg⟩ := List.mem_map.mp hc
      have hge := (of_mem_cutBlocks hb).2.1
      simp only [blockSize] at hge hbeg
      omega
    case isFalse => simp

/-- **A cut covers the piece.** -/
theorem exists_mem_cutBlocks {k : ℕ} (hf : length ≤ fuel + offset) (hk : offset ≤ k)
    (hl : k < length) :
    ∃ b ∈ cutBlocks piece length fuel offset, b.begin ≤ k ∧ k < b.begin + b.length := by
  induction fuel generalizing offset with
  | zero => omega
  | succ fuel ih =>
    rw [cutBlocks, if_pos (by omega)]
    by_cases hin : k < offset + min blockSize (length - offset)
    · exact ⟨_, List.mem_cons_self, hk, hin⟩
    · have hf' : length ≤ fuel + (offset + min blockSize (length - offset)) := by
        simp only [blockSize]
        omega
      obtain ⟨b, hb, hbk⟩ := ih hf' (by omega)
      exact ⟨b, List.mem_cons_of_mem _ hb, hbk⟩

/-- The blocks of a cut lie one after the other. -/
theorem pairwise_cutBlocks :
    (cutBlocks piece length fuel offset).Pairwise fun b b' => b.begin + b.length ≤ b'.begin := by
  induction fuel generalizing offset with
  | zero => exact List.Pairwise.nil
  | succ fuel ih =>
    rw [cutBlocks]
    split
    case isTrue hlt => exact List.pairwise_cons.mpr ⟨fun b' hb' => (of_mem_cutBlocks hb').2.1, ih⟩
    case isFalse => exact List.Pairwise.nil

/-- **The blocks of a list tile** the bytes from `a` to `n`: each starts where the one before
it ends, and none is empty or longer than 16 KiB. -/
def Tile : ℕ → ℕ → List Block → Prop
  | a, n, [] => a = n
  | a, n, b :: l => b.begin = a ∧ 1 ≤ b.length ∧ b.length ≤ 16384 ∧ Tile (a + b.length) n l

/-- **A cut tiles the piece.** -/
theorem tile_cutBlocks (hf : length ≤ fuel + offset) (ho : offset ≤ length) :
    Tile offset length (cutBlocks piece length fuel offset) := by
  induction fuel generalizing offset with
  | zero =>
    rw [cutBlocks, Tile]
    omega
  | succ fuel ih =>
    rw [cutBlocks]
    split
    case isTrue hlt =>
      have hpos : 1 ≤ min blockSize (length - offset) := by
        simp only [blockSize]
        omega
      refine ⟨rfl, hpos, Nat.min_le_left _ _, ih ?_ ?_⟩ <;> dsimp only <;> omega
    case isFalse hge => exact Nat.le_antisymm ho (Nat.not_lt.mp hge)

end Cut

/-- The part of a block that never changes. -/
def Block.span (b : Block) : ℕ × ℕ × ℕ := (b.piece, b.begin, b.length)

@[simp] theorem Block.span_withState (σ : BlockState) (b : Block) :
    (b.withState σ).span = b.span := rfl

@[simp] theorem Block.begin_withState (σ : BlockState) (b : Block) :
    (b.withState σ).begin = b.begin := rfl

@[simp] theorem Block.state_withState (σ : BlockState) (b : Block) :
    (b.withState σ).state = σ := rfl

namespace PieceManager

variable {T : Torrent} {i j c : ℕ} {b : Block}

/-- A fresh block lies in its piece and is pending. -/
theorem of_mem_freshBlocks (h : b ∈ freshBlocks T i) :
    b.piece = u32 i ∧ 0 < b.length ∧ b.length ≤ blockSize ∧
      b.begin + b.length ≤ T.getPieceLength i ∧ b.state = .pending := by
  obtain ⟨h₁, -, h₂⟩ := of_mem_cutBlocks h
  exact ⟨h₁, h₂⟩

theorem nodup_begin_freshBlocks : ((freshBlocks T i).map Block.begin).Nodup :=
  nodup_begin_cutBlocks

/-- Every byte of a piece lies in one of its fresh blocks. -/
theorem exists_mem_freshBlocks {k : ℕ} (h : k < T.getPieceLength i) :
    ∃ b ∈ freshBlocks T i, b.begin ≤ k ∧ k < b.begin + b.length :=
  exists_mem_cutBlocks (by omega) (Nat.zero_le k) h

/-- Two fresh blocks that start at different offsets share no byte. -/
theorem disjoint_freshBlocks {b' : Block} {k : ℕ} (hb : b ∈ freshBlocks T i)
    (hb' : b' ∈ freshBlocks T i) (hne : b.begin ≠ b'.begin)
    (hk : b.begin ≤ k ∧ k < b.begin + b.length) : ¬(b'.begin ≤ k ∧ k < b'.begin + b'.length) := by
  have hne' : b ≠ b' := fun h => hne (congrArg Block.begin h)
  have hpair : (freshBlocks T i).Pairwise fun b b' =>
      b.begin + b.length ≤ b'.begin ∨ b'.begin + b'.length ≤ b.begin :=
    pairwise_cutBlocks.imp Or.inl
  have : Std.Symm fun b b' : Block =>
      b.begin + b.length ≤ b'.begin ∨ b'.begin + b'.length ≤ b.begin := ⟨fun _ _ h => h.symm⟩
  rcases hpair.forall hb hb' hne' with h | h <;> omega

theorem freshBlocks_eq_nil_iff : freshBlocks T i = [] ↔ T.getPieceLength i = 0 := by
  constructor
  · intro h
    by_contra hne
    obtain ⟨b, hb, -⟩ := exists_mem_freshBlocks (T := T) (i := i) (Nat.pos_of_ne_zero hne)
    simp [h] at hb
  · intro h
    rw [List.eq_nil_iff_forall_not_mem]
    intro b hb
    have := of_mem_freshBlocks hb
    omega

end PieceManager

/-! ### What every entry satisfies -/

/-- **A sound entry** of `in_progress_` for piece `i`. -/
structure PieceState.Ok (T : Torrent) (i : ℕ) (st : PieceState) : Prop where
  /-- It carries the index of the piece. -/
  index_eq : st.index = u32 i
  /-- It carries the length of the piece. -/
  length_eq : st.length = T.getPieceLength i
  /-- Its blocks are the cut of the piece, up to their states. -/
  spans : st.blocks.map Block.span = (PieceManager.freshBlocks T i).map Block.span
  /-- Its buffer has the length of the piece. -/
  data_length : st.data.length = T.getPieceLength i
  /-- It counts no block that is not received. -/
  received_le : st.blocksReceived ≤ st.blocks.countP (·.state == .received)

namespace PieceState.Ok

variable {T : Torrent} {i : ℕ} {st : PieceState} {b : Block}

theorem nodup_begin (h : st.Ok T i) : (st.blocks.map Block.begin).Nodup := by
  have hb : st.blocks.map Block.begin = (PieceManager.freshBlocks T i).map Block.begin := by
    have h' := congrArg (List.map fun x : ℕ × ℕ × ℕ => x.2.1) h.spans
    rw [List.map_map, List.map_map] at h'
    exact h'
  rw [hb]
  exact PieceManager.nodup_begin_freshBlocks

/-- A block of a sound entry is a fresh block in some state. -/
theorem exists_fresh (h : st.Ok T i) (hb : b ∈ st.blocks) :
    ∃ b₀ ∈ PieceManager.freshBlocks T i, b₀.span = b.span := by
  have hm : b.span ∈ (PieceManager.freshBlocks T i).map Block.span := by
    rw [← h.spans]
    exact List.mem_map_of_mem hb
  exact List.mem_map.mp hm

/-- A fresh block is, in some state, a block of a sound entry. -/
theorem exists_block (h : st.Ok T i) (hb : b ∈ PieceManager.freshBlocks T i) :
    ∃ b' ∈ st.blocks, b'.span = b.span := by
  have hm : b.span ∈ st.blocks.map Block.span := by
    rw [h.spans]
    exact List.mem_map_of_mem hb
  exact List.mem_map.mp hm

theorem blocks_eq_nil_iff (h : st.Ok T i) : st.blocks = [] ↔ T.getPieceLength i = 0 := by
  rw [← PieceManager.freshBlocks_eq_nil_iff, ← List.map_eq_nil_iff (f := Block.span), h.spans,
    List.map_eq_nil_iff]

theorem piece_eq (h : st.Ok T i) (hb : b ∈ st.blocks) : b.piece = u32 i := by
  obtain ⟨b₀, hb₀, hs⟩ := h.exists_fresh hb
  rw [← (PieceManager.of_mem_freshBlocks hb₀).1]
  exact (congrArg Prod.fst hs).symm

/-- **A full counter means every block is received.** -/
theorem all_received (h : st.Ok T i) (hc : st.blocksReceived = st.blocks.length) :
    ∀ b ∈ st.blocks, b.state = .received := by
  have hle : st.blocks.countP (·.state == .received) ≤ st.blocks.length := List.countP_le_length
  have heq : st.blocks.countP (·.state == .received) = st.blocks.length := by
    have := h.received_le
    omega
  intro b hb
  simpa using List.countP_eq_length.mp heq b hb

end PieceState.Ok

namespace PieceManager

variable {T : Torrent} {pm : PieceManager T} {i j c : ℕ} {st : PieceState}

/-! ### Entries -/

@[simp] theorem inProgress_put : (pm.put i st).inProgress j =
    if j = i then some st else pm.inProgress j := by
  simp only [put, Function.update_apply]

@[simp] theorem inProgress_erase : (pm.erase i).inProgress j =
    if j = i then none else pm.inProgress j := by
  simp only [erase, Function.update_apply]

@[simp] theorem hasPiece_put : (pm.put i st).hasPiece j = pm.hasPiece j := rfl

@[simp] theorem hasPiece_erase : (pm.erase i).hasPiece j = pm.hasPiece j := rfl

theorem entry_of_inProgress (h : pm.inProgress i = some st) : pm.entry i = st := by
  rw [entry, h, Option.getD_some]

/-- Every entry of the manager is sound. -/
def Ok (pm : PieceManager T) : Prop := ∀ i st, pm.inProgress i = some st → st.Ok T i

theorem ok_init : (init T).Ok := fun _ _ h => nomatch h

theorem Ok.put (h : pm.Ok) (hst : st.Ok T i) : (pm.put i st).Ok := by
  intro j st' hj
  rw [inProgress_put] at hj
  split at hj
  case isTrue hji =>
    cases hj
    exact hji ▸ hst
  case isFalse => exact h j st' hj

theorem Ok.erase (h : pm.Ok) : (pm.erase i).Ok := by
  intro j st' hj
  rw [inProgress_erase] at hj
  split at hj
  case isTrue => cases hj
  case isFalse => exact h j st' hj

variable (T i) in
/-- The entry of a piece nobody has touched yet, once its blocks are cut. -/
def freshState : PieceState where
  index := u32 i
  length := T.getPieceLength i
  blocks := freshBlocks T i
  data := List.replicate (T.getPieceLength i) 0

theorem ok_freshState : (freshState T i).Ok T i where
  index_eq := rfl
  length_eq := rfl
  spans := rfl
  data_length := List.length_replicate
  received_le := Nat.zero_le _

/-- The entry of piece `i` once `init_piece_state` has been called on it. -/
def touched (pm : PieceManager T) (i : ℕ) : PieceState :=
  (pm.inProgress i).getD (freshState T i)

theorem touched_of_inProgress (h : pm.inProgress i = some st) : pm.touched i = st := by
  rw [touched, h, Option.getD_some]

theorem touched_of_none (h : pm.inProgress i = none) : pm.touched i = freshState T i := by
  rw [touched, h, Option.getD_none]

theorem Ok.touched (h : pm.Ok) (i : ℕ) : (pm.touched i).Ok T i := by
  rcases hi : pm.inProgress i with _ | st
  · rw [touched_of_none hi]
    exact ok_freshState
  · rw [touched_of_inProgress hi]
    exact h i st hi

@[simp] theorem put_put (st' : PieceState) : (pm.put i st).put i st' = pm.put i st' := by
  simp [put]

theorem put_self (h : pm.inProgress i = some st) : pm.put i st = pm := by
  rw [put, ← h, Function.update_eq_self]

@[simp] theorem entry_put : (pm.put i st).entry i = st := by
  simp [entry]

@[simp] theorem touched_put : (pm.put i st).touched i = st := by
  simp [touched]

/-- **What `init_piece_state` does**: the piece now has an entry, and an entry that
was there is left alone. A piece of length zero is cut again every time, to no
effect. -/
theorem initPieceState_eq (h : pm.Ok) : pm.initPieceState i = pm.put i (pm.touched i) := by
  rcases hi : pm.inProgress i with _ | st
  · rw [touched_of_none hi, initPieceState]
    simp [entry, hi, freshState, resize]
  · have hok := h i st hi
    rw [touched_of_inProgress hi, put_self hi, initPieceState, entry_of_inProgress hi]
    by_cases hb : st.blocks = []
    · have hl : T.getPieceLength i = 0 := hok.blocks_eq_nil_iff.mp hb
      have hd : st.data = [] := List.eq_nil_of_length_eq_zero (hok.data_length.trans hl)
      have hst : st = { st with
          index := u32 i
          length := T.getPieceLength i
          data := resize st.data (T.getPieceLength i)
          blocks := freshBlocks T i } := by
        have hidx := hok.index_eq
        have hlen := hok.length_eq.trans hl
        rw [freshBlocks_eq_nil_iff.mpr hl, hl, hd]
        cases st
        simp_all [resize]
      rw [if_neg (by simpa using hb), ← hst, put_self hi]
    · rw [if_pos hb]

end PieceManager

/-! ### The state of one block -/

/-- The state of the block that starts at `c`, if one does. -/
def PieceState.stateAt (st : PieceState) (c : ℕ) : Option BlockState :=
  (st.blocks.find? (·.begin == c)).map Block.state

namespace PieceState

variable {T : Torrent} {i c : ℕ} {st : PieceState} {b : Block} {σ : BlockState}

/-- A block in the list is the block at its offset. -/
theorem Ok.stateAt_begin (h : st.Ok T i) (hb : b ∈ st.blocks) :
    st.stateAt b.begin = some b.state := by
  rw [stateAt, List.find?_key_eq_some h.nodup_begin hb, Option.map_some]

theorem exists_of_stateAt (h : st.stateAt c = some σ) :
    ∃ b ∈ st.blocks, b.begin = c ∧ b.state = σ := by
  obtain ⟨b, hb, hs⟩ := Option.map_eq_some_iff.mp h
  exact ⟨b, List.mem_of_find?_eq_some hb, by simpa using List.find?_some hb, hs⟩

/-- **Marking the first match of a search**: only the block it stops at changes. -/
theorem Ok.stateAt_mark (h : st.Ok T i) {p : Block → Bool} (hb : st.blocks.find? p = some b)
    (σ : BlockState) {st' : PieceState}
    (hst : st'.blocks = st.blocks.modifyFirst p (Block.withState σ)) (c : ℕ) :
    st'.stateAt c = if b.begin = c then some σ else st.stateAt c := by
  rw [stateAt, stateAt, hst,
    List.find?_modifyFirst hb h.nodup_begin (fun x => Block.begin_withState σ x)]
  split <;> rfl

/-- Marking a block keeps the entry sound, as long as the counter follows. -/
theorem Ok.mark (h : st.Ok T i) {p : Block → Bool} {st' : PieceState}
    (hst : st'.blocks = st.blocks.modifyFirst p (Block.withState σ))
    (hi : st'.index = st.index) (hl : st'.length = st.length)
    (hd : st'.data.length = st.data.length)
    (hr : st'.blocksReceived ≤ st'.blocks.countP (·.state == .received)) : st'.Ok T i where
  index_eq := hi.trans h.index_eq
  length_eq := hl.trans h.length_eq
  spans := by rw [hst, List.map_modifyFirst (Block.span_withState σ), h.spans]
  data_length := hd.trans h.data_length
  received_le := hr

end PieceState

end TransferEngine
