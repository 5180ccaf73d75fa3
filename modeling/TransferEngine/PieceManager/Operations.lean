import TransferEngine.PieceManager.Blocks

/-!
# What each operation of the piece manager does

One lemma per operation, stated for a manager all of whose entries are sound
(`TransferEngine.PieceManager.Ok`): which entry it writes, what becomes of the state of
each block, and that the entries stay sound. Callers use these and never unfold an
operation.
-/

namespace TransferEngine

namespace PieceState

variable {T : Torrent} {i c d : ℕ} {st : PieceState} {x : List UInt8}

/-! ### Moving a block between pending and requested -/

/-- The number of received blocks after a block that was not received is marked. -/
theorem countP_mark {l : List Block} {b : Block} {p : Block → Bool} {σ : BlockState}
    (hb : l.find? p = some b) (hs : b.state ≠ .received) :
    (l.modifyFirst p (Block.withState σ)).countP (·.state == .received) =
      l.countP (·.state == .received) + if σ = .received then 1 else 0 := by
  have hcount := List.countP_modifyFirst (q := (·.state == .received))
    (f := Block.withState σ) hb
  simpa [hs] using hcount

/-- `st'` is the entry `st` with the block at `c` now in state `σ` and nothing else
changed; the block was not received and is not received now. -/
structure Marks (T : Torrent) (i : ℕ) (st st' : PieceState) (c : ℕ) (σ : BlockState) :
    Prop where
  /-- The new entry is sound. -/
  ok : st'.Ok T i
  /-- The bytes are the same. -/
  data : st'.data = st.data
  /-- The counter is the same. -/
  blocksReceived : st'.blocksReceived = st.blocksReceived
  /-- As many blocks are received. -/
  countP : st'.blocks.countP (·.state == .received) = st.blocks.countP (·.state == .received)
  /-- The one block that changed. -/
  stateAt : ∀ d, st'.stateAt d = if c = d then some σ else st.stateAt d

/-- Marking the first match of a search, when neither its old state nor its new one is
`received`. -/
theorem Ok.marks (h : st.Ok T i) {p : Block → Bool} {b : Block} {σ : BlockState}
    (hb : st.blocks.find? p = some b) (hs : b.state ≠ .received) (hσ : σ ≠ .received) :
    Marks T i st { st with blocks := st.blocks.modifyFirst p (Block.withState σ) } b.begin σ := by
  have hcount : (st.blocks.modifyFirst p (Block.withState σ)).countP (·.state == .received) =
      st.blocks.countP (·.state == .received) := by
    rw [countP_mark hb hs, if_neg hσ, Nat.add_zero]
  refine ⟨h.mark rfl rfl rfl rfl ?_, rfl, rfl, hcount, h.stateAt_mark hb σ rfl⟩
  dsimp only
  rw [hcount]
  exact h.received_le

/-! ### Storing a block in an entry -/

/-- **The three outcomes of storing a block**: no block starts there or it is already
received, and nothing happens; the bytes fit, and the block is stored and counted;
or they do not, and the block is marked received but neither stored nor counted. -/
theorem storeBlock_cases (st : PieceState) (c : ℕ) (x : List UInt8) :
    (st.storeBlock c x = st ∧ (st.stateAt c = none ∨ st.stateAt c = some .received)) ∨
    ((∃ b, st.blocks.find? (·.begin == c) = some b ∧ b.state ≠ .received) ∧
      (st.storeBlock c x).blocks =
        st.blocks.modifyFirst (·.begin == c) (Block.withState .received) ∧
      (st.storeBlock c x).index = st.index ∧ (st.storeBlock c x).length = st.length ∧
      ((c + x.length ≤ st.data.length ∧ (st.storeBlock c x).data = st.data.overwrite c x ∧
          (st.storeBlock c x).blocksReceived = st.blocksReceived + 1) ∨
        (st.data.length < c + x.length ∧ (st.storeBlock c x).data = st.data ∧
          (st.storeBlock c x).blocksReceived = st.blocksReceived))) := by
  rcases hf : st.blocks.find? (·.begin == c) with _ | b
  · refine Or.inl ⟨?_, Or.inl ?_⟩
    · rw [storeBlock, hf]
    · rw [stateAt, hf, Option.map_none]
  · by_cases hs : b.state = .received
    · refine Or.inl ⟨?_, Or.inr ?_⟩
      · rw [storeBlock, hf]
        simp [hs]
      · rw [stateAt, hf, Option.map_some, hs]
    · refine Or.inr ⟨⟨b, hf, hs⟩, ?_⟩
      rcases Nat.lt_or_ge st.data.length (c + x.length) with hlt | hge
      · simp [storeBlock, hf, hs, Nat.not_le.mpr hlt, hlt]
      · simp [storeBlock, hf, hs, hge]

/-- Storing a block keeps the buffer's length. -/
theorem length_data_storeBlock : (st.storeBlock c x).data.length = st.data.length := by
  rcases storeBlock_cases st c x with ⟨h, -⟩ | ⟨-, -, -, -, ⟨hle, h, -⟩ | ⟨-, h, -⟩⟩
  · rw [h]
  · rw [h, List.length_overwrite hle]
  · rw [h]

/-- **The state of a block after one is stored.** -/
theorem Ok.stateAt_storeBlock (h : st.Ok T i) : (st.storeBlock c x).stateAt d =
    if d = c ∧ (st.stateAt c).isSome then some .received else st.stateAt d := by
  rcases storeBlock_cases st c x with ⟨hs, hn | hr⟩ | ⟨⟨b, hb, -⟩, hbl, -⟩
  · rw [hs, hn, if_neg (by simp)]
  · rw [hs]
    split
    case isTrue hd => rw [hd.1, hr]
    case isFalse => rfl
  · have hc : b.begin = c := by simpa using List.find?_some hb
    have hsome : (st.stateAt c).isSome := by simp [stateAt, hb]
    rw [h.stateAt_mark hb .received hbl, hc]
    by_cases hd : c = d
    · rw [if_pos hd, if_pos ⟨hd.symm, hsome⟩]
    · rw [if_neg hd, if_neg fun hc' => hd hc'.1.symm]

/-- Storing a block keeps the entry sound. -/
theorem Ok.storeBlock (h : st.Ok T i) : (st.storeBlock c x).Ok T i := by
  rcases storeBlock_cases st c x with ⟨hs, -⟩ | ⟨⟨b, hb, hne⟩, hbl, hi, hl, hdata⟩
  · rw [hs]
    exact h
  · refine h.mark hbl hi hl length_data_storeBlock ?_
    have hle := h.received_le
    rw [hbl, countP_mark hb hne, if_pos rfl]
    rcases hdata with ⟨-, -, hr⟩ | ⟨-, -, hr⟩ <;> omega

/-- **Reading the buffer after a block is stored**: the bytes of the block where it
was laid, the old ones elsewhere. -/
theorem getElem?_data_storeBlock {k : ℕ} (hk : ¬(c ≤ k ∧ k < c + x.length)) :
    (st.storeBlock c x).data[k]? = st.data[k]? := by
  rcases storeBlock_cases st c x with ⟨h, -⟩ | ⟨-, -, -, -, ⟨hle, h, -⟩ | ⟨-, h, -⟩⟩
  · rw [h]
  · rw [h, List.getElem?_overwrite hle, if_neg hk]
  · rw [h]

end PieceState

namespace PieceManager

variable {T : Torrent} {pm pm' : PieceManager T} {i j c d : ℕ} {b : Block} {x : List UInt8}
  {st : PieceState} {σ : BlockState}

/-- The state of the block of piece `i` that starts at `c`, if the piece is in
progress and a block does. -/
def blockState (pm : PieceManager T) (i c : ℕ) : Option BlockState :=
  (pm.inProgress i).bind (·.stateAt c)

theorem blockState_of_inProgress (h : pm.inProgress i = some st) :
    pm.blockState i c = st.stateAt c := by
  rw [blockState, h, Option.bind_some]

theorem blockState_of_none (h : pm.inProgress i = none) : pm.blockState i c = none := by
  rw [blockState, h, Option.bind_none]

@[simp] theorem blockState_put : (pm.put i st).blockState j c =
    if j = i then st.stateAt c else pm.blockState j c := by
  rw [blockState, inProgress_put]
  split <;> rfl

@[simp] theorem blockState_erase : (pm.erase i).blockState j c =
    if j = i then none else pm.blockState j c := by
  rw [blockState, inProgress_erase]
  split <;> rfl

/-- A block of a piece nobody has touched is pending. -/
theorem stateAt_touched (pm : PieceManager T) (i c : ℕ) :
    (pm.touched i).stateAt c = pm.blockState i c ∨
      (pm.inProgress i = none ∧
        ((pm.touched i).stateAt c = none ∨ (pm.touched i).stateAt c = some .pending)) := by
  rcases hi : pm.inProgress i with _ | st
  · refine Or.inr ⟨rfl, ?_⟩
    rw [touched_of_none hi]
    rcases hs : (freshState T i).stateAt c with _ | σ
    · exact Or.inl rfl
    · obtain ⟨b, hb, -, rfl⟩ := PieceState.exists_of_stateAt hs
      exact Or.inr (congrArg some (of_mem_freshBlocks hb).2.2.2.2)
  · exact Or.inl (by rw [touched_of_inProgress hi, blockState_of_inProgress hi])

/-- Once touched, a block is requested or received only if it was. -/
theorem blockState_of_stateAt_touched (hσ : σ ≠ .pending)
    (h : (pm.touched i).stateAt c = some σ) : pm.blockState i c = some σ := by
  rcases stateAt_touched pm i c with he | ⟨-, hn | hp⟩
  · rw [← he, h]
  · rw [hn] at h
    cases h
  · rw [hp] at h
    exact absurd (Option.some.inj h).symm hσ

/-- Touching a piece keeps the state of a block it has. -/
theorem stateAt_touched_of_blockState (h : pm.blockState i c = some σ) :
    (pm.touched i).stateAt c = some σ := by
  rcases hi : pm.inProgress i with _ | st
  · rw [blockState_of_none hi] at h
    cases h
  · rw [touched_of_inProgress hi, ← blockState_of_inProgress hi, h]

/-! ### `get_next_block` -/

/-- **A block handed out** was pending and is now requested; nothing else changes, but
that the piece has been touched. -/
theorem getNextBlock_some (h : pm.Ok) (hg : pm.getNextBlock i = (some b, pm')) :
    pm.hasPiece i = false ∧ (pm.touched i).stateAt b.begin = some .pending ∧
      b.piece = u32 i ∧ b.state = .requested ∧ (∃ b₀ ∈ freshBlocks T i, b₀.span = b.span) ∧
      ∃ st', pm' = pm.put i st' ∧
        PieceState.Marks T i (pm.touched i) st' b.begin .requested := by
  have hok := h.touched i
  rcases hp : pm.hasPiece i with _ | _
  · rw [getNextBlock, hp, initPieceState_eq h] at hg
    simp only [entry_put, Bool.false_eq_true, if_false, put_put] at hg
    split at hg
    case h_1 b₀ hb₀ =>
      simp only [Prod.mk.injEq, Option.some.injEq] at hg
      obtain ⟨rfl, rfl⟩ := hg
      have hmem := List.mem_of_find?_eq_some hb₀
      have hpend : b₀.state = .pending := by simpa using List.find?_some hb₀
      refine ⟨rfl, by rw [Block.begin_withState, hok.stateAt_begin hmem, hpend],
        ?_, rfl, ?_, _, rfl, ?_⟩
      · exact hok.piece_eq (b := b₀) hmem
      · exact hok.exists_fresh (b := b₀) hmem
      · exact hok.marks (b := b₀) hb₀ (by simp [hpend]) (by simp)
    case h_2 => cases hg
  · rw [getNextBlock, hp] at hg
    cases hg

/-- **No block handed out**: the piece is complete, or once touched it has no pending
block. -/
theorem getNextBlock_none (h : pm.Ok) (hg : pm.getNextBlock i = (none, pm')) :
    (pm.hasPiece i = true ∧ pm' = pm) ∨
      (pm.hasPiece i = false ∧ pm' = pm.put i (pm.touched i) ∧
        ∀ b ∈ (pm.touched i).blocks, b.state ≠ .pending) := by
  rcases hp : pm.hasPiece i with _ | _
  · rw [getNextBlock, hp, initPieceState_eq h] at hg
    simp only [entry_put, Bool.false_eq_true, if_false, put_put] at hg
    split at hg
    case h_1 => cases hg
    case h_2 hn =>
      simp only [Prod.mk.injEq, true_and] at hg
      refine Or.inr ⟨rfl, hg.symm, fun b hb hc => ?_⟩
      have := List.find?_eq_none.mp hn b hb
      simp [hc] at this
  · rw [getNextBlock, hp] at hg
    exact Or.inl ⟨rfl, by simpa using hg.symm⟩

/-! ### `block_received` -/

theorem blockReceived_of_hasPiece (hp : pm.hasPiece i = true) :
    pm.blockReceived i c x = (false, pm) := by
  rw [blockReceived, hp, if_pos rfl]

/-- **Receiving a block** writes the entry of its piece. -/
theorem blockReceived_eq (h : pm.Ok) (hp : pm.hasPiece i = false) :
    pm.blockReceived i c x =
      (((pm.touched i).storeBlock c x).blocksReceived ==
          ((pm.touched i).storeBlock c x).blocks.length,
        pm.put i ((pm.touched i).storeBlock c x)) := by
  rw [blockReceived, hp, initPieceState_eq h]
  simp only [Bool.false_eq_true, if_false, entry_put, put_put]

/-- **A completion report** is about a piece not had yet, all of whose blocks are now
received. -/
theorem blockReceived_true (h : pm.Ok) (hr : (pm.blockReceived i c x).1 = true) :
    pm.hasPiece i = false ∧
      ∀ b ∈ ((pm.touched i).storeBlock c x).blocks, b.state = .received := by
  rcases hp : pm.hasPiece i with _ | _
  · rw [blockReceived_eq h hp] at hr
    exact ⟨rfl, (h.touched i).storeBlock.all_received (by simpa using hr)⟩
  · rw [blockReceived_of_hasPiece hp] at hr
    cases hr

theorem inProgress_blockReceived (h : pm.Ok) (hp : pm.hasPiece i = false) :
    (pm.blockReceived i c x).2.inProgress i = some ((pm.touched i).storeBlock c x) := by
  rw [blockReceived_eq h hp]
  simp

/-- What the manager is after a completion report. -/
theorem of_blockReceived_true (h : pm.Ok) (hr : pm.blockReceived i c x = (true, pm')) :
    pm.hasPiece i = false ∧ pm' = pm.put i ((pm.touched i).storeBlock c x) := by
  have hp := (blockReceived_true h (congrArg Prod.fst hr)).1
  rw [blockReceived_eq h hp, Prod.mk.injEq] at hr
  exact ⟨hp, hr.2.symm⟩

/-- **What passes the check**: the bytes of a piece that is reported complete have the
length of the piece and, where the piece has a digest, that digest. -/
theorem of_validatePiece {sha1 : List UInt8 → Digest} {g : Digest} (h : pm.Ok)
    (hr : pm.blockReceived i c x = (true, pm')) (hv : pm'.validatePiece sha1 g i = true)
    (hi : i < T.count) :
    (pm'.getPieceData i).length = T.getPieceLength i ∧
      T.pieceHashes[i]? = some (sha1 (pm'.getPieceData i)) := by
  obtain ⟨-, rfl⟩ := of_blockReceived_true h hr
  have hst : (pm.put i ((pm.touched i).storeBlock c x)).inProgress i =
      some ((pm.touched i).storeBlock c x) := by
    rw [inProgress_put, if_pos rfl]
  have hlt := Torrent.lt_hashes hi
  have hget : T.pieceHashes[i]? = some T.pieceHashes[i] := List.getElem?_eq_getElem hlt
  rw [validatePiece, hst, hget, Option.getD_some, beq_iff_eq] at hv
  rw [getPieceData, hst, hget, hv]
  exact ⟨(h.touched i).storeBlock.data_length, rfl⟩

/-! ### `block_request_failed` -/

/-- **A failed request** makes a requested block pending again and does nothing else. -/
theorem blockRequestFailed_cases (h : pm.Ok) :
    (pm.blockRequestFailed i c = pm ∧ pm.blockState i c ≠ some .requested) ∨
      ∃ st st', pm.inProgress i = some st ∧ st.stateAt c = some .requested ∧
        pm.blockRequestFailed i c = pm.put i st' ∧ PieceState.Marks T i st st' c .pending := by
  rcases hi : pm.inProgress i with _ | st
  · refine Or.inl ⟨by rw [blockRequestFailed, hi], by rw [blockState_of_none hi]; simp⟩
  · have hok := h i st hi
    rcases hf : st.blocks.find? (·.begin == c) with _ | b
    · refine Or.inl ⟨by rw [blockRequestFailed, hi]; simp only [hf], ?_⟩
      rw [blockState_of_inProgress hi, PieceState.stateAt, hf]
      simp
    · by_cases hs : b.state = .requested
      · have hc : b.begin = c := by simpa using List.find?_some hf
        refine Or.inr ⟨st, { st with
          blocks := st.blocks.modifyFirst (·.begin == c) (Block.withState .pending) }, rfl,
          by rw [PieceState.stateAt, hf, Option.map_some, hs], ?_, ?_⟩
        · rw [blockRequestFailed, hi]
          simp only [hf, hs, if_true]
        · subst hc
          exact hok.marks hf (by simp [hs]) (by simp)
      · refine Or.inl ⟨?_, ?_⟩
        · rw [blockRequestFailed, hi]
          simp only [hf, hs, if_false]
        · rw [blockState_of_inProgress hi, PieceState.stateAt, hf, Option.map_some]
          simpa using hs

/-- The state of a block after a failed request. -/
theorem blockState_blockRequestFailed (h : pm.Ok) :
    (pm.blockRequestFailed i c).blockState j d =
      if j = i ∧ d = c ∧ pm.blockState i c = some .requested then some .pending
      else pm.blockState j d := by
  rcases blockRequestFailed_cases h (i := i) (c := c) with
    ⟨he, hne⟩ | ⟨st, st', hi, hs, he, hst⟩
  · rw [he, if_neg fun hc => hne hc.2.2]
  · have hr : pm.blockState i c = some .requested := by rw [blockState_of_inProgress hi, hs]
    rw [he, blockState_put, hst.stateAt]
    by_cases hj : j = i
    · subst hj
      by_cases hd : c = d
      · rw [if_pos rfl, if_pos hd, if_pos ⟨rfl, hd.symm, hr⟩]
      · rw [if_pos rfl, if_neg hd, if_neg fun hc => hd hc.2.1.symm, blockState_of_inProgress hi]
    · rw [if_neg hj, if_neg fun hc => hj hc.1]

/-- A failed request starts no piece and ends none. -/
theorem isSome_blockRequestFailed (h : pm.Ok) :
    ((pm.blockRequestFailed i c).inProgress j).isSome = (pm.inProgress j).isSome := by
  rcases blockRequestFailed_cases h (i := i) (c := c) with
    ⟨he, -⟩ | ⟨st, st', hi, -, he, -⟩
  · rw [he]
  · rw [he, inProgress_put]
    split
    case isTrue hj => rw [hj, hi]; rfl
    case isFalse => rfl

/-- A failed request of any piece leaves alone a piece that is not in progress. -/
theorem inProgress_blockRequestFailed_none (h : pm.inProgress i = none) :
    (pm.blockRequestFailed j c).inProgress i = none := by
  rw [blockRequestFailed]
  split
  case h_1 => exact h
  case h_2 st hst =>
    have hij : i ≠ j := by
      rintro rfl
      rw [h] at hst
      cases hst
    split
    case h_1 =>
      split
      case isTrue => rw [inProgress_put, if_neg hij, h]
      case isFalse => exact h
    case h_2 => exact h

@[simp] theorem bitfield_blockRequestFailed :
    (pm.blockRequestFailed i c).bitfield = pm.bitfield := by
  rw [blockRequestFailed]
  repeat' split
  all_goals rfl

/-! ### Soundness of the entries -/

theorem Ok.getNextBlock (h : pm.Ok) : (pm.getNextBlock i).2.Ok := by
  rcases hg : pm.getNextBlock i with ⟨_ | b, pm'⟩
  · rcases getNextBlock_none h hg with ⟨-, rfl⟩ | ⟨-, rfl, -⟩
    · exact h
    · exact h.put (h.touched i)
  · obtain ⟨-, -, -, -, -, st', rfl, hst⟩ := getNextBlock_some h hg
    exact h.put hst.ok

theorem Ok.blockReceived (h : pm.Ok) : (pm.blockReceived i c x).2.Ok := by
  rcases hp : pm.hasPiece i with _ | _
  · rw [blockReceived_eq h hp]
    exact h.put (h.touched i).storeBlock
  · rw [blockReceived_of_hasPiece hp]
    exact h

theorem Ok.of_blockReceived {r : Bool} (h : pm.Ok) (hr : pm.blockReceived i c x = (r, pm')) :
    pm'.Ok := by
  have := h.blockReceived (i := i) (c := c) (x := x)
  rwa [hr] at this

theorem Ok.blockRequestFailed (h : pm.Ok) : (pm.blockRequestFailed i c).Ok := by
  rcases blockRequestFailed_cases h (i := i) (c := c) with
    ⟨he, -⟩ | ⟨st, st', -, -, he, hst⟩
  · rw [he]
    exact h
  · rw [he]
    exact h.put hst.ok

theorem Ok.pieceCompleted (h : pm.Ok) : (pm.pieceCompleted i).Ok := by
  intro j st hj
  refine h.erase (i := i) j st ?_
  exact hj

theorem Ok.pieceFailed (h : pm.Ok) : (pm.pieceFailed i).Ok := h.erase

/-! ### Completed pieces -/

theorem bitfield_of_getNextBlock {r : Option Block} (hg : pm.getNextBlock i = (r, pm')) :
    pm'.bitfield = pm.bitfield := by
  have hsame : (pm.getNextBlock i).2.bitfield = pm.bitfield := by
    rw [PieceManager.getNextBlock]
    simp only [initPieceState]
    repeat' split
    all_goals rfl
  rwa [hg] at hsame

theorem bitfield_of_blockReceived {r : Bool} (hr : pm.blockReceived i c x = (r, pm')) :
    pm'.bitfield = pm.bitfield := by
  have hsame : (pm.blockReceived i c x).2.bitfield = pm.bitfield := by
    rw [PieceManager.blockReceived]
    simp only [initPieceState]
    repeat' split
    all_goals rfl
  rwa [hr] at hsame

theorem hasPiece_getNextBlock (pm : PieceManager T) :
    (pm.getNextBlock i).2.hasPiece j = pm.hasPiece j := by
  rw [hasPiece, bitfield_of_getNextBlock (Prod.eta (pm.getNextBlock i)).symm, hasPiece]

theorem hasPiece_blockReceived (pm : PieceManager T) :
    (pm.blockReceived i c x).2.hasPiece j = pm.hasPiece j := by
  rw [hasPiece, bitfield_of_blockReceived (Prod.eta (pm.blockReceived i c x)).symm, hasPiece]

theorem hasPiece_of_blockReceived {r : Bool} (hr : pm.blockReceived i c x = (r, pm')) :
    pm'.hasPiece j = pm.hasPiece j := by
  rw [hasPiece, bitfield_of_blockReceived hr, hasPiece]

@[simp] theorem hasPiece_blockRequestFailed :
    (pm.blockRequestFailed i c).hasPiece j = pm.hasPiece j := by
  rw [hasPiece, bitfield_blockRequestFailed, hasPiece]

theorem hasPiece_pieceCompleted : (pm.pieceCompleted i).hasPiece j = true ↔
    (i = j ∧ i < T.count) ∨ pm.hasPiece j = true :=
  Bitfield.has_set_true

@[simp] theorem hasPiece_pieceFailed : (pm.pieceFailed i).hasPiece j = pm.hasPiece j := rfl

@[simp] theorem inProgress_pieceCompleted : (pm.pieceCompleted i).inProgress j =
    if j = i then none else pm.inProgress j := by
  rw [pieceCompleted, inProgress_erase]

@[simp] theorem inProgress_pieceFailed : (pm.pieceFailed i).inProgress j =
    if j = i then none else pm.inProgress j :=
  inProgress_erase

end PieceManager

end TransferEngine
