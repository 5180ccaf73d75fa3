import TransferEngine.PieceManager.Assembly
import TransferEngine.PieceManager.Count

/-!
# Delivering blocks

What `block_received` makes of one delivery, and of many.

**One delivery.** The offset and the bytes come from a peer, and nothing compares the
number of bytes with the length of the block: the only bound is the end of the piece. A
delivery is all or nothing (`TransferEngine.PieceManager.AllOrNothing`) exactly when the
block it starts, if it is one that is not received yet, has the length of the bytes
(`TransferEngine.PieceManager.allOrNothing_iff`). Fewer bytes complete the block all the
same, more of them run into the blocks that follow, and too many mark the block and are
dropped.

**Many deliveries.** When the blocks delivered to a piece are the true ones, neither their
order nor repetitions nor the requests in between matter
(`TransferEngine.PieceManager.assembly`): the piece is reported exactly when each of its
blocks has been delivered, and it is then the true content.
-/

namespace TransferEngine

namespace PieceManager

variable {T : Torrent} {pm : PieceManager T} {i j c : ℕ} {x d : List UInt8}

/-! ### Reachable managers -/

/-- One operation, its answer dropped. -/
def perform (pm : PieceManager T) : Op → PieceManager T
  | .getNextBlock i => (pm.getNextBlock i).2
  | .blockReceived i c x => (pm.blockReceived i c x).2
  | .blockRequestFailed i c => pm.blockRequestFailed i c
  | .pieceCompleted i => pm.pieceCompleted i
  | .pieceFailed i => pm.pieceFailed i

/-- The managers that some sequence of calls leads to. -/
inductive Reachable : PieceManager T → Prop
  /-- Nothing was called yet. -/
  | init : Reachable (init T)
  /-- One more operation. -/
  | perform {pm : PieceManager T} (op : Op) : Reachable pm → Reachable (pm.perform op)
  /-- One more piece marked complete from outside. -/
  | markCompleted {pm : PieceManager T} (i : ℕ) : Reachable pm → Reachable (pm.markCompleted i)

theorem Ok.perform (h : pm.Ok) (op : Op) : (pm.perform op).Ok := by
  cases op with
  | getNextBlock i => exact h.getNextBlock
  | blockReceived i c x => exact h.blockReceived
  | blockRequestFailed i c => exact h.blockRequestFailed
  | pieceCompleted i => exact h.pieceCompleted
  | pieceFailed i => exact h.pieceFailed

/-- The entries of a reachable manager are sound. -/
theorem Reachable.ok (h : pm.Reachable) : pm.Ok := by
  induction h with
  | init => exact ok_init
  | perform op _ ih => exact ih.perform op
  | markCompleted i _ ih => exact ih

/-! ### One delivery -/

/-- **The block `b` takes in `x`**: it starts at `c`, was not received and has the length of
`x`; now it is received and counted, its bytes are `x`, and nothing else is different. -/
structure Takes (st st' : PieceState) (c : ℕ) (x : List UInt8) (b : Block) : Prop where
  /-- It is a block of the piece. -/
  mem : b ∈ st.blocks
  /-- It starts at `c`. -/
  begin_eq : b.begin = c
  /-- It was not received. -/
  not_received : b.state ≠ .received
  /-- It is as long as the bytes. -/
  length_eq : x.length = b.length
  /-- It is received now. -/
  received : st'.stateAt c = some .received
  /-- The blocks are where they were. -/
  spans : st'.blocks.map Block.span = st.blocks.map Block.span
  /-- The other blocks are in the state they were in. -/
  others : ∀ c', c' ≠ c → st'.stateAt c' = st.stateAt c'
  /-- It is counted. -/
  counted : st'.blocksReceived = st.blocksReceived + 1
  /-- Its bytes are the ones delivered. -/
  inside : ∀ k, c ≤ k → k < c + b.length → st'.data[k]? = x[k - c]?
  /-- The other bytes are the same. -/
  outside : ∀ k, ¬(c ≤ k ∧ k < c + b.length) → st'.data[k]? = st.data[k]?

/-- **All or nothing**: `pm'` differs from `pm` in the blocks, the counter and the bytes of
piece `i` not at all, or in that the block at `c` has taken in `x`. No byte of another block
is altered and no other piece. A piece that has no entry is read as the one
`init_piece_state` makes for it. -/
def AllOrNothing (pm pm' : PieceManager T) (i c : ℕ) (x : List UInt8) : Prop :=
  (((pm'.touched i).blocks = (pm.touched i).blocks ∧
        (pm'.touched i).blocksReceived = (pm.touched i).blocksReceived ∧
        (pm'.touched i).data = (pm.touched i).data) ∨
      ∃ b, Takes (pm.touched i) (pm'.touched i) c x b) ∧
    (∀ b ∈ (pm.touched i).blocks, b.begin ≠ c → ∀ k, b.begin ≤ k → k < b.begin + b.length →
      (pm'.touched i).data[k]? = (pm.touched i).data[k]?) ∧
    pm'.bitfield = pm.bitfield ∧ ∀ j, j ≠ i → pm'.inProgress j = pm.inProgress j

/-- The bytes of one block of a sound entry are not those of another. -/
theorem disjoint_blocks {st : PieceState} (h : st.Ok T i) {b b' : Block} (hb : b ∈ st.blocks)
    (hb' : b' ∈ st.blocks) (hne : b.begin ≠ b'.begin) {k : ℕ}
    (hk : b.begin ≤ k ∧ k < b.begin + b.length) : ¬(b'.begin ≤ k ∧ k < b'.begin + b'.length) := by
  obtain ⟨b₀, hb₀, hs⟩ := h.exists_fresh hb
  obtain ⟨b₀', hb₀', hs'⟩ := h.exists_fresh hb'
  simp only [Block.span, Prod.mk.injEq] at hs hs'
  have := disjoint_freshBlocks (k := k) hb₀ hb₀' (by omega) (by omega)
  omega

/-- A block of a sound entry ends within the buffer. -/
theorem end_le_data {st : PieceState} (h : st.Ok T i) {b : Block} (hb : b ∈ st.blocks) :
    b.begin + b.length ≤ st.data.length := by
  obtain ⟨b₀, hb₀, hs⟩ := h.exists_fresh hb
  obtain ⟨-, -, -, hin, -⟩ := of_mem_freshBlocks hb₀
  simp only [Block.span, Prod.mk.injEq] at hs
  rw [h.data_length]
  omega

/-- **A delivery of the right length is taken in** by the block it starts. -/
theorem takes_storeBlock {st : PieceState} (h : st.Ok T i) {b : Block} (hb : b ∈ st.blocks)
    (hc : b.begin = c) (hs : b.state ≠ .received) (hx : x.length = b.length) :
    Takes st (st.storeBlock c x) c x b := by
  have hat : st.stateAt c = some b.state := by rw [← hc, h.stateAt_begin hb]
  have hfit : c + x.length ≤ st.data.length := by
    rw [hx, ← hc]
    exact end_le_data h hb
  rcases PieceState.storeBlock_cases st c x with
    ⟨-, hn | hr⟩ | ⟨⟨b', hb', -⟩, hbl, -, -, ⟨-, hdata, hcount⟩ | ⟨hlt, -⟩⟩
  · rw [hat] at hn
    cases hn
  · rw [hat] at hr
    exact absurd (Option.some.inj hr) hs
  · refine ⟨hb, hc, hs, hx, ?_, ?_, ?_, hcount, ?_, ?_⟩
    · rw [h.stateAt_storeBlock, if_pos ⟨rfl, by rw [hat]; rfl⟩]
    · rw [hbl, List.map_modifyFirst (Block.span_withState .received)]
    · intro c' hne
      rw [h.stateAt_storeBlock, if_neg fun hcon => hne hcon.1]
    · intro k hk hk'
      rw [hdata, List.getElem?_overwrite hfit, if_pos ⟨hk, by omega⟩]
    · intro k hk
      exact PieceState.getElem?_data_storeBlock (by rwa [hx])
  · omega

/-- **When a delivery is all or nothing.** In every reachable manager, for every piece that is
not complete, every offset and all bytes: `block_received` either leaves the piece as it is or
lets the block at the offset take in the bytes, exactly when that block, if there is one and
it is not received yet, has the length of the bytes. -/
theorem allOrNothing_iff (h : pm.Reachable) (hp : pm.hasPiece i = false) :
    AllOrNothing pm (pm.blockReceived i c x).2 i c x ↔
      ∀ b ∈ (pm.touched i).blocks, b.begin = c → b.state ≠ .received → x.length = b.length := by
  have hok := h.ok.touched i
  have htouched : (pm.blockReceived i c x).2.touched i = (pm.touched i).storeBlock c x :=
    touched_of_inProgress (inProgress_blockReceived h.ok hp)
  rw [AllOrNothing, htouched, blockReceived_eq h.ok hp]
  constructor
  · rintro ⟨hall, -⟩ b hb hc hs
    have hat : (pm.touched i).stateAt c = some b.state := by rw [← hc, hok.stateAt_begin hb]
    rcases hall with ⟨hbl, -⟩ | ⟨b', hb'⟩
    · -- the block is marked, so the blocks are not the same
      have hnow := hok.stateAt_storeBlock (c := c) (d := c) (x := x)
      rw [PieceState.stateAt, hbl, ← PieceState.stateAt, hat, if_pos ⟨rfl, rfl⟩] at hnow
      exact absurd (Option.some.inj hnow) hs
    · have hbb : b' = b :=
        List.inj_on_of_nodup_map hok.nodup_begin hb'.mem hb (hb'.begin_eq.trans hc.symm)
      rw [← hbb]
      exact hb'.length_eq
  · intro hlen
    refine ⟨?_, ?_, rfl, fun j hj => by rw [inProgress_put, if_neg hj]⟩
    · rcases PieceState.storeBlock_cases (pm.touched i) c x with ⟨hst, -⟩ | ⟨⟨b, hb, hs⟩, -⟩
      · rw [hst]
        exact Or.inl ⟨rfl, rfl, rfl⟩
      · have hmem := List.mem_of_find?_eq_some hb
        have hc : b.begin = c := by simpa using List.find?_some hb
        exact Or.inr ⟨b, takes_storeBlock hok hmem hc hs (hlen b hmem hc hs)⟩
    · intro b hb hne k hk hk'
      rcases PieceState.storeBlock_cases (pm.touched i) c x with ⟨hst, -⟩ | ⟨⟨b', hb', hs⟩, -⟩
      · rw [hst]
      -- the bytes go to the block at the offset, which shares none with this one
      · have hmem := List.mem_of_find?_eq_some hb'
        have hc : b'.begin = c := by simpa using List.find?_some hb'
        refine PieceState.getElem?_data_storeBlock ?_
        rw [hlen b' hmem hc hs, ← hc]
        rw [← hc] at hne
        exact disjoint_blocks hok hb hmem hne ⟨hk, hk'⟩

/-- The byte `a` for the block of the one-byte torrent is taken in. -/
theorem allOrNothing_oneByte :
    AllOrNothing (init Torrent.oneByte) ((init Torrent.oneByte).blockReceived 0 0 [0x61]).2 0 0
      [0x61] :=
  (allOrNothing_iff .init (by decide)).mpr (by decide)

/-- **Two bytes for a block of one** mark the block and are not stored. -/
theorem not_allOrNothing_oversized :
    ¬AllOrNothing (init Torrent.oneByte)
      ((init Torrent.oneByte).blockReceived 0 0 [0x61, 0x61]).2 0 0 [0x61, 0x61] := by
  rintro ⟨⟨hbl, -⟩ | ⟨b, hb⟩, -⟩
  · exact absurd hbl (by decide)
  · exact absurd hb.counted (by decide)

/-! ### Many deliveries -/

/-- An operation of an assembly of piece `i` with content `d`: anything on other pieces;
on piece `i` a request, a failed request or the delivery of a true block. -/
def Assembles (T : Torrent) (i : ℕ) (d : List UInt8) : Op → Prop
  | .getNextBlock _ => True
  | .blockReceived j c x => j = i → TrueBlock T i d c x
  | .blockRequestFailed _ _ => True
  | .pieceCompleted j => j ≠ i
  | .pieceFailed j => j ≠ i

/-- An operation on another piece leaves the entry of a piece alone. -/
theorem inProgress_perform_of_ne (h : pm.Ok) {op : Op} (hop : op.piece ≠ i) :
    (pm.perform op).inProgress i = pm.inProgress i := by
  cases op with
  | getNextBlock j =>
    have hij : i ≠ j := Ne.symm hop
    rcases hg : pm.getNextBlock j with ⟨_ | b, pm'⟩
    · rcases getNextBlock_none h hg with ⟨-, rfl⟩ | ⟨-, rfl, -⟩
      · rw [perform, hg]
      · rw [perform, hg, inProgress_put, if_neg hij]
    · obtain ⟨-, -, -, -, -, st', rfl, -⟩ := getNextBlock_some h hg
      rw [perform, hg, inProgress_put, if_neg hij]
  | blockReceived j c x =>
    have hij : i ≠ j := Ne.symm hop
    rcases hp : pm.hasPiece j with _ | _
    · rw [perform, blockReceived_eq h hp, inProgress_put, if_neg hij]
    · rw [perform, blockReceived_of_hasPiece hp]
  | blockRequestFailed j c =>
    have hij : i ≠ j := Ne.symm hop
    rcases blockRequestFailed_cases h (i := j) (c := c) with ⟨he, -⟩ | ⟨st, st', -, -, he, -⟩
    · rw [perform, he]
    · rw [perform, he, inProgress_put, if_neg hij]
  | pieceCompleted j =>
    have hij : i ≠ j := Ne.symm hop
    rw [perform, inProgress_pieceCompleted, if_neg hij]
  | pieceFailed j =>
    have hij : i ≠ j := Ne.symm hop
    rw [perform, inProgress_pieceFailed, if_neg hij]

/-- An operation of an assembly does not complete the piece. -/
theorem hasPiece_perform {op : Op} (hop : Assembles T i d op) (hp : pm.hasPiece i = false) :
    (pm.perform op).hasPiece i = false := by
  cases op with
  | getNextBlock j => rw [perform, hasPiece_getNextBlock, hp]
  | blockReceived j c x => rw [perform, hasPiece_blockReceived, hp]
  | blockRequestFailed j c => rw [perform, hasPiece_blockRequestFailed, hp]
  | pieceCompleted j =>
    rw [← Bool.not_eq_true, perform, hasPiece_pieceCompleted]
    rintro (⟨hj, -⟩ | hhas)
    · exact hop hj
    · rw [hp] at hhas
      cases hhas
  | pieceFailed j => rw [perform, hasPiece_pieceFailed, hp]

/-- One of the operations delivers the block of piece `i` that starts at `c`. -/
def Delivered (i c : ℕ) (l : List Op) : Prop := ∃ x, Op.blockReceived i c x ∈ l

/-- **An entry under assembly**: its counter is exact, its received blocks hold `d`, and
they are the ones delivered. -/
structure Assembling (d : List UInt8) (i : ℕ) (l : List Op) (st : PieceState) : Prop where
  /-- The counter is exact. -/
  count : st.blocksReceived = st.blocks.countP (·.state == .received)
  /-- The received blocks hold the content. -/
  holds : st.Holds d
  /-- The received blocks are the delivered ones. -/
  received : ∀ c, st.stateAt c = some .received ↔ Delivered i c l

variable {st st' : PieceState} {l : List Op} {op : Op} {σ : BlockState}

theorem delivered_snoc : Delivered i c (l ++ [op]) ↔
    Delivered i c l ∨ ∃ x, op = .blockReceived i c x := by
  simp only [Delivered, List.mem_append, List.mem_singleton, exists_or, eq_comm]

/-- An operation that delivers nothing to the piece leaves what was delivered. -/
theorem Assembling.snoc (h : Assembling d i l st) (hop : ∀ c x, op ≠ .blockReceived i c x) :
    Assembling d i (l ++ [op]) st := by
  refine ⟨h.count, h.holds, fun c => ?_⟩
  rw [h.received, delivered_snoc, or_iff_left]
  rintro ⟨x, rfl⟩
  exact hop c x rfl

/-- Moving a block between pending and requested changes nothing for the assembly. -/
theorem Assembling.marks (h : Assembling d i l st) (hok : st.Ok T i)
    (hm : PieceState.Marks T i st st' c σ) (hσ : σ ≠ .received)
    (hs : st.stateAt c ≠ some .received) : Assembling d i l st' := by
  refine ⟨count_marks hm h.count, h.holds.marks hok hm hσ, fun c' => ?_⟩
  rw [← h.received, hm.stateAt]
  split
  case isTrue hc =>
    subst hc
    exact iff_of_false (by simpa using hσ) hs
  case isFalse => rfl

/-- **Storing a true block** in an entry under assembly. -/
theorem Assembling.storeBlock (h : Assembling d i l st) (hok : st.Ok T i)
    (hd : d.length = T.getPieceLength i) (hx : TrueBlock T i d c x) :
    Assembling d i (l ++ [.blockReceived i c x]) (st.storeBlock c x) := by
  obtain ⟨b₀, hb₀, hc, -, -, hfit⟩ := hx.fits hd
  rw [← hok.data_length] at hfit
  obtain ⟨b, hb, hspan⟩ := hok.exists_block hb₀
  have hbeg : b.begin = b₀.begin := congrArg (fun k => k.2.1) hspan
  have hat : st.stateAt c = some b.state := by rw [← hc, ← hbeg, hok.stateAt_begin hb]
  refine ⟨count_storeBlock h.count fun _ _ _ => hfit, h.holds.storeBlock hok hd hx, fun c' => ?_⟩
  rw [hok.stateAt_storeBlock, delivered_snoc, ← h.received, hat]
  by_cases hc' : c' = c
  · subst hc'
    rw [if_pos ⟨rfl, rfl⟩]
    exact iff_of_true rfl (Or.inr ⟨x, rfl⟩)
  · -- nothing was delivered at another offset
    rw [if_neg fun hcon => hc' hcon.1, or_iff_left]
    rintro ⟨x', hx'⟩
    cases hx'
    exact hc' rfl

/-- **One operation of an assembly.** -/
theorem Assembling.perform (h : Assembling d i l (pm.touched i)) (hok : pm.Ok)
    (hp : pm.hasPiece i = false) (hd : d.length = T.getPieceLength i)
    (hop : Assembles T i d op) : Assembling d i (l ++ [op]) ((pm.perform op).touched i) := by
  -- what happens to other pieces does not concern this one
  by_cases hi : op.piece = i
  swap
  · have hsame : (pm.perform op).touched i = pm.touched i := by
      rw [touched, touched, inProgress_perform_of_ne hok hi]
    rw [hsame]
    refine h.snoc fun c x hc => hi ?_
    rw [hc, Op.piece]
  cases op with
  | getNextBlock j =>
    obtain rfl : j = i := hi
    refine Assembling.snoc ?_ (by simp)
    rcases hg : pm.getNextBlock j with ⟨_ | b, pm'⟩
    · rcases getNextBlock_none hok hg with ⟨-, rfl⟩ | ⟨-, rfl, -⟩
      · simpa only [PieceManager.perform, hg] using h
      · simpa only [PieceManager.perform, hg, touched_put] using h
    · obtain ⟨-, hpend, -, -, -, st', rfl, hst⟩ := getNextBlock_some hok hg
      simp only [PieceManager.perform, hg, touched_put]
      exact h.marks (hok.touched j) hst (by simp) (by rw [hpend]; simp)
  | blockReceived j c x =>
    obtain rfl : j = i := hi
    rw [PieceManager.perform, touched_of_inProgress (inProgress_blockReceived hok hp)]
    exact h.storeBlock (hok.touched j) hd (hop rfl)
  | blockRequestFailed j c =>
    obtain rfl : j = i := hi
    refine Assembling.snoc ?_ (by simp)
    rcases blockRequestFailed_cases hok (i := j) (c := c) with
      ⟨he, -⟩ | ⟨st, st', hst, hs, he, hm⟩
    · rw [PieceManager.perform, he]
      exact h
    · rw [touched_of_inProgress hst] at h
      rw [PieceManager.perform, he, touched_put]
      exact h.marks (hok j st hst) hm (by simp) (by rw [hs]; simp)
  | pieceCompleted j => exact absurd hi hop
  | pieceFailed j => exact absurd hi hop

/-- Every block is received exactly when every fresh block was delivered. -/
theorem Assembling.all_received_iff (h : Assembling d i l st) (hok : st.Ok T i) :
    (∀ b ∈ st.blocks, b.state = .received) ↔ ∀ b ∈ freshBlocks T i, Delivered i b.begin l := by
  constructor
  · intro hall b hb
    obtain ⟨b', hb', hspan⟩ := hok.exists_block hb
    have hbeg : b'.begin = b.begin := congrArg (fun k => k.2.1) hspan
    rw [← hbeg, ← h.received, hok.stateAt_begin hb', hall b' hb']
  · intro hall b hb
    obtain ⟨b₀, hb₀, hspan⟩ := hok.exists_fresh hb
    have hbeg : b₀.begin = b.begin := congrArg (fun k => k.2.1) hspan
    have hrec := (h.received b.begin).mpr (hbeg ▸ hall b₀ hb₀)
    rw [hok.stateAt_begin hb] at hrec
    exact Option.some.inj hrec

/-- What every operation of an assembly keeps. -/
structure AssemblyInv (d : List UInt8) (i : ℕ) (l : List Op) (pm : PieceManager T) : Prop where
  /-- The entries are sound. -/
  ok : pm.Ok
  /-- The piece is not complete. -/
  hasPiece : pm.hasPiece i = false
  /-- The piece is under assembly. -/
  assembling : Assembling d i l (pm.touched i)

/-- **A run of an assembly**, from a manager that has no entry for the piece. -/
theorem assemblyInv_foldl (hok : pm.Ok) (hnone : pm.inProgress i = none)
    (hp : pm.hasPiece i = false) (hd : d.length = T.getPieceLength i)
    (hl : ∀ op ∈ l, Assembles T i d op) : AssemblyInv d i l (l.foldl perform pm) := by
  induction l using List.reverseRecOn with
  | nil =>
    refine ⟨hok, hp, ?_⟩
    rw [List.foldl_nil, touched_of_none hnone]
    refine ⟨count_freshState, PieceState.holds_freshState, fun c => iff_of_false ?_ ?_⟩
    · intro hc
      obtain ⟨b, hb, -, hs⟩ := PieceState.exists_of_stateAt hc
      rw [(of_mem_freshBlocks hb).2.2.2.2] at hs
      cases hs
    · simp [Delivered]
  | append_singleton l op ih =>
    have hprev := ih fun op' h' => hl op' (List.mem_append_left _ h')
    have hop := hl op (List.mem_append_right _ (List.mem_singleton_self op))
    rw [List.foldl_append, List.foldl_cons, List.foldl_nil]
    exact ⟨hprev.ok.perform op, hasPiece_perform hop hprev.hasPiece,
      hprev.assembling.perform hprev.ok hprev.hasPiece hd hop⟩

/-- **Assembly does not depend on the order.** Let `d` be the content of piece `i`.
The blocks that `init_piece_state` cuts tile it. From any reachable manager that has no entry
for the piece, whatever is requested, fails or is delivered, as long as the blocks delivered to
the piece are the true ones: `block_received` reports the piece exactly when each of its blocks
has been delivered, and then the piece is `d` and passes its check. -/
theorem assembly (hd : d.length = T.getPieceLength i) (h : pm.Reachable)
    (hnone : pm.inProgress i = none) (hp : pm.hasPiece i = false) :
    (((pm.initPieceState i).entry i).blocks = freshBlocks T i ∧
        Tile 0 d.length (freshBlocks T i)) ∧
      ∀ l c x, (∀ op ∈ l ++ [Op.blockReceived i c x], Assembles T i d op) →
        (((l.foldl perform pm).blockReceived i c x).1 = true ↔
          ∀ b ∈ freshBlocks T i, Delivered i b.begin (l ++ [Op.blockReceived i c x])) ∧
        (((l.foldl perform pm).blockReceived i c x).1 = true →
          ((l.foldl perform pm).blockReceived i c x).2.getPieceData i = d ∧
            ∀ sha1 g, T.pieceHashes[i]? = some (sha1 d) →
              ((l.foldl perform pm).blockReceived i c x).2.validatePiece sha1 g i = true) := by
  refine ⟨⟨?_, ?_⟩, fun l c x hl => ?_⟩
  · rw [initPieceState_eq h.ok, entry_put, touched_of_none hnone, freshState]
  · rw [hd]
    exact tile_cutBlocks (by omega) (by omega)
  have hbefore := assemblyInv_foldl h.ok hnone hp hd fun op hop =>
    hl op (List.mem_append_left _ hop)
  have hx : TrueBlock T i d c x := hl _ (List.mem_append_right _ (List.mem_singleton_self _)) rfl
  have hok := hbefore.ok.touched i
  have hafter := hbefore.assembling.storeBlock hok hd hx
  rw [blockReceived_eq hbefore.ok hbefore.hasPiece]
  refine ⟨(full_iff hafter.count).trans (hafter.all_received_iff hok.storeBlock), fun hreport => ?_⟩
  have hdata := hafter.holds.data_eq hok.storeBlock hd ((full_iff hafter.count).mp hreport)
  refine ⟨?_, fun sha1 g hhash => ?_⟩
  · rw [getPieceData, inProgress_put, if_pos rfl]
    exact hdata
  · rw [validatePiece, inProgress_put, if_pos rfl, hhash, Option.getD_some]
    simp only [hdata, beq_self_eq_true]

/-- A piece of two blocks. The last one comes in unasked, then a request for the first one fails,
and then the first one comes in. -/
theorem assembly_twoBlocks :
    let pm := [Op.blockReceived 0 16384 [0], .getNextBlock 0, .blockRequestFailed 0 0].foldl perform
      (init Torrent.twoBlocks)
    (pm.blockReceived 0 0 (1 :: List.replicate 16383 0)).1 = true ∧
      (pm.blockReceived 0 0 (1 :: List.replicate 16383 0)).2.getPieceData 0 =
        Torrent.bytesTwoBlocks := by
  intro pm
  have hlen : Torrent.bytesTwoBlocks.length = Torrent.twoBlocks.getPieceLength 0 := by
    rw [Torrent.bytesTwoBlocks, List.length_cons, List.length_replicate]
    decide
  have hasm := assembly hlen .init rfl (by decide)
  have htrue : ∀ op ∈ [Op.blockReceived 0 16384 [0], .getNextBlock 0, .blockRequestFailed 0 0] ++
      [.blockReceived 0 0 (1 :: List.replicate 16383 0)],
      Assembles Torrent.twoBlocks 0 Torrent.bytesTwoBlocks op := by
    simp only [List.cons_append, List.nil_append, List.forall_mem_cons, List.not_mem_nil,
      false_implies, implies_true, and_true]
    exact ⟨fun _ => trueBlock_last, trivial, trivial, fun _ => trueBlock_first⟩
  obtain ⟨hreport, hdata⟩ := hasm.2 _ _ _ htrue
  have hall : (pm.blockReceived 0 0 (1 :: List.replicate 16383 0)).1 = true := by
    refine hreport.mpr fun b hb => ?_
    have hblocks : freshBlocks Torrent.twoBlocks 0 =
        [⟨0, 0, 16384, .pending⟩, ⟨0, 16384, 1, .pending⟩] := by decide
    rw [hblocks] at hb
    simp only [List.mem_cons, List.not_mem_nil, or_false] at hb
    rcases hb with rfl | rfl
    · exact ⟨_, List.mem_append_right _ (List.mem_singleton_self _)⟩
    · exact ⟨_, List.mem_cons_self⟩
  exact ⟨hall, (hdata hall).1⟩

end PieceManager

end TransferEngine
