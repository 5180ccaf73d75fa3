import Mathlib.Data.List.Nodup
import TransferEngine.PieceManager.Operations

/-!
# Assembling a piece from true blocks

Fix the true content `d` of a piece. An entry **holds** `d` when each of its received blocks
carries the bytes of `d` (`TransferEngine.PieceState.Holds`). Storing a true block keeps
that, whatever came before it, and an entry that holds `d` and has every block received is
`d` itself: its blocks cover the piece.
-/

namespace TransferEngine

variable {T : Torrent} {i c : ℕ} {d x : List UInt8}

/-- `x` is the block of the content `d` of piece `i` that starts at `c`. -/
def TrueBlock (T : Torrent) (i : ℕ) (d : List UInt8) (c : ℕ) (x : List UInt8) : Prop :=
  ∃ b ∈ PieceManager.freshBlocks T i, b.begin = c ∧ x = (d.drop c).take b.length

instance : Decidable (TrueBlock T i d c x) :=
  inferInstanceAs (Decidable (∃ b ∈ PieceManager.freshBlocks T i, b.begin = c ∧ _))

/-- A true block is as long as the block of the piece, and ends within the piece. -/
theorem TrueBlock.fits (hx : TrueBlock T i d c x) (hd : d.length = T.getPieceLength i) :
    ∃ b ∈ PieceManager.freshBlocks T i, b.begin = c ∧ x = (d.drop c).take b.length ∧
      x.length = b.length ∧ c + x.length ≤ T.getPieceLength i := by
  obtain ⟨b, hb, hc, hxd⟩ := hx
  have hin := (PieceManager.of_mem_freshBlocks hb).2.2.2.1
  have hlen : x.length = b.length := by
    rw [hxd, List.length_take, List.length_drop]
    omega
  exact ⟨b, hb, hc, hxd, hlen, by omega⟩

theorem trueBlock_first : TrueBlock Torrent.twoBlocks 0 Torrent.bytesTwoBlocks 0
    (1 :: List.replicate 16383 0) := by
  refine ⟨⟨0, 0, 16384, .pending⟩, by decide, rfl, ?_⟩
  show _ = ((1 :: List.replicate 16384 0).drop 0).take 16384
  rw [List.drop_zero, List.take_succ_cons, List.take_replicate]
  rfl

theorem trueBlock_last : TrueBlock Torrent.twoBlocks 0 Torrent.bytesTwoBlocks 16384 [0] := by
  refine ⟨⟨0, 16384, 1, .pending⟩, by decide, rfl, ?_⟩
  show [0] = ((1 :: List.replicate 16384 0).drop 16384).take 1
  rw [List.drop_succ_cons, List.drop_replicate]
  rfl

namespace PieceState

variable {st st' : PieceState} {b b' : Block}

/-- The received blocks of the entry hold the bytes of `d`. -/
def Holds (st : PieceState) (d : List UInt8) : Prop :=
  ∀ b ∈ st.blocks, b.state = .received → ∀ k, b.begin ≤ k → k < b.begin + b.length →
    st.data[k]? = d[k]?

/-- Two fresh blocks that start at the same offset are one. -/
theorem eq_of_begin_eq (hb : b ∈ PieceManager.freshBlocks T i)
    (hb' : b' ∈ PieceManager.freshBlocks T i) (h : b.begin = b'.begin) : b = b' :=
  List.inj_on_of_nodup_map PieceManager.nodup_begin_freshBlocks hb hb' h

/-- The length of a block is decided by where it starts. -/
theorem Ok.length_eq_of_begin (h : st.Ok T i) (hb : b ∈ st.blocks)
    (hb' : b' ∈ PieceManager.freshBlocks T i) (he : b.begin = b'.begin) :
    b.length = b'.length := by
  obtain ⟨b₀, hb₀, hs⟩ := h.exists_fresh hb
  have hbeg : b₀.begin = b.begin := congrArg (fun k => k.2.1) hs
  have hlen : b₀.length = b.length := congrArg (fun k => k.2.2) hs
  rw [← hlen, eq_of_begin_eq hb₀ hb' (hbeg.trans he)]

/-- The bytes of `d` where the entry has received a block, which another entry of the piece may
have in another state. -/
theorem Holds.getElem?_eq (hh : st.Holds d) (h : st.Ok T i) (h' : st'.Ok T i)
    (hb : b ∈ st'.blocks) (hs : st.stateAt b.begin = some .received) {k : ℕ} (hk : b.begin ≤ k)
    (hk' : k < b.begin + b.length) : st.data[k]? = d[k]? := by
  obtain ⟨b₁, hb₁, hbeg₁, hrec⟩ := exists_of_stateAt hs
  obtain ⟨b₀, hb₀, hspan⟩ := h'.exists_fresh hb
  have hbeg : b₀.begin = b.begin := congrArg (fun k => k.2.1) hspan
  have hlen : b₀.length = b.length := congrArg (fun k => k.2.2) hspan
  have hlen₁ := h.length_eq_of_begin hb₁ hb₀ (hbeg₁.trans hbeg.symm)
  exact hh b₁ hb₁ hrec k (by omega) (by omega)

/-- Moving a block between pending and requested does not matter. -/
theorem Holds.marks {σ : BlockState} (hh : st.Holds d) (h : st.Ok T i)
    (hm : Marks T i st st' c σ) (hσ : σ ≠ .received) : st'.Holds d := by
  intro b hb hrec k hk hk'
  have hnow := hm.ok.stateAt_begin hb
  rw [hm.stateAt, hrec] at hnow
  split at hnow
  case isTrue => exact absurd (Option.some.inj hnow) hσ
  case isFalse =>
    rw [hm.data]
    exact hh.getElem?_eq h hm.ok hb hnow hk hk'

/-- **Storing a true block** in an entry that holds `d`. -/
theorem Holds.storeBlock (hh : st.Holds d) (h : st.Ok T i)
    (hd : d.length = T.getPieceLength i) (hx : TrueBlock T i d c x) :
    (st.storeBlock c x).Holds d := by
  obtain ⟨b₀, hb₀, hc, hxd, hlen, hfit⟩ := hx.fits hd
  rw [← h.data_length] at hfit
  rcases storeBlock_cases st c x with ⟨hs, -⟩ | ⟨-, -, -, -, hdata⟩
  · rw [hs]
    exact hh
  rcases hdata with ⟨-, hdata, -⟩ | ⟨hover, -⟩
  · intro b hb hrec k hk hk'
    have hok : (st.storeBlock c x).Ok T i := h.storeBlock
    rw [hdata, List.getElem?_overwrite hfit]
    split
    case isTrue hwin =>
      -- a byte of the block just stored
      rw [hxd, List.getElem?_take, if_pos (by omega), List.getElem?_drop]
      congr 1
      omega
    case isFalse hwin =>
      -- a byte of another block, which was received before
      have hne : b.begin ≠ c := by
        intro he
        have := hok.length_eq_of_begin hb hb₀ (he.trans hc.symm)
        omega
      have hst : st.stateAt b.begin = some .received := by
        have hnow := hok.stateAt_begin hb
        rw [h.stateAt_storeBlock, if_neg fun hcon => hne hcon.1, hrec] at hnow
        exact hnow
      exact hh.getElem?_eq h hok hb hst hk hk'
  · omega

/-- **An entry that holds `d`, with every block received, is `d`.** -/
theorem Holds.data_eq (hh : st.Holds d) (h : st.Ok T i) (hd : d.length = T.getPieceLength i)
    (hall : ∀ b ∈ st.blocks, b.state = .received) : st.data = d := by
  refine List.ext_getElem? fun k => ?_
  rcases Nat.lt_or_ge k (T.getPieceLength i) with hk | hk
  · obtain ⟨b₀, hb₀, hlow, hhigh⟩ := PieceManager.exists_mem_freshBlocks hk
    obtain ⟨b, hb, hs⟩ := h.exists_block hb₀
    have hbeg : b.begin = b₀.begin := congrArg (fun k => k.2.1) hs
    have hlen : b.length = b₀.length := congrArg (fun k => k.2.2) hs
    exact hh b hb (hall b hb) k (by omega) (by omega)
  · rw [List.getElem?_eq_none (by rw [h.data_length]; exact hk),
      List.getElem?_eq_none (by rw [hd]; exact hk)]

/-- The entry of a piece that nobody has touched holds anything. -/
theorem holds_freshState : (PieceManager.freshState T i).Holds d := by
  intro b hb hrec
  rw [(PieceManager.of_mem_freshBlocks hb).2.2.2.2] at hrec
  cases hrec

end PieceState

namespace PieceManager

variable {pm pm' : PieceManager T} {sha1 : List UInt8 → Digest} {g : Digest}

/-- **A true block that completes a piece of true blocks completes a good piece.** -/
theorem validatePiece_of_holds (h : pm.Ok)
    (hheld : ∀ st, pm.inProgress i = some st → st.Holds d)
    (hd : d.length = T.getPieceLength i) (hhash : T.pieceHashes[i]? = some (sha1 d))
    (hx : TrueBlock T i d c x) (hr : pm.blockReceived i c x = (true, pm')) :
    pm'.validatePiece sha1 g i = true := by
  have hall := (blockReceived_true h (congrArg Prod.fst hr)).2
  obtain ⟨-, rfl⟩ := of_blockReceived_true h hr
  have htouched : (pm.touched i).Holds d := by
    rcases hi : pm.inProgress i with _ | st
    · rw [touched_of_none hi]
      exact PieceState.holds_freshState
    · rw [touched_of_inProgress hi]
      exact hheld st hi
  have hok := h.touched i
  have hdata := (htouched.storeBlock hok hd hx).data_eq hok.storeBlock hd hall
  rw [validatePiece, inProgress_put, if_pos rfl, hhash, Option.getD_some]
  simp only [hdata, beq_self_eq_true]

end PieceManager

end TransferEngine
