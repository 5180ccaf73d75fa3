import TransferEngine.BitfieldSet
import TransferEngine.Coordinator.Availability

/-!
# Which piece is picked

The picker draws from the pieces that a peer has and we do not: from all of them while we have
fewer than four, and only from the rarest from then on
(`TransferEngine.Coordinator.rarest_first`). The peers whose pieces are picked are counted in
the histogram, so a piece that is picked is available.

What the picker is told we have is not what we have, though. The coordinator passes it
`completed_or_full`, in which every piece that has no pending block counts as had, and the
picker counts those too. So four pieces that are merely requested end the phase in which the
choice is free (`TransferEngine.Coordinator.not_verifiedDecide_requested`). The phase is the one
that the verified pieces call for just where this makes no difference
(`TransferEngine.Coordinator.verifiedDecide_iff`).
-/

namespace TransferEngine

namespace Coordinator

open State PiecePicker

variable {T : Torrent} {s s' : State T} {env : Env} {a : Input} {p : PeerId}
  {state : PeerState T} {i : ℕ}

/-! ### Picked pieces are available -/

theorem counted_of_visited {disk : Disk}
    (h : Visited env (fun s a => RegistersOnce s a ∧ FewPeers s a) disk s) : Counted s :=
  h.invariant (counted_init disk) (fun _ _ hs ha => hs.head ha) fun _ _ hs hm => hs.move hm

/-- **The choice of a piece.** Nothing is picked only where there is no candidate, and what is
picked is one. Once we have four pieces it is one of the rarest, and every rarest one can be
drawn; until then every candidate can. What is picked for a registered peer, in any state of a
run, is available from at least one peer. -/
theorem rarest_first :
    (∀ {n m k : ℕ} (pp : PiecePicker n) (peer : Bitfield m) (our : Bitfield k),
      (∀ draw, pp.pickPiece peer our draw = none ↔ ¬∃ i : Fin n, Candidate peer our i) ∧
      (∀ draw i, pp.pickPiece peer our draw = some i → Candidate peer our i) ∧
      (4 ≤ our.count →
        (∀ draw i, pp.pickPiece peer our draw = some i → ∀ j : Fin n, Candidate peer our j →
          pp.getAvailability i ≤ pp.getAvailability j) ∧
        ∀ i : Fin n, Candidate peer our i →
          (∀ j : Fin n, Candidate peer our j → pp.getAvailability i ≤ pp.getAvailability j) →
          ∃ draw, pp.pickPiece peer our draw = some i) ∧
      (our.count < 4 → ∀ i : Fin n, Candidate peer our i →
        ∃ draw, pp.pickPiece peer our draw = some i)) ∧
    ∀ {T : Torrent} (env : Env) (disk : Disk) (s : State T),
      Visited env (fun s a => RegistersOnce s a ∧ FewPeers s a) disk s →
      ∀ p state, s.peers.lookup p = some state → ∀ {k : ℕ} (our : Bitfield k) draw i,
        s.piecePicker.pickPiece state.bitfield our draw = some i →
        1 ≤ (s.piecePicker.getAvailability i).toNat := by
  constructor
  · intro n m k pp peer our
    refine ⟨fun draw => ?_, fun draw i => of_pickPiece, fun hfour => ⟨fun draw i hpick => ?_,
      fun i hi hmin => ?_⟩, fun hfew i hi => ?_⟩
    · rw [pickPiece_eq_none]
      constructor
      · rintro h ⟨i, hp, ho⟩
        rw [h i hp] at ho
        cases ho
      · intro h i hp
        by_contra ho
        exact h ⟨i, hp, by simpa using ho⟩
    · have hrare := exists_pickPiece_iff.mp ⟨draw, hpick⟩
      rw [if_neg (by omega)] at hrare
      exact hrare.2
    · rw [exists_pickPiece_iff, if_neg (by omega)]
      exact ⟨hi, hmin⟩
    · rwa [exists_pickPiece_iff, if_pos hfew]
  · intro T env disk s hs p state hp k our draw i hpick
    exact (counted_of_visited hs).pos hp i.isLt (of_pickPiece hpick).1

/-- The one piece of the smallest torrent, picked for the peer that has it. -/
theorem rarest_first_oneByte : 1 ≤ ((run Env.calm Disk.oneByte (arrival 7) :
    State Torrent.oneByte).piecePicker.getAvailability 0).toNat := by
  have hs : Visited Env.calm (fun s a => RegistersOnce s a ∧ FewPeers s a) Disk.oneByte
      (run Env.calm Disk.oneByte (arrival 7) : State Torrent.oneByte) :=
    .between _ _ (Runs.reach_iff.mpr ⟨rfl, throughout_arrival⟩)
  have hpick : ((run Env.calm Disk.oneByte (arrival 7) :
      State Torrent.oneByte).peers.lookup 7).any fun state =>
        (run Env.calm Disk.oneByte (arrival 7) :
          State Torrent.oneByte).piecePicker.pickPiece state.bitfield (Bitfield.empty 1) 0 =
        some ⟨0, by decide⟩ := by
    decide
  obtain ⟨state, hp, hpick⟩ := (Option.any_eq_true _ _).mp hpick
  exact rarest_first.2 Env.calm Disk.oneByte _ hs 7 state hp (Bitfield.empty 1) 0 ⟨0, by decide⟩
    (of_decide_eq_true hpick)

/-! ### The phase -/

/-- `completed_or_full` has no padding bit set. -/
theorem clean_completedOrFull {pm : PieceManager T} (h : pm.bitfield.Clean) :
    (completedOrFull pm).Clean := by
  rw [completedOrFull]
  generalize pm.bitfield = b at h
  induction List.range T.count generalizing b with
  | nil => exact h
  | cons i l ih =>
    rw [List.foldl_cons]
    refine ih _ ?_
    split
    case isTrue => exact h
    case isFalse => exact h.set i true

/-- The pieces in which there is nothing to ask for. -/
def hidden (pm : PieceManager T) : Finset ℕ :=
  (Finset.range T.count).filter fun i => pm.hasPendingBlocks i = false

/-- What the picker counts. -/
theorem count_completedOrFull {pm : PieceManager T} (h : pm.bitfield.Clean) :
    (completedOrFull pm).count = (hidden pm).card := by
  rw [(clean_completedOrFull h).count_eq, Bitfield.members, hidden]
  refine congrArg Finset.card (Finset.filter_congr fun i hi => ?_)
  exact has_completedOrFull (Finset.mem_range.mp hi)

/-- A verified piece counts as well. -/
theorem count_le_card_hidden {pm : PieceManager T} (h : pm.bitfield.Clean) :
    pm.bitfield.count ≤ (hidden pm).card := by
  rw [h.count_eq]
  refine Finset.card_le_card fun i hi => ?_
  obtain ⟨hlt, hhas⟩ := Finset.mem_filter.mp hi
  refine Finset.mem_filter.mpr ⟨hlt, ?_⟩
  rw [PieceManager.hasPendingBlocks, PieceManager.hasPiece, hhas, if_pos rfl]

theorem Head.clean (hh : Head env s a s') (h : s.pieceManager.bitfield.Clean) :
    s'.pieceManager.bitfield.Clean := by
  cases hh with
  | quiet a s' hpm => exact hpm ▸ h
  | register p s' hpm => exact hpm ▸ h
  | unregister p => rwa [bitfield_unregisterPeer]
  | choke p state s' hp hpm => rwa [hpm, bitfield_failRequests]
  | bitfield p m state b s' hp hpm => exact hpm ▸ h
  | block p idx c x state pm s' hact hp hb hpm =>
    rwa [hpm, PieceManager.bitfield_of_blockReceived hb]
  | completed p idx c x state pm tr outcome s' hact hp hb hv htr hret hpm =>
    -- the one place where a bit is set
    rw [hpm]
    refine Bitfield.Clean.set ?_ idx.toNat true
    rwa [PieceManager.bitfield_of_blockReceived hb]
  | corrupted p idx c x state pm s' hact hp hb hv hban hpm =>
    rw [hpm]
    exact (PieceManager.bitfield_of_blockReceived hb).symm ▸ h
  | banned p idx c x state pm s' hact hp hb hv hban hpm =>
    rw [hpm, bitfield_failRequests]
    exact (PieceManager.bitfield_of_blockReceived hb).symm ▸ h

/-- **Our bitfield is clean** in every state of a run. -/
theorem Visited.clean {ok : State T → Input → Prop} {disk : Disk} (h : Visited env ok disk s) :
    s.pieceManager.bitfield.Clean :=
  h.invariant (I := fun t => t.pieceManager.bitfield.Clean) (Bitfield.clean_empty _)
    (fun s a hs _ => (head_spec env s a).clean hs) fun _ _ hs hm => hm.completed_eq.symm ▸ hs

/-- A candidate of the coordinator: the peer has the piece, and there is something to ask for
in it. -/
def Wanted (s : State T) (state : PeerState T) (i : Fin T.count) : Prop :=
  state.bitfield.has i = true ∧ s.pieceManager.hasPendingBlocks i = true

theorem candidate_iff {i : Fin T.count} :
    Candidate state.bitfield (completedOrFull s.pieceManager) i ↔ Wanted s state i := by
  rw [Candidate, Wanted, ← Bool.not_eq_true, has_completedOrFull i.isLt, Bool.not_eq_false]

/-- The piece that a new pick for a peer comes to, with a number drawn. -/
def newPick (s : State T) (state : PeerState T) (draw : ℕ) : Option (Fin T.count) :=
  s.piecePicker.pickPiece state.bitfield (completedOrFull s.pieceManager) draw

/-- **The verified pieces decide the phase** in which a new piece is picked for a peer: every
candidate can be drawn while fewer than four are verified, and only the rarest ones from then
on. -/
def VerifiedDecide (s : State T) (state : PeerState T) : Prop :=
  (s.pieceManager.bitfield.count < 4 →
    ∀ i, Wanted s state i → ∃ draw, newPick s state draw = some i) ∧
  (4 ≤ s.pieceManager.bitfield.count →
    ∀ draw i, newPick s state draw = some i → ∀ j, Wanted s state j →
      s.piecePicker.getAvailability i ≤ s.piecePicker.getAvailability j)

/-- What can be picked: every candidate while fewer than four pieces are hidden, every rarest one
from then on. -/
theorem exists_newPick_iff {i : Fin T.count} (h : s.pieceManager.bitfield.Clean) :
    (∃ draw, newPick s state draw = some i) ↔ Wanted s state i ∧
      ((hidden s.pieceManager).card < 4 ∨ ∀ j, Wanted s state j →
        s.piecePicker.getAvailability i ≤ s.piecePicker.getAvailability j) := by
  simp only [newPick, exists_pickPiece_iff, count_completedOrFull h, Rarest, candidate_iff]
  split
  case isTrue hfew => exact ⟨fun hi => ⟨hi, Or.inl hfew⟩, fun hi => hi.1⟩
  case isFalse hfew => exact and_congr_right fun _ => (or_iff_right hfew).symm

/-- **Where the verified pieces decide the phase.** In every state of a run: where four are
verified; where fewer than four have nothing to ask for, verified or not; and where the
candidates are all equally available, so that the two phases are the same. -/
theorem verifiedDecide_iff (env : Env) (disk : Disk) (hs : Visited env Runs.free disk s)
    (state : PeerState T) : VerifiedDecide s state ↔
      4 ≤ s.pieceManager.bitfield.count ∨ (hidden s.pieceManager).card < 4 ∨
        ∀ i j, Wanted s state i → Wanted s state j →
          s.piecePicker.getAvailability i = s.piecePicker.getAvailability j := by
  have hclean := hs.clean
  have hle := count_le_card_hidden hclean
  constructor
  · rintro ⟨hfree, -⟩
    by_cases hfour : 4 ≤ s.pieceManager.bitfield.count
    · exact Or.inl hfour
    by_cases hfew : (hidden s.pieceManager).card < 4
    · exact Or.inr (Or.inl hfew)
    -- every candidate can be drawn though only the rarest are: they are all among the rarest
    have hmin : ∀ i j, Wanted s state i → Wanted s state j →
        s.piecePicker.getAvailability i ≤ s.piecePicker.getAvailability j := fun i j hi hj =>
      (((exists_newPick_iff hclean).mp (hfree (by omega) i hi)).2.resolve_left hfew) j hj
    exact Or.inr (Or.inr fun i j hi hj => UInt32.le_antisymm (hmin i j hi hj) (hmin j i hj hi))
  · intro h
    constructor
    · intro hlt i hi
      rw [exists_newPick_iff hclean]
      refine ⟨hi, ?_⟩
      rcases h with hfour | hfew | hsame
      · omega
      · exact Or.inl hfew
      · exact Or.inr fun j hj => (hsame i j hi hj).symm ▸ UInt32.le_refl _
    · intro hfour draw i hpick
      exact ((exists_newPick_iff hclean).mp ⟨draw, hpick⟩).2.resolve_left (by omega)

/-- Nobody has been asked for anything. Peer 8 has a common piece and a rare one, and both can be
drawn. -/
theorem verifiedDecide_iff_twoCandidates :
    let s : State (Torrent.letters 6) := run Env.calm Disk.oneByte
      [.establish 8, .register 8, .message 8 (.bitfieldMsg [0x0c]),
        .establish 9, .register 9, .message 9 (.bitfieldMsg [0x08])]
    let state : PeerState (Torrent.letters 6) := { bitfield := .ofBytes [0x0c] 6 }
    VerifiedDecide s state ∧ s.peers.lookup 8 = some state ∧
      s.piecePicker.getAvailability 5 < s.piecePicker.getAvailability 4 ∧
      ∃ draw, newPick s state draw = some ⟨4, by decide⟩ := by
  intro s state
  have hdecide : VerifiedDecide s state :=
    (verifiedDecide_iff Env.calm Disk.oneByte (.between _ _ (Runs.reach_free _)) _).mpr
      (.inr (.inl (by decide)))
  exact ⟨hdecide, by decide, by decide, hdecide.1 (by decide) ⟨4, by decide⟩ ⟨by decide, by decide⟩⟩

/-- A peer is asked for the first four pieces, a second one tells that it has the other two,
and a third one that it has the fifth piece. -/
def fourAsked : List Input :=
  [.establish 7, .register 7, .message 7 (.bitfieldMsg [0xf0]), .message 7 .unchokeMsg,
    .establish 8, .register 8, .message 8 (.bitfieldMsg [0x0c]),
    .establish 9, .register 9, .message 9 (.bitfieldMsg [0x08])]

/-- **Four requested pieces end the free choice.** No piece is verified when the second peer
unchokes us, and it has two pieces nobody was asked for. But the fifth piece, which the third
peer has too, cannot be drawn: the sixth is picked. -/
theorem not_verifiedDecide_requested :
    ∃ (s : State (Torrent.letters 6)) (state : PeerState (Torrent.letters 6)),
      s = head Env.calm (run Env.calm Disk.oneByte fourAsked) (.message 8 .unchokeMsg) ∧
      Visited Env.calm Runs.free Disk.oneByte s ∧ s.peers.lookup 8 = some state ∧
      step Env.calm (run Env.calm Disk.oneByte fourAsked) (.message 8 .unchokeMsg) =
        fillRequestPipeline Env.calm 8 s ∧
      .picked 8 5 ∈ (fillRequestPipeline Env.calm 8 s).trace ∧
      s.pieceManager.bitfield.count = 0 ∧ ¬VerifiedDecide s state := by
  have hs : Visited Env.calm Runs.free Disk.oneByte
      (head Env.calm (run Env.calm Disk.oneByte fourAsked : State (Torrent.letters 6))
        (.message 8 .unchokeMsg)) :=
    .inside _ _ _ (.message 8 .unchokeMsg) (Runs.reach_free fourAsked) trivial .refl
  have hboth : ((head Env.calm (run Env.calm Disk.oneByte fourAsked : State (Torrent.letters 6))
      (.message 8 .unchokeMsg)).peers.lookup 8).any
        (fun state => state.bitfield.has 4 && state.bitfield.has 5) := by
    decide +kernel
  obtain ⟨state, hp, hbits⟩ := (Option.any_eq_true _ _).mp hboth
  obtain ⟨h4, h5⟩ := Bool.and_eq_true_iff.mp hbits
  refine ⟨_, state, rfl, hs, hp, rfl, by decide +kernel, by decide +kernel, fun h => ?_⟩
  have hdraw := h.1 (by decide +kernel) ⟨4, by decide⟩ ⟨h4, by decide +kernel⟩
  rcases ((exists_newPick_iff hs.clean).mp hdraw).2 with hfew | hmin
  · revert hfew
    decide +kernel
  · have hle := hmin ⟨5, by decide⟩ ⟨h5, by decide +kernel⟩
    revert hle
    decide +kernel

end Coordinator

end TransferEngine
