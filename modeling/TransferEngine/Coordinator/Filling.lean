import TransferEngine.Coordinator.Pipeline

/-!
# Filling a pipeline to the end

`fill_request_pipeline` loops until five requests are out or there is nothing to pick, and a
round of its loop may add no request at all: the active piece may have no block left, and a
piece that was picked may turn out to have none. Where no send of a Request fails, the loop is
left nevertheless, in every state of a run and whatever the picker draws, and only when there
is nothing left to do (`TransferEngine.Coordinator.pipeline_filled`).

What it adds to the list of the peer are blocks that were pending and are requested now
(`TransferEngine.Coordinator.Fetches`). A block of a piece that nobody has touched counts as
pending, since it will be when the piece is cut.
-/

namespace TransferEngine

namespace PieceManager

variable {T : Torrent} {pm pm' : PieceManager T} {i j c : ℕ} {b : Block} {st : PieceState}

theorem touched_put_eq : (pm.put i st).touched j = if j = i then st else pm.touched j := by
  by_cases hji : j = i
  · rw [hji, touched_put, if_pos rfl]
  · rw [if_neg hji, touched, inProgress_put, if_neg hji, touched]

/-- Where no block is handed out, every block is as it was. -/
theorem touched_getNextBlock_none (h : pm.Ok) (hg : pm.getNextBlock i = (none, pm')) :
    pm'.touched j = pm.touched j := by
  rcases getNextBlock_none h hg with ⟨-, rfl⟩ | ⟨-, rfl, -⟩
  · rfl
  · rw [touched_put_eq]
    split
    case isTrue hji => rw [hji]
    case isFalse => rfl

/-- The block that is handed out was pending and is requested; every other is as it was. -/
theorem stateAt_getNextBlock_some (h : pm.Ok) (hg : pm.getNextBlock i = (some b, pm')) :
    (pm'.touched j).stateAt c =
      if j = i ∧ c = b.begin then some .requested else (pm.touched j).stateAt c := by
  obtain ⟨-, -, -, -, -, st', rfl, hst⟩ := getNextBlock_some h hg
  rw [touched_put_eq]
  by_cases hji : j = i
  · subst hji
    rw [if_pos rfl, hst.stateAt]
    simp only [true_and, eq_comm]
  · rw [if_neg hji, if_neg fun hc => hji hc.1]

end PieceManager

namespace Coordinator

open State

variable {T : Torrent} {s s' s'' : State T} {env : Env} {p : PeerId}
  {state state' state'' : PeerState T}

/-- **Blocks are asked for**: the list of the peer grows by blocks that were pending and are
requested now. -/
structure Fetches (s : State T) (state : PeerState T) (s' : State T) (state' : PeerState T) :
    Prop where
  /-- The pieces of the peer are the same. -/
  bitfield : state'.bitfield = state.bitfield
  /-- The list is filled up to five. -/
  few : state'.outstanding.length ≤ max 5 state.outstanding.length
  /-- What is added to the list. -/
  added : ∃ added, state'.outstanding = state.outstanding ++ added ∧ ∀ r ∈ added,
    (s.pieceManager.touched r.piece).stateAt r.begin = some .pending ∧
      (s'.pieceManager.touched r.piece).stateAt r.begin = some .requested
  /-- No other block becomes pending. -/
  pending : ∀ j c, (s'.pieceManager.touched j).stateAt c = some .pending →
    (s.pieceManager.touched j).stateAt c = some .pending
  /-- A requested block stays so. -/
  requested : ∀ j c, (s.pieceManager.touched j).stateAt c = some .requested →
    (s'.pieceManager.touched j).stateAt c = some .requested

theorem Fetches.refl (s : State T) (state : PeerState T) : Fetches s state s state where
  bitfield := rfl
  few := le_max_right _ _
  added := ⟨[], (List.append_nil _).symm, fun _ hr => nomatch hr⟩
  pending := fun _ _ h => h
  requested := fun _ _ h => h

theorem Fetches.trans (h : Fetches s state s' state') (h' : Fetches s' state' s'' state'') :
    Fetches s state s'' state'' where
  bitfield := h'.bitfield.trans h.bitfield
  few := h'.few.trans (max_le (le_max_left _ _) h.few)
  added := by
    obtain ⟨added, ho, hall⟩ := h.added
    obtain ⟨added', ho', hall'⟩ := h'.added
    refine ⟨added ++ added', by rw [ho', ho, List.append_assoc], fun r hr => ?_⟩
    rcases List.mem_append.mp hr with hr | hr
    · exact ⟨(hall r hr).1, h'.requested _ _ (hall r hr).2⟩
    · exact ⟨h.pending _ _ (hall' r hr).1, (hall' r hr).2⟩
  pending := fun j c hc => h.pending j c (h'.pending j c hc)
  requested := fun j c hc => h'.requested j c (h.requested j c hc)

/-- **One round.** -/
theorem fetches_fillRound (hreach : RequestsReach env p s.trace) (hok : s.pieceManager.Ok)
    (hp : s.peers.lookup p = some state) (hp' : s'.peers.lookup p = some state')
    (hr : FillRound env p s (.inl s')) : Fetches s state s' state' := by
  cases hr with
  | giveUp state₁ i pm s₁ hp₁ hlt hc hg =>
    obtain rfl := Option.some.inj (hp.symm.trans hp₁)
    rw [lookup_setPeer, if_pos rfl] at hp'
    obtain rfl := Option.some.inj hp'
    rw [(alike_choosePiece hc).pieceManager] at hg
    have hsame : ∀ j, pm.touched j = s.pieceManager.touched j := fun j =>
      PieceManager.touched_getNextBlock_none hok hg
    exact ⟨rfl, le_max_right _ _, ⟨[], (List.append_nil _).symm, fun _ hr => nomatch hr⟩,
      fun j c hc => hsame j ▸ hc, fun j c hc => (hsame j).symm ▸ hc⟩
  | ask state₁ i block pm s₁ hp₁ hlt hc hg =>
    obtain rfl := Option.some.inj (hp.symm.trans hp₁)
    have hsend := alike_request block hreach hc
      (t := { s₁ with pieceManager := pm }.setPeer p (state.push i block)) rfl
    rw [hsend.peers, lookup_setPeer, if_pos rfl] at hp'
    obtain rfl := Option.some.inj hp'
    rw [(alike_choosePiece hc).pieceManager] at hg
    obtain ⟨-, hpend, hpiece, -⟩ := PieceManager.getNextBlock_some hok hg
    rw [Torrent.u32_of_lt_count i.isLt] at hpiece
    have hstate : ∀ j c, ((sendMessage env p block.requestMsg
        ({ s₁ with pieceManager := pm }.setPeer p
          (state.push i block))).pieceManager.touched j).stateAt c =
        if j = i ∧ c = block.begin then some .requested
        else (s.pieceManager.touched j).stateAt c := by
      intro j c
      rw [hsend.pieceManager]
      exact PieceManager.stateAt_getNextBlock_some hok hg
    refine ⟨rfl, ?_, ⟨[block.request], rfl, fun r hr => ?_⟩, fun j c hjc => ?_, fun j c hjc => ?_⟩
    · rw [PeerState.push, List.length_append]
      exact le_max_of_le_left hlt
    · rw [List.mem_singleton.mp hr, hstate]
      exact ⟨by rwa [Block.request, hpiece], if_pos ⟨hpiece, rfl⟩⟩
    · rw [hstate] at hjc
      split at hjc
      case isTrue => cases hjc
      case isFalse => exact hjc
    · rw [hstate]
      split
      case isTrue => rfl
      case isFalse => exact hjc

/-- **Filling the pipeline of a registered peer that does not choke us**, in any state of a run
and whatever is drawn, where no send of a Request fails. The loop is left, by its own
conditions, with five requests out if there were fewer, or with no active piece and nothing
pending that the peer has. Every block that is added to the list was pending before the call
and is requested after it. -/
theorem pipeline_filled (env : Env) (disk : Disk) (hs : Visited env Runs.free disk s)
    (hp : s.peers.lookup p = some state) (hch : s.choking p = false)
    (hreach : RequestsReach env p s.trace) :
    ∃ s' state', Loops.Exits (fillRound env p) s s' ∧ fillRequestPipeline env p s = s' ∧
      s'.peers.lookup p = some state' ∧ state'.bitfield = state.bitfield ∧
      (state'.outstanding.length = 5 ∨ (5 ≤ state.outstanding.length ∧ s' = s) ∨
        (state'.activePiece = none ∧
          ∀ j, state'.bitfield.has j = true → s'.pieceManager.hasPendingBlocks j = false)) ∧
      ∃ added, state'.outstanding = state.outstanding ++ added ∧ ∀ r ∈ added,
        (s.pieceManager.touched r.piece).stateAt r.begin = some .pending ∧
          s'.pieceManager.blockState r.piece r.begin = some .requested := by
  have hok := hs.ok
  have hlt := roundsLeft_lt s.pieceManager state
  have hexits : Loops.Exits (fillRound env p) s (fillLoop env p (T.count + 12) s) :=
    exits_fillLoop env _ hok (by rwa [roundsIn_of_lookup hp])
  obtain ⟨state', hp', hfilled, hfetch⟩ := fillLoop_rule (I := Fetches s state) _ hreach hok hp hch
    hlt (.refl s state) fun t t' _ _ hreach hok hp₁ hp₂ hr hI =>
      hI.trans (fetches_fillRound hreach hok hp₁ hp₂ hr)
  have hcall : fillRequestPipeline env p s = fillLoop env p (T.count + 12) s := by
    rw [fillRequestPipeline, hch, hp]
    rfl
  obtain ⟨added, ho, hall⟩ := hfetch.added
  refine ⟨_, state', hexits, hcall, hp', hfetch.bitfield, ?_, added, ho, fun r hr => ?_⟩
  · rcases hfilled with hfull | hnone
    · by_cases hfive : state.outstanding.length < 5
      · have hfew := hfetch.few
        rw [max_eq_left hfive.le] at hfew
        exact Or.inl (by omega)
      · -- the list was full to begin with, and the first round leaves the loop
        have hround : fillRound env p s = .inr s := by
          rw [fillRound, hp]
          exact if_neg hfive
        exact Or.inr (Or.inl ⟨Nat.le_of_not_lt hfive, hexits.unique (.leave hround)⟩)
    · exact Or.inr (Or.inr hnone)
  · exact ⟨(hall r hr).1, PieceManager.blockState_of_stateAt_touched (by decide) (hall r hr).2⟩

/-- A peer that has the only piece there is unchokes us: the loop is left, and the one block is
requested. -/
theorem pipeline_filled_oneByte :
    ∃ s' : State Torrent.oneByte, Loops.Exits (fillRound Env.calm 7)
      (head Env.calm (run Env.calm Disk.oneByte
        [.establish 7, .register 7, .message 7 (.bitfieldMsg [0x80])])
        (.message 7 .unchokeMsg)) s' ∧
      s'.pieceManager.blockState 0 0 = some .requested := by
  have hs : Visited Env.calm Runs.free Disk.oneByte (head Env.calm (run Env.calm Disk.oneByte
      [.establish 7, .register 7, .message 7 (.bitfieldMsg [0x80])] : State Torrent.oneByte)
        (.message 7 .unchokeMsg)) :=
    .inside _ _ _ (.message 7 .unchokeMsg) (Runs.reach_free _) trivial .refl
  obtain ⟨s', -, hexits, rfl, -⟩ := pipeline_filled Env.calm Disk.oneByte hs (p := 7) rfl rfl
    fun _ _ => rfl
  exact ⟨_, hexits, by decide⟩

end Coordinator

end TransferEngine
