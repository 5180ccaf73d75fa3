import TransferEngine.Coordinator.Moves
import TransferEngine.Coordinator.Removal

/-!
# When no send fails

A step of the coordinator closes a connection for one of two reasons: a send on it failed,
or its peer sent the last block of a bad piece. Where neither happens a message changes the
state of no connection (`TransferEngine.Coordinator.sameStates_message`) and reports no peer
(`TransferEngine.Coordinator.peerCorrupted_of_mem_message`).
-/

namespace TransferEngine

/-- **No send fails.** -/
def Env.NoSendFails (env : Env) : Prop := ∀ tr p m, env.sendFails tr p m = false

namespace Coordinator

open State

variable {T : Torrent} {s s' s'' : State T} {env : Env} {p q : PeerId} {state : PeerState T}
  {m : PeerMessage} {i : ℕ}

/-- Every connection is in the state it was in. -/
def SameStates (s s' : State T) : Prop :=
  ∀ q, (s'.connections q).state = (s.connections q).state

theorem SameStates.refl (s : State T) : SameStates s s := fun _ => rfl

theorem SameStates.trans (h : SameStates s s') (h' : SameStates s' s'') : SameStates s s'' :=
  fun q => (h' q).trans (h q)

/-- Changing anything but the connections. -/
theorem sameStates_of_eq (h : s'.connections = s.connections) : SameStates s s' :=
  fun q => by rw [h]

theorem sameStates_setConnection {x : PeerConnection} (hx : x.state = (s.connections p).state) :
    SameStates s (s.setConnection p x) := by
  intro q
  rw [connections_setConnection]
  split
  case isTrue hq => rw [hx, hq]
  case isFalse => rfl

theorem state_sending (c : PeerConnection) (m : PeerMessage) : (c.sending m).state = c.state := by
  cases m <;> rfl

theorem state_received (c : PeerConnection) (m : PeerMessage) :
    (c.received m).state = c.state := by
  cases m <;> rfl

theorem sameStates_sendMessage (henv : env.NoSendFails) (p : PeerId) (m : PeerMessage)
    (s : State T) : SameStates s (sendMessage env p m s) := by
  rcases sendMessage_cases env p m s with ⟨-, he⟩ | ⟨-, he | ⟨hf, -⟩⟩
  · rw [he]
    exact .refl s
  · rw [he]
    exact (sameStates_setConnection (state_sending _ m)).trans (sameStates_of_eq rfl)
  · rw [henv] at hf
    cases hf

/-! ### Filling -/

theorem connections_choosePiece {i : Fin T.count}
    (h : choosePiece env p state s = some (i, s')) : s'.connections = s.connections := by
  rcases choosePiece_some h with ⟨-, rfl⟩ | ⟨-, -, -, rfl⟩ <;> rfl

theorem sameStates_fillRound {r : State T ⊕ State T} (henv : env.NoSendFails)
    (hr : FillRound env p s r) : SameStates s (r.elim id id) := by
  cases hr with
  | gone => exact sameStates_of_eq rfl
  | full => exact .refl s
  | nothing => exact .refl s
  | giveUp state i pm s₁ hp hlt hc hg =>
    exact .trans (sameStates_of_eq (connections_choosePiece hc)) (sameStates_of_eq rfl)
  | ask state i block pm s₁ hp hlt hc hg =>
    have hs₂ : SameStates s ({ s₁ with pieceManager := pm }.setPeer p (state.push i block)) :=
      .trans (sameStates_of_eq (connections_choosePiece hc)) (sameStates_of_eq rfl)
    exact hs₂.trans (sameStates_sendMessage henv p _ _)

theorem sameStates_fillLoop (henv : env.NoSendFails) (p : PeerId) (fuel : ℕ) (s : State T) :
    SameStates s (fillLoop env p fuel s) := by
  rw [fillLoop_eq_bounded]
  exact Loops.bounded_rule (I := SameStates s) fuel (.refl s) fun t ht =>
    ht.trans (sameStates_fillRound henv (fillRound_spec env p t))

theorem sameStates_fillRequestPipeline (henv : env.NoSendFails) (p : PeerId) (s : State T) :
    SameStates s (fillRequestPipeline env p s) := by
  rw [fillRequestPipeline]
  split
  case isTrue => exact .refl s
  case isFalse =>
    split
    case h_1 => exact .refl s
    case h_2 => exact sameStates_fillLoop henv p _ s

theorem sameStates_topOff (henv : env.NoSendFails) (p : PeerId) (s : State T) :
    SameStates s (topOff env p s) := by
  rw [topOff]
  split
  case isTrue => exact .refl s
  case isFalse => exact sameStates_fillRequestPipeline henv p s

/-! ### Finishing a piece -/

theorem sameStates_deactivate (i : ℕ) (q : PeerId) (state : PeerState T) (s : State T) :
    SameStates s (deactivate i q state s) := by
  rw [deactivate]
  split <;> exact sameStates_of_eq rfl

theorem sameStates_cancelLoop (henv : env.NoSendFails) (i : ℕ) (q : PeerId)
    (kept rest : List RequestedBlock) (s : State T) :
    SameStates s (cancelLoop env i q kept rest s) := by
  induction rest generalizing kept s with
  | nil => exact .refl s
  | cons r rest ih =>
    rw [cancelLoop]
    split
    case isFalse => exact ih _ s
    case isTrue =>
      have hsend := sameStates_sendMessage henv q r.cancelMsg s
      dsimp only
      split
      case h_1 => exact hsend.trans (sameStates_of_eq rfl)
      case h_2 => exact (hsend.trans (sameStates_of_eq rfl)).trans (ih _ _)

theorem sameStates_cancelPeer (henv : env.NoSendFails) (i : ℕ) (s : State T) (q : PeerId) :
    SameStates s (cancelPeer env i s q) := by
  rw [cancelPeer]
  split
  case h_1 => exact .refl s
  case h_2 state _ =>
    have hloop := sameStates_cancelLoop henv i q [] state.outstanding s
    dsimp only
    split
    case h_1 => exact hloop
    case h_2 => exact hloop.trans (sameStates_deactivate _ _ _ _)

theorem sameStates_announce (henv : env.NoSendFails) (i : ℕ) (s : State T) (q : PeerId) :
    SameStates s (announce env i s q) := by
  have hsend := sameStates_sendMessage henv q (.haveMsg (.ofNat i)) s
  rw [announce]
  split
  case h_1 => exact hsend.trans (sameStates_of_eq rfl)
  case h_2 => exact hsend

/-- A walk through the peers. -/
theorem sameStates_foldl {f : State T → PeerId → State T} (hf : ∀ s q, SameStates s (f s q))
    (keys : List PeerId) (s : State T) : SameStates s (keys.foldl f s) := by
  induction keys generalizing s with
  | nil => exact .refl s
  | cons q keys ih => exact (hf s q).trans (ih (f s q))

/-- Finishing a good piece. -/
theorem sameStates_finishPiece (henv : env.NoSendFails)
    (hv : s.pieceManager.validatePiece env.sha1 (env.garbage i) i = true) :
    SameStates s (finishPiece env p i s) := by
  rw [finishPiece, log_hashFault]
  dsimp only
  rw [if_pos hv]
  generalize hs₁ : completePiece env i { s with trace := hashFault T i ++ s.trace } = s₁
  have h₁ : SameStates s s₁ := by
    rw [← hs₁]
    exact sameStates_of_eq rfl
  have h₂ : SameStates s₁ (broadcastHave env i (cancelPieceRequests env i s₁)) :=
    (sameStates_foldl (sameStates_cancelPeer henv i) _ _).trans
      (sameStates_foldl (sameStates_announce henv i) _ _)
  refine (h₁.trans h₂).trans ?_
  rw [lastUse]
  split
  case h_1 => exact sameStates_of_eq rfl
  case h_2 => exact sameStates_deactivate _ _ _ _

/-! ### Messages -/

theorem sameStates_expressInterest (henv : env.NoSendFails) (p : PeerId) (wanted : Bool)
    (s : State T) : SameStates s (expressInterest env p wanted s) := by
  rw [expressInterest]
  split
  case isTrue => exact sameStates_sendMessage henv p _ s
  case isFalse => exact .refl s

theorem sameStates_handlePeerMessage (henv : env.NoSendFails)
    (hbad : ∀ idx c x state pm, m = .pieceMsg idx c x → s.peers.lookup p = some state →
      s.pieceManager.blockReceived idx.toNat c.toNat x = (true, pm) →
      pm.validatePiece env.sha1 (env.garbage idx.toNat) idx.toNat = true) :
    SameStates s (handlePeerMessage env p m s) := by
  rw [handlePeerMessage]
  split
  case h_1 => exact .refl s
  case h_2 state hp =>
    cases m with
    | chokeMsg => exact sameStates_of_eq rfl
    | unchokeMsg => exact sameStates_fillRequestPipeline henv p s
    | bitfieldMsg bits =>
      have hrec : SameStates s (recordBitfield p bits state s) := sameStates_of_eq rfl
      exact (hrec.trans (sameStates_expressInterest henv p _ _)).trans (sameStates_topOff henv p _)
    | haveMsg idx =>
      have hrec : SameStates s (recordHave p idx.toNat state s) := by
        rw [recordHave]
        split <;> exact sameStates_of_eq rfl
      show SameStates s (handleHave env p idx.toNat state s)
      rw [handleHave]
      split
      case isTrue => exact hrec.trans (sameStates_expressInterest henv p _ _)
      case isFalse => exact hrec
    | pieceMsg idx c x =>
      show SameStates s (handlePiece env p idx.toNat c.toNat x state s)
      rcases hb : s.pieceManager.blockReceived idx.toNat c.toNat x with ⟨completed, pm⟩
      rw [handlePiece, deliver_eq hb]
      dsimp only
      refine .trans ?_ (sameStates_topOff henv p _)
      cases completed with
      | false => exact sameStates_of_eq rfl
      | true =>
        -- the piece that is finished is a good one
        have hdel : SameStates s
            { s.setPeer p (state.answered idx.toNat c.toNat) with pieceManager := pm } :=
          sameStates_of_eq rfl
        exact hdel.trans
          (sameStates_finishPiece henv (hbad idx c x state pm rfl hp hb))
    | keepAliveMsg => exact .refl s
    | interestedMsg => exact .refl s
    | notInterestedMsg => exact .refl s
    | requestMsg => exact .refl s
    | cancelMsg => exact .refl s
    | portMsg => exact .refl s

/-- **A message closes no connection**, where no send fails and no bad piece throws its
sender out. -/
theorem sameStates_message (henv : env.NoSendFails) (hban : env.blacklists = true)
    (hbad : NoBadPiece env s (.message p m)) : SameStates s (step env s (.message p m)) := by
  rw [step]
  split
  case isFalse => exact .refl s
  case isTrue hact =>
    have hflags : SameStates s (s.setConnection p ((s.connections p).received m)) :=
      sameStates_setConnection (state_received _ m)
    refine hflags.trans (sameStates_handlePeerMessage henv fun idx c x state pm hm hp hb => ?_)
    exact hbad p idx c x state pm (by rw [hm]) hban hact hp hb

/-- **A message reports no peer**, where no bad piece is completed. -/
theorem peerCorrupted_of_mem_message (hban : env.blacklists = true)
    (hbad : NoBadPiece env s (.message p m))
    (h : .peerCorrupted q ∈ (step env s (.message p m)).trace) : .peerCorrupted q ∈ s.trace := by
  obtain ⟨new, hnew, hf⟩ := (moves_step env s (.message p m)).trace_eq
  rw [hnew] at h
  have hhead : .peerCorrupted q ∈ (head env s (.message p m)).trace := by
    rcases List.mem_append.mp h with h | h
    · obtain ⟨tr, htr⟩ := hf _ h
      exact htr.elim
    · exact h
  rcases (head_spec env s (.message p m)).trace_cases with hs | hs | hs
  · rwa [hs.2] at hhead
  · obtain ⟨p', idx, c, x, state, pm, ha, hact, hp, hb, hv, -⟩ := hs
    rw [hbad p' idx c x state pm ha hban hact hp hb] at hv
    cases hv
  · obtain ⟨p', idx, c, x, state, pm, tr, outcome, -, -, -, -, -, -, htr, -, htr'⟩ := hs
    rw [htr', htr, hashFault] at hhead
    split at hhead <;> simpa using hhead

end Coordinator

end TransferEngine
