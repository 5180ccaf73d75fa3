import TransferEngine.Coordinator.Pipeline

/-!
# Peers removed while they are referred to

A send that fails closes its connection and takes the peer out of `peers_` on the spot; so
does, in `main`, the callback for a bad piece. The functions that called it still hold a
reference into the map. Three sends are made in the middle of such a use, of a Request, a
Cancel and an announcement, and so is the call of `on_peer_corrupted`; none of them looks
again before it goes on (`TransferEngine.Coordinator.dangling_badPiece`). The fourth send,
of Interested, is safe: it is the last use of the reference, and filling the pipeline looks
the peer up afresh.

So no entry is used after it is gone in any run in which only sends of Interested fail and
no bad piece is completed (`TransferEngine.Coordinator.noDangling`).
-/

namespace TransferEngine

namespace Coordinator

open State

variable {T : Torrent} {s s' s'' : State T} {env : Env} {a : Input} {p q : PeerId}
  {state : PeerState T} {i : ℕ}

/-- **No block completes a bad piece**, where that would throw its sender out. -/
def NoBadPiece (env : Env) (s : State T) (a : Input) : Prop :=
  ∀ p idx c x state pm, a = .message p (.pieceMsg idx c x) → env.blacklists = true →
    (s.connections p).state = .active → s.peers.lookup p = some state →
    s.pieceManager.blockReceived idx.toNat c.toNat x = (true, pm) →
    pm.validatePiece env.sha1 (env.garbage idx.toNat) idx.toNat = true

/-! ### Finishing a piece -/

/-- Finishing a good piece, or a bad one whose sender stays. -/
theorem keeps_finishPiece (henv : OnlyInterestFails env) (hp : (s.peers.lookup p).isSome)
    (hgood : env.blacklists = true →
      s.pieceManager.validatePiece env.sha1 (env.garbage i) i = true) :
    Keeps s (finishPiece env p i s) := by
  rw [finishPiece, log_hashFault]
  have hfault : Keeps s { s with trace := hashFault T i ++ s.trace } := by
    refine ⟨fun _ => rfl, fun q hq => ?_⟩
    rw [hashFault] at hq
    split at hq
    case isTrue => exact hq
    case isFalse => simpa using hq
  -- the peer is still there for the use at the end
  have hlast : ∀ s₂ : State T, Keeps s s₂ → Keeps s (lastUse p i s₂) := by
    intro s₂ h
    obtain ⟨state, hstate⟩ := Option.isSome_iff_exists.mp ((h.registered p).trans hp)
    rw [lastUse, hstate]
    exact h.trans (trims_deactivate hstate).toKeeps
  refine hlast _ (hfault.trans ?_)
  split
  case isTrue =>
    generalize { s with trace := hashFault T i ++ s.trace } = s₀
    have hcomplete : Keeps s₀ (completePiece env i s₀) := by
      refine ⟨fun _ => rfl, fun q hq => ?_⟩
      have hq' : .dangling q ∈ (.wrote i _ _ :: .pieceCompleted i _ :: s₀.trace : List Event) := hq
      simpa using hq'
    exact hcomplete.trans ((trims_cancelPieceRequests henv i _).trans
      (trims_broadcastHave henv i _)).toKeeps
  case isFalse hv =>
    have hban : env.blacklists = false := by
      by_contra hc
      exact hv (hgood (by simpa using hc))
    generalize { s with trace := hashFault T i ++ s.trace } = s₀
    have hfailed : Keeps s₀ { s₀ with pieceManager := s₀.pieceManager.pieceFailed i } :=
      ⟨fun _ => rfl, fun _ hq => hq⟩
    rw [onPeerCorrupted, hban]
    exact hfailed.trans (keeps_log (by rintro _ ⟨⟩))

/-! ### Messages -/

/-- A send of Interested may take its peer away, but nobody looks at it then. -/
theorem noFault_sendMessage (env : Env) (p : PeerId) (m : PeerMessage) (s : State T)
    (h : .dangling q ∈ (sendMessage env p m s).trace) : .dangling q ∈ s.trace := by
  rcases sendMessage_cases env p m s with ⟨-, he⟩ | ⟨-, he | ⟨-, he⟩⟩
  · rwa [he] at h
  · rw [he] at h
    exact (keeps_log (s := s) (by rintro _ ⟨⟩)).noFault q h
  · rw [he, trace_disconnect] at h
    exact (keeps_log (s := s) (by rintro _ ⟨⟩)).noFault q h

theorem noFault_expressInterest (env : Env) (p : PeerId) (wanted : Bool) (s : State T)
    (h : .dangling q ∈ (expressInterest env p wanted s).trace) : .dangling q ∈ s.trace := by
  rw [expressInterest] at h
  split at h
  case isTrue => exact noFault_sendMessage env p _ s h
  case isFalse => exact h

theorem keeps_handlePiece (henv : OnlyInterestFails env) (hok : s.pieceManager.Ok) {idx c : UInt32}
    {x : List UInt8} (hp : s.peers.lookup p = some state)
    (hgood : ∀ pm, env.blacklists = true →
      s.pieceManager.blockReceived idx.toNat c.toNat x = (true, pm) →
      pm.validatePiece env.sha1 (env.garbage idx.toNat) idx.toNat = true) :
    Keeps s (handlePiece env p idx.toNat c.toNat x state s) := by
  rcases hb : s.pieceManager.blockReceived idx.toNat c.toNat x with ⟨completed, pm⟩
  have hok₁ := hok.of_blockReceived hb
  have hdel : Keeps s { s.setPeer p (state.answered idx.toNat c.toNat) with pieceManager := pm } :=
    keeps_setPeer hp rfl rfl
  rw [handlePiece, deliver_eq hb]
  cases completed with
  | false => exact hdel.trans (keeps_topOff henv hok₁)
  | true =>
    refine hdel.trans (Keeps.trans ?_ (keeps_topOff henv (ok_finishPiece idx hok₁)))
    refine keeps_finishPiece henv ?_ fun hban => hgood pm hban hb
    rw [hdel.registered, hp, Option.isSome_some]

/-- **A message of a registered peer uses no entry that is gone.** -/
theorem noFault_handlePeerMessage (henv : OnlyInterestFails env) (hok : s.pieceManager.Ok)
    (m : PeerMessage)
    (hgood : ∀ idx c x state pm, m = .pieceMsg idx c x → env.blacklists = true →
      s.peers.lookup p = some state →
      s.pieceManager.blockReceived idx.toNat c.toNat x = (true, pm) →
      pm.validatePiece env.sha1 (env.garbage idx.toNat) idx.toNat = true)
    (h : .dangling q ∈ (handlePeerMessage env p m s).trace) : .dangling q ∈ s.trace := by
  rw [handlePeerMessage] at h
  split at h
  case h_1 => exact h
  case h_2 state hp =>
    cases m with
    | chokeMsg => exact h
    | unchokeMsg => exact (keeps_fillRequestPipeline henv hok).noFault q h
    | bitfieldMsg bits =>
      have hok₁ : (recordBitfield p bits state s).pieceManager.Ok := hok
      have hint := (keeps_topOff henv ((moves_expressInterest env p _ _).ok hok₁)).noFault q h
      exact noFault_expressInterest env p _ (recordBitfield p bits state s) hint
    | haveMsg idx =>
      have hrec : (recordHave p idx.toNat state s).trace = s.trace := by
        rw [recordHave]
        split <;> rfl
      dsimp only at h
      rw [handleHave] at h
      split at h
      case isTrue => exact hrec ▸ noFault_expressInterest env p _ _ h
      case isFalse => exact hrec ▸ h
    | pieceMsg idx c x =>
      exact (keeps_handlePiece henv hok hp
        fun pm hban hb => hgood idx c x state pm rfl hban hp hb).noFault q h
    | keepAliveMsg => exact h
    | interestedMsg => exact h
    | notInterestedMsg => exact h
    | requestMsg => exact h
    | cancelMsg => exact h
    | portMsg => exact h

/-! ### Steps and runs -/

theorem noFault_step (henv : OnlyInterestFails env) (hok : s.pieceManager.Ok)
    (hgood : NoBadPiece env s a) (h : .dangling q ∈ (step env s a).trace) :
    .dangling q ∈ s.trace := by
  cases a with
  | establish p =>
    rw [step] at h
    split at h
    case isTrue => exact h
    case isFalse => exact h
  | register p => exact h
  | unregister p => exact trace_unregisterPeer (s := s) ▸ h
  | interested p => exact noFault_sendMessage env p _ s h
  | disconnect p => exact trace_disconnect p s ▸ h
  | message p m =>
    rw [step] at h
    split at h
    case isFalse => exact h
    case isTrue hact =>
      refine noFault_handlePeerMessage (s := s.setConnection p _) henv hok m ?_ h
      intro idx c x state pm hm hban hp hb
      exact hgood p idx c x state pm (by rw [hm]) hban hact hp hb

/-- **No entry is used after it is gone**, in any run in which only sends of Interested
fail and no bad piece throws its sender out. -/
theorem noDangling (henv : OnlyInterestFails env) {disk : Disk} {l : List Input}
    (hrun : Runs.Reach (step env) (NoBadPiece env) (.init T disk) l s) (p : PeerId) :
    .dangling p ∉ s.trace := by
  refine (hrun.invariant (I := fun s => s.pieceManager.Ok ∧ .dangling p ∉ s.trace)
    ⟨PieceManager.ok_init, List.not_mem_nil⟩ ?_).2
  rintro s a ⟨hok, hs⟩ hgood
  exact ⟨ok_step env a hok, fun h => hs (noFault_step henv hok hgood h)⟩

/-- An environment in which every send of Interested fails, and only these. -/
def shyEnv : Env :=
  { Env.calm with blacklists := true, sendFails := fun _ _ m => decide (m = .interestedMsg) }

/-- The peer is thrown out in the middle of its Bitfield message, and not used after. -/
theorem noDangling_shyEnv :
    (∀ p, .dangling p ∉ (run shyEnv Disk.oneByte
      [.establish 7, .register 7, .message 7 (.bitfieldMsg [0x80])] :
        State Torrent.oneByte).trace) ∧
      (run shyEnv Disk.oneByte [.establish 7, .register 7, .message 7 (.bitfieldMsg [0x80])] :
        State Torrent.oneByte).peers.keys = [] := by
  refine ⟨noDangling ?_ (Runs.reach_iff.mpr ⟨rfl, ?_⟩), by decide⟩
  · intro tr p m h
    simpa [shyEnv] using h
  · rintro l₁ a l₂ hl p idx c x state pm rfl
    have hmem : Input.message p (.pieceMsg idx c x) ∈
        [.establish 7, .register 7, .message 7 (.bitfieldMsg [0x80])] := by
      rw [hl]
      exact List.mem_append_right _ List.mem_cons_self
    simp at hmem

/-- **A bad piece.** With the callback of `main`, and no send failing, the sender of a bad
piece is thrown out, and its entry used after. -/
theorem dangling_badPiece :
    .dangling 7 ∈ (run { Env.calm with blacklists := true } Disk.oneByte
      (arrival 7 ++ [.message 7 (.pieceMsg 0 0 [0x62])]) : State Torrent.oneByte).trace := by
  decide

end Coordinator

end TransferEngine
