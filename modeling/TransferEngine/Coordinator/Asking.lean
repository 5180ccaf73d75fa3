import TransferEngine.Coordinator.Requests

/-!
# Asking for what a peer has

The piece picker picks only pieces that the peer has. But a pick is kept, as the active piece
of the peer, and used again for the next requests without another look at the bitfield. A
Bitfield message that comes in the meantime takes the place of the old bitfield, and the
active piece is kept, had or not (`TransferEngine.Coordinator.not_asksHeld_takenBack`).

Where no Bitfield message drops the active piece of its peer, every Request of a run is for a
piece that its peer has at the time (`TransferEngine.Coordinator.asksHeld_of_keepsActive`).

The bitfields change in the head of a step only. So the bitfield that is recorded when a step
sends a message is the one that is there after its head
(`TransferEngine.Coordinator.Moves.bitfield_eq`).
-/

namespace TransferEngine

/-- The Request that an event is: the peer, and the piece. -/
def Event.request? : Event → Option (PeerId × ℕ)
  | .sent p (.requestMsg i _ _) => some (p, i.toNat)
  | _ => none

/-- The Requests of a trace. -/
def asked (tr : List Event) : List (PeerId × ℕ) := tr.filterMap Event.request?

theorem asked_append (tr tr' : List Event) : asked (tr ++ tr') = asked tr ++ asked tr' :=
  List.filterMap_append

theorem asked_cons {e : Event} (h : e.request? = none) (tr : List Event) :
    asked (e :: tr) = asked tr :=
  List.filterMap_cons_none h

namespace Coordinator

open State

variable {T : Torrent} {s s' : State T} {env : Env} {a : Input} {p q : PeerId}
  {state state' : PeerState T} {i : ℕ} {m : PeerMessage}

/-- **Every Request of the step is for a piece that its peer has**, by the bitfield that is
recorded when it is sent. -/
def AsksHeld (env : Env) (s : State T) (a : Input) : Prop :=
  ∀ new, (step env s a).trace = new ++ s.trace → ∀ p i c n, .sent p (.requestMsg i c n) ∈ new →
    ∃ state, (head env s a).peers.lookup p = some state ∧ state.bitfield.has i.toNat = true

/-- **No Bitfield message drops the active piece** of its peer. -/
def KeepsActive (s : State T) (a : Input) : Prop :=
  ∀ p bits state i, a = .message p (.bitfieldMsg bits) → (s.connections p).state = .active →
    s.peers.lookup p = some state → state.activePiece = some i →
    (Bitfield.ofBytes bits T.count).has i = true

instance (s : State T) (a : Input) : Decidable (KeepsActive s a) :=
  match a with
  | .message p (.bitfieldMsg bits) =>
    decidable_of_iff ((s.connections p).state = .active → ∀ state ∈ s.peers.lookup p,
        ∀ i ∈ state.activePiece, (Bitfield.ofBytes bits T.count).has i = true)
      ⟨fun h _ _ state i ha => by cases ha; exact fun hact hp hi => h hact state hp i hi,
        fun h hact state hp i hi => h p bits state i rfl hact hp hi⟩
  | .message _ .keepAliveMsg | .message _ .chokeMsg | .message _ .unchokeMsg
  | .message _ .interestedMsg | .message _ .notInterestedMsg | .message _ (.haveMsg _)
  | .message _ (.requestMsg _ _ _) | .message _ (.pieceMsg _ _ _) | .message _ (.cancelMsg _ _ _)
  | .message _ (.portMsg _) | .establish _ | .register _ | .unregister _ | .interested _
  | .disconnect _ => isTrue (by rintro _ _ _ _ ⟨⟩)

/-! ### The active piece -/

/-- **Every active piece is one that its peer has.** -/
structure Holding (s : State T) : Prop where
  /-- The entries of the piece manager are sound. -/
  ok : s.pieceManager.Ok
  /-- The peer has its active piece. -/
  held : ∀ p state, s.peers.lookup p = some state →
    ∀ i, state.activePiece = some i → state.bitfield.has i = true

theorem holding_init (disk : Disk) : Holding (.init T disk) :=
  ⟨PieceManager.ok_init, fun _ _ hp => nomatch hp⟩

theorem Holding.move (h : Holding s) (hm : Move s s') : Holding s' where
  ok := hm.ok h.ok
  held := by
    intro q state' hq i hi
    obtain ⟨state, hs, hrev⟩ := hm.revised hq
    cases hrev with
    | less _ hless =>
      rw [hless.bitfield]
      exact h.held q state hs i (hless.activePiece i hi)
    | push j block pm hlt hch hfrom hg =>
      cases hi
      rcases hfrom with hact | hbit
      · exact h.held q state hs _ hact
      · exact hbit

theorem Holding.moves (h : Holding s) (hm : Moves s s') : Holding s' :=
  Runs.preserved_chain hm (fun _ _ ht hm => ht.move hm) h

/-- Moves change no bitfield. -/
theorem Moves.bitfield_eq (hm : Moves s s') (hq : s'.peers.lookup q = some state') :
    ∃ state, s.peers.lookup q = some state ∧ state'.bitfield = state.bitfield := by
  induction hm generalizing state' with
  | refl => exact ⟨state', hq, rfl⟩
  | tail _ hm ih =>
    obtain ⟨mid, hmid, hrev⟩ := hm.revised hq
    obtain ⟨state, hs, hb⟩ := ih hmid
    refine ⟨state, hs, ?_⟩
    cases hrev with
    | less _ hless => exact hless.bitfield.trans hb
    | push => exact hb

/-- The same peers. -/
theorem Holding.congr (h : Holding s) (hok : s'.pieceManager.Ok) (hpeers : s'.peers = s.peers) :
    Holding s' :=
  ⟨hok, hpeers ▸ h.held⟩

/-- One entry changes. -/
theorem Holding.insert (h : Holding s) (hok : s'.pieceManager.Ok)
    (hpeers : s'.peers = s.peers.insert p state)
    (hstate : ∀ i, state.activePiece = some i → state.bitfield.has i = true) : Holding s' where
  ok := hok
  held := by
    intro q state' hq
    rw [hpeers] at hq
    obtain ⟨rfl, rfl⟩ | ⟨-, hq⟩ := AList.of_lookup_insert hq
    · exact hstate
    · exact h.held q state' hq

/-- What a message itself changes. -/
theorem Holding.headMessage (h : Holding s) (hp : s.peers.lookup p = some state)
    (hkeep : ∀ bits i, m = .bitfieldMsg bits → state.activePiece = some i →
      (Bitfield.ofBytes bits T.count).has i = true) : Holding (headMessage env p state s m) := by
  have hs := h.held p state hp
  cases m with
  | chokeMsg => exact h.insert (ok_failRequests h.ok) rfl fun _ hi => nomatch hi
  | bitfieldMsg bits => exact h.insert h.ok rfl fun i hi => hkeep bits i rfl hi
  | haveMsg idx =>
    rw [Coordinator.headMessage, recordHave]
    split
    case isTrue =>
      refine h.insert h.ok rfl fun i hi => ?_
      exact Bitfield.has_set_true.mpr (Or.inr (hs i hi))
    case isFalse => exact h
  | pieceMsg idx c x =>
    rcases hb : s.pieceManager.blockReceived idx.toNat c.toNat x with ⟨completed, pm⟩
    rw [Coordinator.headMessage, deliver_eq hb]
    have hdel : Holding
        { s.setPeer p (state.answered idx.toNat c.toNat) with pieceManager := pm } :=
      h.insert (h.ok.of_blockReceived hb) rfl hs
    cases completed with
    | false => exact hdel
    | true =>
      -- settling a piece may throw the peer out, which leaves the other entries alone
      show Holding (settle env p idx.toNat _)
      rw [settle, log_hashFault]
      dsimp only
      split
      case isTrue => exact hdel.congr hdel.ok.pieceCompleted rfl
      case isFalse =>
        have hfail : Holding ({ s.setPeer p (state.answered idx.toNat c.toNat) with
            trace := .peerCorrupted p :: (hashFault T idx.toNat ++ s.trace)
            pieceManager := pm.pieceFailed idx.toNat } : State T) :=
          hdel.congr hdel.ok.pieceFailed rfl
        rw [onPeerCorrupted]
        split
        case isTrue => exact hfail.moves (moves_disconnect p _)
        case isFalse => exact hfail
  | keepAliveMsg => exact h
  | unchokeMsg => exact h
  | interestedMsg => exact h
  | notInterestedMsg => exact h
  | requestMsg => exact h
  | cancelMsg => exact h
  | portMsg => exact h

/-- **The head of a step** in which no active piece is dropped. -/
theorem Holding.head (h : Holding s) (ha : KeepsActive s a) : Holding (head env s a) := by
  cases a with
  | establish p =>
    rw [Coordinator.head]
    split <;> exact h.congr h.ok rfl
  | register p => exact h.insert h.ok rfl fun _ hi => absurd hi (by simp)
  | unregister p => exact h.move (.leave p)
  | interested p => exact h
  | disconnect p => exact h
  | message p m =>
    rw [Coordinator.head]
    split
    case isFalse => exact h
    case isTrue hact =>
      have hset : Holding (s.setConnection p ((s.connections p).received m)) := h.congr h.ok rfl
      split
      case h_1 => exact hset
      case h_2 state hp =>
        refine hset.headMessage hp fun bits i hm hi => ?_
        exact ha p bits state i (by rw [hm]) hact hp hi

/-! ### The Requests of a step -/

@[simp] theorem asked_sendMessage (hm : ∀ i c n, m ≠ .requestMsg i c n) :
    asked (sendMessage env p m s).trace = asked s.trace := by
  have he : (Event.sent p m).request? = none := by
    cases m with
    | requestMsg i c n => exact absurd rfl (hm i c n)
    | _ => rfl
  rcases sendMessage_cases env p m s with ⟨-, hs⟩ | ⟨-, hs | ⟨-, hs⟩⟩
  · rw [hs]
  · rw [hs]
    exact asked_cons he _
  · rw [hs, trace_disconnect]
    exact asked_cons he _

theorem asked_expressInterest (env : Env) (p : PeerId) (wanted : Bool) (s : State T) :
    asked (expressInterest env p wanted s).trace = asked s.trace := by
  rw [expressInterest]
  split
  case isTrue => exact asked_sendMessage (by rintro _ _ _ ⟨⟩)
  case isFalse => rfl

theorem trace_deactivate (i : ℕ) (q : PeerId) (state : PeerState T) (s : State T) :
    (deactivate i q state s).trace = s.trace := by
  rw [deactivate]
  split <;> rfl

theorem asked_cancelLoop (env : Env) (i : ℕ) (q : PeerId) (kept rest : List RequestedBlock)
    (s : State T) : asked (cancelLoop env i q kept rest s).trace = asked s.trace := by
  induction rest generalizing kept s with
  | nil => rfl
  | cons r rest ih =>
    rw [cancelLoop]
    split
    case isFalse => exact ih _ s
    case isTrue =>
      have hsend : asked (sendMessage env q r.cancelMsg s).trace = asked s.trace :=
        asked_sendMessage (by rintro _ _ _ ⟨⟩)
      dsimp only
      split
      case h_1 => exact (asked_cons rfl _).trans hsend
      case h_2 => exact (ih _ _).trans hsend

theorem asked_cancelPeer (env : Env) (i : ℕ) (s : State T) (q : PeerId) :
    asked (cancelPeer env i s q).trace = asked s.trace := by
  rw [cancelPeer]
  split
  case h_1 => rfl
  case h_2 state _ =>
    dsimp only
    split
    case h_1 => exact asked_cancelLoop env i q [] state.outstanding s
    case h_2 =>
      rw [trace_deactivate]
      exact asked_cancelLoop env i q [] state.outstanding s

theorem asked_announce (env : Env) (i : ℕ) (s : State T) (q : PeerId) :
    asked (announce env i s q).trace = asked s.trace := by
  have hsend : asked (sendMessage env q (.haveMsg (.ofNat i)) s).trace = asked s.trace :=
    asked_sendMessage (by rintro _ _ _ ⟨⟩)
  rw [announce]
  split
  case h_1 => exact (asked_cons rfl _).trans hsend
  case h_2 => exact hsend

/-- A walk through the peers. -/
theorem asked_foldl {f : State T → PeerId → State T}
    (hf : ∀ s q, asked (f s q).trace = asked s.trace) (keys : List PeerId) (s : State T) :
    asked (keys.foldl f s).trace = asked s.trace := by
  induction keys generalizing s with
  | nil => rfl
  | cons q keys ih => exact (ih (f s q)).trans (hf s q)

theorem asked_hashFault (i : ℕ) (tr : List Event) : asked (hashFault T i ++ tr) = asked tr := by
  rw [hashFault]
  split
  case isTrue => rfl
  case isFalse => exact asked_cons rfl tr

/-- Finishing a piece asks for nothing. -/
theorem asked_finishPiece (env : Env) (p : PeerId) (i : ℕ) (s : State T) :
    asked (finishPiece env p i s).trace = asked s.trace := by
  have hlast : ∀ t : State T, asked (lastUse p i t).trace = asked t.trace := by
    intro t
    rw [lastUse]
    split
    case h_1 => exact asked_cons rfl _
    case h_2 => rw [trace_deactivate]
  rw [finishPiece, log_hashFault]
  dsimp only
  rw [hlast, ← asked_hashFault (T := T) i s.trace]
  split
  case isTrue =>
    rw [broadcastHave, asked_foldl (asked_announce env i), cancelPieceRequests,
      asked_foldl (asked_cancelPeer env i), completePiece, onPieceCompleted]
    exact (asked_cons rfl _).trans (asked_cons rfl _)
  case isFalse =>
    rw [onPeerCorrupted]
    split
    case isTrue =>
      rw [trace_disconnect]
      exact asked_cons rfl _
    case isFalse => exact asked_cons rfl _

/-- What is asked for beyond what was: only of one peer, and only pieces of one bitfield. -/
def AsksOnly (p : PeerId) (bits : Bitfield T.count) (s s' : State T) : Prop :=
  ∃ new, asked s'.trace = new ++ asked s.trace ∧ ∀ r ∈ new, r.1 = p ∧ bits.has r.2 = true

theorem asksOnly_of_asked {bits : Bitfield T.count} (h : asked s'.trace = asked s.trace) :
    AsksOnly p bits s s' :=
  ⟨[], h, fun _ hr => nomatch hr⟩

theorem AsksOnly.trans {bits : Bitfield T.count} {s'' : State T} (h : AsksOnly p bits s s')
    (h' : AsksOnly p bits s' s'') : AsksOnly p bits s s'' := by
  obtain ⟨new, hnew, hall⟩ := h
  obtain ⟨new', hnew', hall'⟩ := h'
  refine ⟨new' ++ new, by rw [hnew', hnew, List.append_assoc], fun r hr => ?_⟩
  rcases List.mem_append.mp hr with hr | hr
  · exact hall' r hr
  · exact hall r hr

/-- A Request for a block of a piece. -/
theorem asksOnly_request {bits : Bitfield T.count} {i : Fin T.count} {block : Block}
    (hpiece : block.piece = i) (hi : bits.has i = true) :
    AsksOnly p bits s (sendMessage env p block.requestMsg s) := by
  have he : (Event.sent p block.requestMsg).request? = some (p, (i : ℕ)) := by
    show some (p, (UInt32.ofNat block.piece).toNat) = _
    rw [hpiece, UInt32.toNat_ofNat_of_lt' (Torrent.lt_of_lt_count i.isLt)]
  have hone : ∀ tr, asked (.sent p block.requestMsg :: tr) = [(p, (i : ℕ))] ++ asked tr :=
    fun tr => List.filterMap_cons_some he
  rcases sendMessage_cases env p block.requestMsg s with ⟨-, hs⟩ | ⟨-, hs⟩
  · rw [hs]
    exact asksOnly_of_asked rfl
  · refine ⟨[(p, (i : ℕ))], ?_, ?_⟩
    · rcases hs with hs | ⟨-, hs⟩
      · rw [hs]
        exact hone _
      · rw [hs, trace_disconnect]
        exact hone _
    · intro r hr
      rw [List.mem_singleton.mp hr]
      exact ⟨rfl, hi⟩

theorem asked_choosePiece {i : Fin T.count} (h : choosePiece env p state s = some (i, s')) :
    asked s'.trace = asked s.trace := by
  rcases choosePiece_some h with ⟨-, rfl⟩ | ⟨-, -, -, rfl⟩
  · rfl
  · exact asked_cons rfl _

/-- **A round asks for a piece that the peer has.** -/
theorem asksOnly_fillRound {r : State T ⊕ State T} (h : Holding s) {bits : Bitfield T.count}
    (hbits : ∀ state, s.peers.lookup p = some state → state.bitfield = bits)
    (hr : FillRound env p s r) : AsksOnly p bits s (r.elim id id) := by
  cases hr with
  | gone => exact asksOnly_of_asked (asked_cons rfl _)
  | full => exact asksOnly_of_asked rfl
  | nothing => exact asksOnly_of_asked rfl
  | giveUp state i pm s₁ hp hlt hc hg =>
    have hpick : AsksOnly p bits s s₁ := asksOnly_of_asked (asked_choosePiece hc)
    exact hpick.trans (asksOnly_of_asked rfl)
  | ask state i block pm s₁ hp hlt hc hg =>
    obtain ⟨hs₁, -, hfrom⟩ := moves_choosePiece hp hc
    have hpick : AsksOnly p bits s s₁ := asksOnly_of_asked (asked_choosePiece hc)
    have hset : AsksOnly p bits s₁
        ({ s₁ with pieceManager := pm }.setPeer p (state.push i block)) :=
      asksOnly_of_asked rfl
    obtain ⟨-, hpiece, -⟩ := PieceManager.getNextBlock_tiles (h.moves hs₁).ok i.isLt hg
    have hi : bits.has i = true := by
      rw [← hbits state hp]
      rcases hfrom with hact | hbit
      · exact h.held p state hp i hact
      · exact hbit
    exact (hpick.trans hset).trans (asksOnly_request hpiece hi)

/-- **The loop asks for pieces that the peer has.** -/
theorem asksOnly_fillLoop (env : Env) (fuel : ℕ) (h : Holding s) {bits : Bitfield T.count}
    (hbits : ∀ state, s.peers.lookup p = some state → state.bitfield = bits)
    (hch : s.choking p = false) : AsksOnly p bits s (fillLoop env p fuel s) := by
  rw [fillLoop_eq_bounded]
  refine (Loops.bounded_rule (I := fun t => Moves s t ∧ AsksOnly p bits s t) fuel
    ⟨.refl, asksOnly_of_asked rfl⟩ fun t ht => ?_).2
  obtain ⟨hm, hask⟩ := ht
  have hround := fillRound_spec env p t
  refine ⟨hm.trans (moves_fillRound (hm.choking_eq.trans hch) hround),
    hask.trans (asksOnly_fillRound (h.moves hm) (fun state' hp' => ?_) hround)⟩
  -- the rounds before this one change no bitfield
  obtain ⟨state, hp, hb⟩ := Moves.bitfield_eq hm hp'
  exact hb.trans (hbits state hp)

/-- **Filling the pipeline of a peer asks for pieces that the peer has**, by the bitfield that
is recorded, and asks nobody else. -/
theorem asksOnly_fillRequestPipeline (env : Env) (h : Holding s)
    (hp : s.peers.lookup p = some state) :
    AsksOnly p state.bitfield s (fillRequestPipeline env p s) := by
  rw [fillRequestPipeline]
  split
  case isTrue => exact asksOnly_of_asked rfl
  case isFalse hch =>
    rw [hp]
    refine asksOnly_fillLoop env _ h (fun state' hp' => ?_) (by simpa using hch)
    rw [hp] at hp'
    cases hp'
    rfl

/-- The Requests of a step are for pieces that their peers have after its head. -/
def AsksAfter (t s s' : State T) : Prop :=
  ∃ new, asked s'.trace = new ++ asked s.trace ∧
    ∀ r ∈ new, ∃ state, t.peers.lookup r.1 = some state ∧ state.bitfield.has r.2 = true

theorem asksAfter_of_asked {t : State T} (h : asked s'.trace = asked s.trace) :
    AsksAfter t s s' :=
  ⟨[], h, fun _ hr => nomatch hr⟩

/-- Filling a pipeline at the end of a step. -/
theorem asksAfter_fillRequestPipeline {t s' : State T} (h : Holding t) (hm : Moves t s')
    (ha : asked s'.trace = asked s.trace) : AsksAfter t s (fillRequestPipeline env p s') := by
  rcases hp : s'.peers.lookup p with _ | state
  · rw [fillRequestPipeline, hp]
    split <;> exact asksAfter_of_asked ha
  · obtain ⟨new, hnew, hall⟩ := asksOnly_fillRequestPipeline env (h.moves hm) hp
    obtain ⟨state₀, hp₀, hb⟩ := Moves.bitfield_eq hm hp
    refine ⟨new, by rw [hnew, ha], fun r hr => ?_⟩
    obtain ⟨hpr, hbit⟩ := hall r hr
    rw [hpr]
    exact ⟨state₀, hp₀, by rwa [← hb]⟩

theorem asksAfter_topOff {t s' : State T} (h : Holding t) (hm : Moves t s')
    (ha : asked s'.trace = asked s.trace) : AsksAfter t s (topOff env p s') := by
  rw [topOff]
  split
  case isTrue => exact asksAfter_of_asked ha
  case isFalse => exact asksAfter_fillRequestPipeline h hm ha

/-- The Requests that a message brings about. -/
theorem asksAfter_handlePeerMessage (hp : s.peers.lookup p = some state)
    (h : Holding (headMessage env p state s m)) :
    AsksAfter (headMessage env p state s m) s (handlePeerMessage env p m s) := by
  rw [handlePeerMessage, hp]
  cases m with
  | unchokeMsg => exact asksAfter_fillRequestPipeline h .refl rfl
  | bitfieldMsg bits =>
    exact asksAfter_topOff h (moves_expressInterest env p _ _) (asked_expressInterest env p _ _)
  | haveMsg idx =>
    refine asksAfter_of_asked ?_
    -- a Have brings about an Interested at most: the pipeline is not filled
    have hrec : (recordHave p idx.toNat state s).trace = s.trace := by
      rw [recordHave]
      split <;> rfl
    show asked (handleHave env p idx.toNat state s).trace = _
    rw [handleHave]
    split
    case isTrue => rw [asked_expressInterest, hrec]
    case isFalse => rw [hrec]
  | pieceMsg idx c x =>
    rcases hb : s.pieceManager.blockReceived idx.toNat c.toNat x with ⟨completed, pm⟩
    show AsksAfter _ s (handlePiece env p idx.toNat c.toNat x state s)
    rw [headMessage, deliver_eq hb] at h ⊢
    rw [handlePiece, deliver_eq hb]
    cases completed with
    | true => exact asksAfter_topOff h (moves_finishPiece env p idx _) (asked_finishPiece env p _ _)
    | false => exact asksAfter_topOff h .refl rfl
  | chokeMsg => exact asksAfter_of_asked rfl
  | keepAliveMsg => exact asksAfter_of_asked rfl
  | interestedMsg => exact asksAfter_of_asked rfl
  | notInterestedMsg => exact asksAfter_of_asked rfl
  | requestMsg => exact asksAfter_of_asked rfl
  | cancelMsg => exact asksAfter_of_asked rfl
  | portMsg => exact asksAfter_of_asked rfl

/-- **The Requests of a step** that starts with its active pieces held. -/
theorem asksAfter_step (h : Holding (head env s a)) :
    AsksAfter (head env s a) s (step env s a) := by
  cases a with
  | establish p =>
    rw [step]
    split <;> exact asksAfter_of_asked rfl
  | register p => exact asksAfter_of_asked rfl
  | unregister p => exact asksAfter_of_asked (congrArg asked trace_unregisterPeer)
  | interested p => exact asksAfter_of_asked (asked_sendMessage (by rintro _ _ _ ⟨⟩))
  | disconnect p => exact asksAfter_of_asked (congrArg asked (trace_disconnect p s))
  | message p m =>
    rw [head] at h ⊢
    rw [step]
    by_cases hact : (s.connections p).state = .active
    · rw [if_pos hact] at h
      rw [if_pos hact, if_pos hact]
      rcases hp : s.peers.lookup p with _ | state
      · rw [handlePeerMessage, peers_setConnection, hp]
        exact asksAfter_of_asked rfl
      · rw [hp] at h
        exact asksAfter_handlePeerMessage (s := s.setConnection p _) hp h
    · rw [if_neg hact, if_neg hact]
      exact asksAfter_of_asked rfl

theorem asksHeld_of_holding (h : Holding (head env s a)) : AsksHeld env s a := by
  intro new hnew p i c n hmem
  obtain ⟨new', hnew', hall⟩ := asksAfter_step h
  rw [hnew, asked_append] at hnew'
  have hask : (p, i.toNat) ∈ asked new := List.mem_filterMap.mpr ⟨_, hmem, rfl⟩
  rw [List.append_cancel_right hnew'] at hask
  exact hall _ hask

/-! ### Runs -/

theorem Holding.step (h : Holding s) (ha : KeepsActive s a) : Holding (step env s a) :=
  (h.head ha).moves (moves_step env s a)

/-- **Every Request of a run is for a piece that its peer has**, if no Bitfield message of the
run drops the active piece of its peer. -/
theorem asksHeld_of_keepsActive (env : Env) (disk : Disk) {l : List Input}
    (h : Runs.Throughout (Coordinator.step env) (.init T disk) l KeepsActive) :
    Runs.Throughout (Coordinator.step env) (.init T disk) l (AsksHeld env) := by
  induction l using List.reverseRecOn with
  | nil => exact Runs.throughout_nil _
  | append_singleton l a ih =>
    rw [Runs.throughout_snoc] at h ⊢
    have hs : Holding (l.foldl (Coordinator.step env) (.init T disk)) :=
      (Runs.reach_iff.mpr ⟨rfl, h.1⟩).invariant (holding_init disk) fun _ _ hs ha => hs.step ha
    exact ⟨ih h.1, asksHeld_of_holding (hs.head h.2)⟩

/-- A peer that has five pieces is asked for all of them, the last being its active piece, and
another peer spoils that piece, so that it has to be asked for again. -/
def spoiled : List Input :=
  [.establish 7, .register 7, .message 7 (.bitfieldMsg [0xf8]), .message 7 .unchokeMsg,
    .establish 8, .register 8, .message 8 (.pieceMsg 4 0 [0x62])]

/-- The first peer tells that it has no other piece any more, and is asked for that one again when
it answers. -/
theorem asksHeld_spoiled :
    let l : List Input := spoiled ++ [.message 7 (.bitfieldMsg [0x08]),
      .message 7 (.pieceMsg 0 0 [0x61])]
    let start : State (Torrent.letters 5) := .init _ Disk.oneByte
    Runs.Throughout (Coordinator.step Env.calm) start l (AsksHeld Env.calm) ∧
      (l.foldl (Coordinator.step Env.calm) start).trace.head? =
        some (.sent 7 (.requestMsg 4 0 1)) :=
  ⟨asksHeld_of_keepsActive Env.calm Disk.oneByte (by decide +kernel), by decide +kernel⟩

/-- The first peer takes all its pieces back. -/
def takenBack : List Input := spoiled ++ [.message 7 (.bitfieldMsg [0x00])]

/-- **A Request for a piece that was taken back.** The first peer answers one of its five
requests, and is asked for its active piece, which it does not have any more. -/
theorem not_asksHeld_takenBack :
    ¬Runs.Throughout (Coordinator.step Env.calm) (.init (Torrent.letters 5) Disk.oneByte)
      (takenBack ++ [.message 7 (.pieceMsg 0 0 [0x61])]) (AsksHeld Env.calm) := by
  intro h
  have hlast := h takenBack (.message 7 (.pieceMsg 0 0 [0x61])) [] rfl
  obtain ⟨state, hp, hbit⟩ := hlast [.sent 7 (.requestMsg 4 0 1), .sent 8 (.haveMsg 0),
    .sent 7 (.haveMsg 0), .wrote 0 [0x61] .landed, .pieceCompleted 0 [0x61]]
    (by decide +kernel) 7 4 0 1 List.mem_cons_self
  have hnone : ((Coordinator.head Env.calm
      (takenBack.foldl (Coordinator.step Env.calm) (.init (Torrent.letters 5) Disk.oneByte))
      (.message 7 (.pieceMsg 0 0 [0x61]))).peers.lookup 7).all fun state =>
        state.bitfield.has 4 == false := by decide +kernel
  rw [hp] at hnone
  simp only [Option.all_some] at hnone
  rw [show (4 : UInt32).toNat = 4 from rfl] at hbit
  rw [hbit] at hnone
  cases hnone

end Coordinator

end TransferEngine
