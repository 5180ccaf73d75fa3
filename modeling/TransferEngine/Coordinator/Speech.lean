import TransferEngine.Coordinator.Asking
import TransferEngine.Coordinator.Completion

/-!
# What is said to a peer

After the handshake a connection carries four kinds of messages from us, and no others: that we are
interested, requests, cancellations and announcements. They come in an order that a peer can follow
(`TransferEngine.Coordinator.Proper`). A request is made only after the peer has been told that we
are interested, and for a block of a piece that is not complete; a request is cancelled only after
it was made, and when its piece is complete; and a piece is announced to a peer once, when it is
complete.

All of it holds in every run in which no erased entry of `peers_` is used, whichever sends fail
(`TransferEngine.Coordinator.proper_run`). The
invariant (`TransferEngine.Coordinator.Speaks`) says of what is recorded of a peer what the peer has
heard of it. A send can find its connection closed, and says nothing then; so each clause of it has
to allow for a peer that does not hear anything any more.
-/

namespace TransferEngine

/-- The Request message for a request. -/
def RequestedBlock.requestMsg (r : RequestedBlock) : PeerMessage :=
  .requestMsg (.ofNat r.piece) (.ofNat r.begin) (.ofNat r.length)

/-- What the fields of a Request message hold. -/
theorem RequestedBlock.Tiles.ofNat_toNat {T : Torrent} {r : RequestedBlock} (h : r.Tiles T) :
    (⟨(UInt32.ofNat r.piece).toNat, (UInt32.ofNat r.begin).toNat, (UInt32.ofNat r.length).toNat⟩ :
      RequestedBlock) = r := by
  obtain ⟨hi, -, hlt, hlen⟩ := h
  have hi' : r.piece < 2 ^ 32 := Torrent.lt_of_lt_count hi
  have hc : r.begin < 2 ^ 32 := hlt.trans Torrent.getPieceLength_lt
  have hn : r.length < 2 ^ 32 := by
    rw [hlen]
    exact (Nat.min_le_left _ _).trans_lt (by decide)
  rw [UInt32.toNat_ofNat_of_lt' hi', UInt32.toNat_ofNat_of_lt' hc, UInt32.toNat_ofNat_of_lt' hn]

namespace Coordinator

open State

variable {T : Torrent} {s s' : State T} {env : Env} {a : Input} {p q : PeerId}
  {state state' : PeerState T} {w : PeerId → ℕ → Prop} {i : ℕ} {m : PeerMessage} {e : Event}
  {idx : UInt32}

/-- **What may be said to a peer**, after what happened. -/
def Proper (T : Torrent) (p : PeerId) (before : List Event) : PeerMessage → Prop
  | .interestedMsg => True
  | .requestMsg i c n =>
    .sent p .interestedMsg ∈ before ∧ (⟨i.toNat, c.toNat, n.toNat⟩ : RequestedBlock).Tiles T ∧
      ∀ d, .pieceCompleted i.toNat d ∉ before
  | .cancelMsg i c n =>
    .sent p (.requestMsg i c n) ∈ before ∧ ∃ d, .pieceCompleted i.toNat d ∈ before
  | .haveMsg i =>
    (∃ d, .pieceCompleted i.toNat d ∈ before) ∧
      (i.toNat < T.count → .sent p (.haveMsg i) ∉ before)
  | _ => False

/-- The peer was sent a message, or cannot be sent any. -/
def Heard (s : State T) (p : PeerId) (m : PeerMessage) : Prop :=
  .sent p m ∈ s.trace ∨ (s.connections p).state = .disconnected

/-- No peer waits to hear whether we are interested in a piece. -/
def nobody (_ : PeerId) (_ : ℕ) : Prop := False

/-- **What the peers have heard of what is recorded of them.** The peers of `w` have just told that
they have a piece, and not been told yet whether we are interested in it. -/
structure Speaks (w : PeerId → ℕ → Prop) (s : State T) : Prop where
  /-- The trace and our bitfield agree. -/
  verified : Verified s
  /-- What was said was proper. -/
  proper : ∀ after p m before, s.trace = after ++ .sent p m :: before → Proper T p before m
  /-- The flag of a connection is set by a message. -/
  interested : ∀ p, (s.connections p).amInterested = true → .sent p .interestedMsg ∈ s.trace
  /-- A peer that has a piece we lack knows that we are interested. -/
  bitfield : ∀ p state i, s.peers.lookup p = some state → ¬w p i →
    state.bitfield.has i = true → s.pieceManager.hasPiece i = true ∨ Heard s p .interestedMsg
  /-- So does a peer that we are asking for one. -/
  active : ∀ p state i, s.peers.lookup p = some state → state.activePiece = some i →
    Heard s p .interestedMsg
  /-- The requests that are recorded were made. -/
  asked : ∀ p state r, s.peers.lookup p = some state → r ∈ state.outstanding →
    Heard s p r.requestMsg

theorem Heard.mono (h : Heard s p m) (htr : ∀ e ∈ s.trace, e ∈ s'.trace)
    (hconn : (s.connections p).state = .disconnected → (s'.connections p).state = .disconnected) :
    Heard s' p m :=
  h.imp (htr _) hconn

/-- What is sent is heard. -/
theorem heard_sendMessage : Heard (sendMessage env p m s) p m := by
  rcases sendMessage_cases env p m s with ⟨hc, he⟩ | ⟨-, he | ⟨-, he⟩⟩
  · rw [he]
    exact Or.inr hc
  · rw [he]
    exact Or.inl List.mem_cons_self
  · rw [he, Heard, trace_disconnect]
    exact Or.inl List.mem_cons_self

/-- What is proper stays so if nothing is said. -/
theorem proper_append {tr new : List Event} (h : ∀ after p m before,
      tr = after ++ .sent p m :: before → Proper T p before m)
    (hnew : ∀ p m, .sent p m ∉ new) : ∀ after p m before,
      new ++ tr = after ++ .sent p m :: before → Proper T p before m := by
  induction new with
  | nil => exact h
  | cons e new ih =>
    rintro (_ | ⟨e', after⟩) p m before heq
    · rw [List.cons_append, List.nil_append, List.cons.injEq] at heq
      exact absurd (heq.1 ▸ List.mem_cons_self) (hnew p m)
    · rw [List.cons_append, List.cons_append, List.cons.injEq] at heq
      exact ih (fun p m hmem => hnew p m (List.mem_cons_of_mem _ hmem)) after p m before heq.2

namespace Speaks

theorem init (disk : Disk) : Speaks w (.init T disk) where
  verified := verified_init disk
  proper := fun after p m before heq => by simp [State.init] at heq
  interested := fun p h => by simp [State.init] at h
  bitfield := fun p state i hp => by simp [State.init] at hp
  active := fun p state i hp => by simp [State.init] at hp
  asked := fun p state r hp => by simp [State.init] at hp

/-- **Nothing is said**, and what is recorded of the peers was recorded before, or they have
heard of it. -/
theorem revise (h : Speaks w s) (new : List Event) (hv : Verified s')
    (htr : s'.trace = new ++ s.trace) (hnew : ∀ p m, .sent p m ∉ new)
    (hhas : ∀ i, s.pieceManager.hasPiece i = true → s'.pieceManager.hasPiece i = true)
    (hconn : ∀ p, (s.connections p).state = .disconnected →
      (s'.connections p).state = .disconnected)
    (hint : ∀ p, (s'.connections p).amInterested = true →
      (s.connections p).amInterested = true ∨ .sent p .interestedMsg ∈ s.trace)
    (hpeers : ∀ p state', s'.peers.lookup p = some state' → ∃ state, s.peers.lookup p = some state ∧
      state'.bitfield = state.bitfield ∧
      (∀ i, state'.activePiece = some i →
        state.activePiece = some i ∨ Heard s p .interestedMsg) ∧
      ∀ r ∈ state'.outstanding, r ∈ state.outstanding ∨ Heard s p r.requestMsg) :
    Speaks w s' := by
  have hsub : ∀ e ∈ s.trace, e ∈ s'.trace := fun e he => by
    rw [htr]
    exact List.mem_append_right _ he
  have hmono : ∀ {p m}, Heard s p m → Heard s' p m := fun hh => hh.mono hsub (hconn _)
  exact
    { verified := hv
      proper := by
        rw [htr]
        exact proper_append h.proper hnew
      interested := fun p hp => hsub _ ((hint p hp).elim (h.interested p) id)
      bitfield := fun p state' i hp hw hi => by
        obtain ⟨state, hp₀, hbit, -, -⟩ := hpeers p state' hp
        exact (h.bitfield p state i hp₀ hw (hbit ▸ hi)).imp (hhas i) hmono
      active := fun p state' i hp hi => by
        obtain ⟨state, hp₀, -, hact, -⟩ := hpeers p state' hp
        exact hmono ((hact i hi).elim (h.active p state i hp₀) id)
      asked := fun p state' r hp hr => by
        obtain ⟨state, hp₀, -, -, hout⟩ := hpeers p state' hp
        exact hmono ((hout r hr).elim (h.asked p state r hp₀) id) }

/-- Something happens, and nobody is told. -/
theorem log (h : Speaks w s) (hc : ∀ i, e.completes i = false) (he : ∀ p m, e ≠ .sent p m) :
    Speaks w (s.log e) :=
  h.revise [e] (h.verified.of_cons h.verified.ok (fun _ => rfl) rfl hc
      (fun p _ heq => absurd heq (he p _)))
    rfl (fun p m hmem => he p m (List.mem_singleton.mp hmem).symm) (fun _ hi => hi)
    (fun _ hc => hc) (fun _ hi => Or.inl hi)
    fun _ state' hp => ⟨state', hp, rfl, fun _ hi => Or.inl hi, fun _ hr => Or.inl hr⟩

/-- **Something proper is said.** -/
theorem say (h : Speaks w s) (hm : Proper T p s.trace m) : Speaks w (s.log (.sent p m)) := by
  have hsub : ∀ e ∈ s.trace, e ∈ (s.log (.sent p m)).trace := fun e he => List.mem_cons_of_mem _ he
  have hmono : ∀ {p' m'}, Heard s p' m' → Heard (s.log (.sent p m)) p' m' :=
    fun hh => hh.mono hsub id
  exact
    { verified := by
        refine h.verified.of_cons h.verified.ok (fun _ => rfl) rfl (fun _ => rfl) fun p' i heq => ?_
        obtain ⟨rfl, rfl⟩ := Event.sent.inj heq
        exact hm.1
      proper := by
        rintro (_ | ⟨e', after⟩) p' m' before heq
        · rw [trace_log, List.nil_append, List.cons.injEq] at heq
          obtain ⟨he, rfl⟩ := heq
          obtain ⟨rfl, rfl⟩ := Event.sent.inj he
          exact hm
        · rw [trace_log, List.cons_append, List.cons.injEq] at heq
          exact h.proper after p' m' before heq.2
      interested := fun p' hp => hsub _ (h.interested p' hp)
      bitfield := fun p' state i hp hw hi => (h.bitfield p' state i hp hw hi).imp_right hmono
      active := fun p' state i hp hi => hmono (h.active p' state i hp hi)
      asked := fun p' state r hp hr => hmono (h.asked p' state r hp hr) }

/-! ### Leaving, sending, asking -/

theorem unregisterPeer (h : Speaks w s) (p : PeerId) : Speaks w (unregisterPeer p s) := by
  refine h.revise [] ?_ trace_unregisterPeer (by simp) (fun i hi => ?_)
    (fun q hq => by rwa [connections_unregisterPeer])
    (fun q hq => Or.inl (by rwa [connections_unregisterPeer] at hq)) fun q state' hq => ?_
  · exact h.verified.move (.leave p)
  · rwa [PieceManager.hasPiece, bitfield_unregisterPeer]
  · rw [lookup_unregisterPeer] at hq
    split at hq
    case isTrue => cases hq
    case isFalse =>
      exact ⟨state', hq, rfl, fun _ hi => Or.inl hi, fun _ hr => Or.inl hr⟩

/-- A connection changes, but is not opened again. -/
theorem setConnection (h : Speaks w s) {x : PeerConnection}
    (hx : (s.connections p).state = .disconnected → x.state = .disconnected)
    (hint : x.amInterested = true → .sent p .interestedMsg ∈ s.trace) :
    Speaks w (s.setConnection p x) := by
  have hv : Verified (s.setConnection p x) :=
    h.verified.of_trace_eq h.verified.ok (fun _ => rfl) rfl
  refine h.revise [] hv rfl (by simp) (fun _ hi => hi) (fun q hq => ?_) (fun q hq => ?_)
    fun q state' hq => ⟨state', hq, rfl, fun _ hi => Or.inl hi, fun _ hr => Or.inl hr⟩
  · rw [connections_setConnection]
    split
    case isTrue hqp => exact hx (hqp ▸ hq)
    case isFalse => exact hq
  · rw [connections_setConnection] at hq
    split at hq
    case isTrue hqp => exact Or.inr (hqp ▸ hint hq)
    case isFalse => exact Or.inl hq

theorem disconnect (h : Speaks w s) (p : PeerId) : Speaks w (disconnect p s) := by
  rcases disconnect_cases p s with ⟨-, he⟩ | ⟨-, he⟩
  · rwa [he]
  · rw [he]
    exact (h.setConnection (x := { s.connections p with state := .disconnected, rxBuffer := [] })
      (fun _ => rfl) (h.interested p)).unregisterPeer p

/-- Sending leaves a connection in its state. -/
theorem setConnection_sending (h : Speaks w s) (hm : .sent p m ∈ s.trace) :
    Speaks w (s.setConnection p ((s.connections p).sending m)) := by
  refine h.setConnection (fun hc => ?_) fun hi => ?_
  · cases m <;> exact hc
  · cases m with
    | interestedMsg => exact hm
    | notInterestedMsg => cases hi
    | _ => exact h.interested p hi

/-- **Sending something proper.** -/
theorem sendMessage (h : Speaks w s) (env : Env)
    (hm : (s.connections p).state ≠ .disconnected → Proper T p s.trace m) :
    Speaks w (sendMessage env p m s) := by
  rcases sendMessage_cases env p m s with ⟨-, he⟩ | ⟨hc, he⟩
  · rwa [he]
  · have hsaid : Speaks w ((s.setConnection p ((s.connections p).sending m)).log (.sent p m)) :=
      (h.say (hm hc)).setConnection_sending List.mem_cons_self
    rcases he with he | ⟨-, he⟩
    · rwa [he]
    · rw [he]
      exact hsaid.disconnect p

/-- The entry of a peer changes, to what it has heard of. -/
theorem setPeer (h : Speaks w s) {pm : PieceManager T} (hok : pm.Ok)
    (hbits : pm.bitfield = s.pieceManager.bitfield) (hp : s.peers.lookup p = some state)
    (hbit : state'.bitfield = state.bitfield)
    (hact : ∀ i, state'.activePiece = some i →
      state.activePiece = some i ∨ Heard s p .interestedMsg)
    (hout : ∀ r ∈ state'.outstanding, r ∈ state.outstanding ∨ Heard s p r.requestMsg) :
    Speaks w ({ s with pieceManager := pm }.setPeer p state') := by
  have hhas : ∀ i, pm.hasPiece i = s.pieceManager.hasPiece i := fun i => by
    rw [PieceManager.hasPiece, hbits, PieceManager.hasPiece]
  refine h.revise [] (h.verified.of_trace_eq hok hhas rfl) rfl (by simp)
    (fun i hi => (hhas i).trans hi) (fun _ hc => hc) (fun _ hi => Or.inl hi) fun q state₁ hq => ?_
  rw [lookup_setPeer] at hq
  split at hq
  case isTrue hqp =>
    subst hqp
    obtain rfl := Option.some.inj hq
    exact ⟨state, hp, hbit, hact, hout⟩
  case isFalse => exact ⟨state₁, hq, rfl, fun _ hi => Or.inl hi, fun _ hr => Or.inl hr⟩

/-- Less is asked of a peer. -/
theorem less (h : Speaks w s) (hp : s.peers.lookup p = some state) (hl : state'.Less state) :
    Speaks w (s.setPeer p state') :=
  h.setPeer h.verified.ok rfl hp hl.bitfield (fun i hi => Or.inl (hl.activePiece i hi))
    fun _ hr => Or.inl (hl.outstanding.subset hr)

/-- **A block is requested** from a peer that knows that we are interested. -/
theorem ask (h : Speaks w s) (env : Env) {i : Fin T.count} {block : Block} {pm : PieceManager T}
    (hp : s.peers.lookup p = some state) (hg : s.pieceManager.getNextBlock i = (some block, pm))
    (htold : Heard s p .interestedMsg) :
    Speaks w (Coordinator.sendMessage env p block.requestMsg
      ({ s with pieceManager := pm }.setPeer p (state.push i block))) := by
  obtain ⟨hlack, hpiece, htiles⟩ := PieceManager.getNextBlock_tiles h.verified.ok i.isLt hg
  have hok : pm.Ok := by
    have := h.verified.ok.getNextBlock (i := i)
    rwa [hg] at this
  have hbits := PieceManager.bitfield_of_getNextBlock hg
  -- the new entry, once the request has been heard
  have hpush : ∀ {t : State T}, Speaks w t → t.peers = s.peers → t.pieceManager = s.pieceManager →
      Heard t p .interestedMsg → Heard t p block.requestMsg →
      Speaks w ({ t with pieceManager := pm }.setPeer p (state.push i block)) := by
    intro t ht hpeers hpm hint hreq
    have hp' : t.peers.lookup p = some state := hpeers ▸ hp
    refine ht.setPeer hok (hbits.trans (congrArg _ hpm.symm)) hp' rfl (fun _ _ => Or.inr hint)
      fun r hr => ?_
    rcases List.mem_append.mp hr with hr | hr
    · exact Or.inl hr
    · rw [List.mem_singleton.mp hr]
      exact Or.inr hreq
  rcases sendMessage_cases env p block.requestMsg
    ({ s with pieceManager := pm }.setPeer p (state.push i block)) with ⟨hc, he⟩ | ⟨hc, he⟩
  · rw [he]
    exact hpush h rfl rfl htold (Or.inr hc)
  · have hproper : Proper T p s.trace block.requestMsg := by
      refine ⟨htold.resolve_right hc, ?_, fun d hd => ?_⟩
      · have hfields := htiles.ofNat_toNat
        rw [Block.request] at hfields htiles
        dsimp only at hfields
        rwa [hfields]
      · -- a piece that has been handed on is complete
        have hi : (UInt32.ofNat block.piece).toNat = i := by
          have hlt : block.piece < T.count := htiles.1
          rw [UInt32.toNat_ofNat_of_lt' (Torrent.lt_of_lt_count hlt)]
          exact hpiece
        rw [hi] at hd
        have hhad := h.verified.has_of_completed i i.isLt
          (List.any_eq_true.mpr ⟨_, hd, by simp [Event.completes]⟩)
        cases hlack.symm.trans hhad
    have hsaid := hpush (h.say hproper) rfl rfl (htold.imp_left (List.mem_cons_of_mem _))
      (Or.inl List.mem_cons_self)
    have hsent := hsaid.setConnection_sending (p := p) (m := block.requestMsg) List.mem_cons_self
    rcases he with he | ⟨-, he⟩
    · rw [he]
      exact hsent
    · rw [he]
      exact Speaks.disconnect hsent p

/-- A piece with nothing to ask for is given up. -/
theorem giveUp (h : Speaks w s) {pm : PieceManager T} (hp : s.peers.lookup p = some state)
    (hg : s.pieceManager.getNextBlock i = (none, pm)) :
    Speaks w ({ s with pieceManager := pm }.setPeer p { state with activePiece := none }) := by
  have hok : pm.Ok := by
    have := h.verified.ok.getNextBlock (i := i)
    rwa [hg] at this
  exact h.setPeer hok (PieceManager.bitfield_of_getNextBlock hg) hp rfl (by simp)
    fun _ hr => Or.inl hr

/-- **A round of the loop** that fills the pipeline of a peer. -/
theorem fillRound (h : Speaks nobody s) (env : Env) (p : PeerId) :
    Speaks nobody ((Coordinator.fillRound env p s).elim id id) := by
  -- choosing a piece is recorded, and the peer of a piece we lack knows that we are interested
  have hchoose : ∀ {state : PeerState T} {i : Fin T.count} {s₁ : State T},
      s.peers.lookup p = some state → choosePiece env p state s = some (i, s₁) →
      Speaks nobody s₁ ∧ s₁.peers.lookup p = some state ∧
        (s₁.pieceManager.hasPiece i = true ∨ Heard s₁ p .interestedMsg) := by
    intro state i s₁ hp hc
    rcases choosePiece_some hc with ⟨hact, rfl⟩ | ⟨-, hbit, -, rfl⟩
    · exact ⟨h, hp, Or.inr (h.active p state i hp hact)⟩
    · have hlog := h.log (e := .picked p i) (fun _ => rfl) (by simp)
      exact ⟨hlog, hp, hlog.bitfield p state i hp id hbit⟩
  have hround := fillRound_spec env p s
  generalize Coordinator.fillRound env p s = r at hround ⊢
  cases hround with
  | gone => exact h.log (fun _ => rfl) (by simp)
  | full => exact h
  | nothing => exact h
  | giveUp state i pm s₁ hp hlt hc hg =>
    obtain ⟨h₁, hp₁, -⟩ := hchoose hp hc
    exact h₁.giveUp hp₁ hg
  | ask state i block pm s₁ hp hlt hc hg =>
    obtain ⟨h₁, hp₁, htold⟩ := hchoose hp hc
    have hlack := (PieceManager.getNextBlock_tiles h₁.verified.ok i.isLt hg).1
    exact h₁.ask env hp₁ hg (htold.resolve_left (by simp [hlack]))

theorem fillRequestPipeline (h : Speaks nobody s) (env : Env) (p : PeerId) :
    Speaks nobody (fillRequestPipeline env p s) := by
  rw [Coordinator.fillRequestPipeline]
  split
  case isTrue => exact h
  case isFalse =>
    split
    case h_1 => exact h
    case h_2 =>
      rw [fillLoop_eq_bounded]
      exact Loops.bounded_rule _ h fun _ hs => hs.fillRound env p

theorem topOff (h : Speaks nobody s) (env : Env) (p : PeerId) : Speaks nobody (topOff env p s) := by
  rw [Coordinator.topOff]
  split
  case isTrue => exact h
  case isFalse => exact h.fillRequestPipeline env p

theorem deactivate (h : Speaks w s) (hp : s.peers.lookup p = some state) (i : ℕ) :
    Speaks w (deactivate i p state s) := by
  rw [Coordinator.deactivate]
  split
  case isTrue => exact h.less hp (PeerState.less_deactivated state)
  case isFalse => exact h

/-- A peer tells what it has. -/
theorem record (h : Speaks nobody s) {picker : PiecePicker T.count} {b : Bitfield T.count}
    (hp : s.peers.lookup p = some state)
    (hb : ∀ i, b.has i = true → state.bitfield.has i = true ∨ w p i) :
    Speaks w ({ s with piecePicker := picker }.setPeer p { state with bitfield := b }) := by
  have hentry : ∀ {q state'},
      ({ s with piecePicker := picker }.setPeer p { state with bitfield := b }).peers.lookup q =
        some state' →
      (q = p ∧ state' = { state with bitfield := b }) ∨ s.peers.lookup q = some state' := by
    intro q state' hq
    rw [lookup_setPeer] at hq
    split at hq
    case isTrue hqp => exact Or.inl ⟨hqp, (Option.some.inj hq).symm⟩
    case isFalse => exact Or.inr hq
  exact
    { verified := h.verified.of_trace_eq h.verified.ok (fun _ => rfl) rfl
      proper := h.proper
      interested := h.interested
      bitfield := fun q state' i hq hw hi => by
        rcases hentry hq with ⟨rfl, rfl⟩ | hq
        · exact h.bitfield q state i hp id ((hb i hi).resolve_right hw)
        · exact h.bitfield q state' i hq id hi
      active := fun q state' i hq hi => by
        rcases hentry hq with ⟨rfl, rfl⟩ | hq
        · exact h.active q state i hp hi
        · exact h.active q state' i hq hi
      asked := fun q state' r hq hr => by
        rcases hentry hq with ⟨rfl, rfl⟩ | hq
        · exact h.asked q state r hp hr
        · exact h.asked q state' r hq hr }

/-- **Expressing interest** in what a peer has just told. -/
theorem expressInterest (h : Speaks w s) (env : Env) {wanted : Bool} (hp : ∀ q i, w q i → q = p)
    (hw : wanted = false → ∀ q i, w q i → s.pieceManager.hasPiece i = true) :
    Speaks nobody (expressInterest env p wanted s) := by
  -- with what the peer has heard afterwards, it is as the others are
  have hdone : ∀ {t : State T}, Speaks w t → (∀ q i, w q i →
      t.pieceManager.hasPiece i = true ∨ Heard t q .interestedMsg) → Speaks nobody t :=
    fun ht hheard => { ht with
      bitfield := fun q state i hq _ hi => by
        by_cases hqi : w q i
        · exact hheard q i hqi
        · exact ht.bitfield q state i hq hqi hi }
  rw [Coordinator.expressInterest]
  split
  case isTrue =>
    refine hdone (h.sendMessage env fun _ => trivial) fun q i hqi => Or.inr ?_
    rw [hp q i hqi]
    exact heard_sendMessage
  case isFalse hcond =>
    refine hdone h fun q i hqi => ?_
    rcases hwant : wanted with _ | _
    · exact Or.inl (hw hwant q i hqi)
    · -- the flag of the connection was set by a message
      have hint : (s.connections p).amInterested = true := by simpa [hwant] using hcond
      rw [hp q i hqi]
      exact Or.inr (Or.inl (h.interested p hint))

/-! ### Finishing a piece -/

end Speaks

/-- What a send records. -/
theorem mem_trace_sendMessage (h : e ∈ (sendMessage env p m s).trace) :
    e = .sent p m ∨ e ∈ s.trace := by
  rcases sendMessage_cases env p m s with ⟨-, he⟩ | ⟨-, he | ⟨-, he⟩⟩
  · exact Or.inr (he ▸ h)
  · rw [he] at h
    exact List.mem_cons.mp h
  · rw [he, trace_disconnect] at h
    exact List.mem_cons.mp h

theorem mem_trace_of_mem (h : e ∈ s.trace) : e ∈ (sendMessage env p m s).trace := by
  rcases sendMessage_cases env p m s with ⟨-, he⟩ | ⟨-, he | ⟨-, he⟩⟩
  · rwa [he]
  · rw [he]
    exact List.mem_cons_of_mem _ h
  · rw [he, trace_disconnect]
    exact List.mem_cons_of_mem _ h

/-- **A piece has been handed on**, and not announced to the peers of a list. -/
structure Announcing (idx : UInt32) (keys : List PeerId) (s : State T) : Prop where
  speaks : Speaks nobody s
  completed : ∃ d, .pieceCompleted idx.toNat d ∈ s.trace
  silent : idx.toNat < T.count → ∀ q ∈ keys, .sent q (.haveMsg idx) ∉ s.trace

namespace Announcing

variable {keys : List PeerId}

/-- Something else is said. -/
theorem sendMessage (h : Announcing idx keys s) (env : Env)
    (hm : (s.connections p).state ≠ .disconnected → Proper T p s.trace m)
    (hother : ∀ q ∈ keys, Event.sent q (.haveMsg idx) ≠ .sent p m) :
    Announcing idx keys (sendMessage env p m s) where
  speaks := h.speaks.sendMessage env hm
  completed := h.completed.imp fun _ hd => mem_trace_of_mem hd
  silent := fun hi q hq hmem =>
    (mem_trace_sendMessage hmem).elim (hother q hq) (h.silent hi q hq)

/-- The entry of a peer is gone. -/
theorem dangling (h : Announcing idx keys s) (p : PeerId) :
    Announcing idx keys (s.log (.dangling p)) where
  speaks := h.speaks.log (fun _ => rfl) (by simp)
  completed := h.completed.imp fun _ hd => List.mem_cons_of_mem _ hd
  silent := fun hi q hq hmem => (List.mem_cons.mp hmem).elim (by simp) (h.silent hi q hq)

/-- **The requests of a peer are cancelled.** -/
theorem cancelLoop (h : Announcing idx keys s) (env : Env) (kept : List RequestedBlock)
    {rest : List RequestedBlock} (hq : s.peers.lookup q = some state)
    (ho : state.outstanding = kept ++ rest) :
    Announcing idx keys (cancelLoop env idx.toNat q kept rest s) := by
  induction rest generalizing kept s state with
  | nil => exact h
  | cons r rest ih =>
    rw [Coordinator.cancelLoop]
    split
    case isFalse => exact ih h _ hq (by rw [ho, List.append_assoc, List.singleton_append])
    case isTrue hr =>
      have hproper : (s.connections q).state ≠ .disconnected → Proper T q s.trace r.cancelMsg := by
        intro hc
        have hasked := h.speaks.asked q state r hq (by rw [ho]; simp)
        refine ⟨hasked.resolve_right hc, ?_⟩
        rw [hr, UInt32.ofNat_toNat]
        exact h.completed
      have hsent := h.sendMessage env hproper (by simp [RequestedBlock.cancelMsg])
      dsimp only
      split
      case h_1 => exact hsent.dangling q
      case h_2 state₁ hq₁ =>
        obtain rfl : state₁ = state := Option.some.inj ((lookup_of_sendMessage hq₁).symm.trans hq)
        have hless : ({ state₁ with outstanding := kept ++ rest } : PeerState T).Less state₁ := by
          refine ⟨rfl, ?_, fun _ hi => hi⟩
          rw [ho]
          exact (List.Sublist.refl kept).append (List.sublist_cons_self r rest)
        have hout : ({ state₁ with outstanding := kept ++ rest } : PeerState T).outstanding =
            kept ++ rest := rfl
        refine ih ⟨hsent.speaks.less hq₁ hless, hsent.completed, hsent.silent⟩ kept ?_ hout
        rw [lookup_setPeer, if_pos rfl]

theorem cancelPieceRequests (h : Announcing idx keys s) (env : Env) :
    Announcing idx keys (cancelPieceRequests env idx.toNat s) := by
  rw [Coordinator.cancelPieceRequests]
  generalize env.order s.trace s.peers.keys = walk
  induction walk generalizing s with
  | nil => exact h
  | cons q walk ih =>
    refine ih ?_
    rw [cancelPeer]
    split
    case h_1 => exact h
    case h_2 state hq =>
      have hloop := h.cancelLoop env [] hq rfl
      dsimp only
      split
      case h_1 => exact hloop
      case h_2 state₁ hq₁ =>
        refine ⟨hloop.speaks.deactivate hq₁ idx.toNat, ?_, ?_⟩
        · rw [trace_deactivate]
          exact hloop.completed
        · rw [trace_deactivate]
          exact hloop.silent

/-- **The piece is announced**, to each peer once. -/
theorem broadcast (h : Announcing idx keys s) (hnodup : keys.Nodup) (env : Env) :
    Speaks nobody (keys.foldl (announce env idx.toNat) s) := by
  induction keys generalizing s with
  | nil => exact h.speaks
  | cons q keys ih =>
    obtain ⟨hq, hkeys⟩ := List.nodup_cons.mp hnodup
    have hsent : Announcing idx keys (Coordinator.sendMessage env q (.haveMsg idx) s) :=
      Announcing.sendMessage
        ⟨h.speaks, h.completed, fun hi q' hq' => h.silent hi q' (List.mem_cons_of_mem _ hq')⟩ env
        (fun _ => ⟨h.completed, fun hi => h.silent hi q List.mem_cons_self⟩)
        fun q' hq' heq => hq ((Event.sent.inj heq).1 ▸ hq')
    refine ih ?_ hkeys
    rw [announce, UInt32.ofNat_toNat]
    split
    case h_1 => exact hsent.dangling q
    case h_2 => exact hsent

theorem broadcastHave (h : ∀ keys, Announcing idx keys s) (env : Env) :
    Speaks nobody (broadcastHave env idx.toNat s) :=
  (h _).broadcast ((env.order_perm _ _).nodup_iff.mpr s.peers.keys_nodup) env

end Announcing

namespace Speaks

/-- **A piece is handed on.** -/
theorem completePiece (h : Speaks nobody s) (env : Env)
    (hlack : s.pieceManager.hasPiece idx.toNat = false) (keys : List PeerId) :
    Announcing idx keys (completePiece env idx.toNat s) := by
  have hok := h.verified.ok.pieceCompleted (i := idx.toNat)
  have hhas : ∀ j, (s.pieceManager.pieceCompleted idx.toNat).hasPiece j = true ↔
      (idx.toNat = j ∧ idx.toNat < T.count) ∨ s.pieceManager.hasPiece j = true :=
    fun j => PieceManager.hasPiece_pieceCompleted
  have hmid : Verified { s with
      pieceManager := s.pieceManager.pieceCompleted idx.toNat
      trace := .pieceCompleted idx.toNat (s.pieceManager.getPieceData idx.toNat) :: s.trace } :=
    h.verified.complete hlack hok hhas rfl
  have hv : Verified (Coordinator.completePiece env idx.toNat s) :=
    hmid.of_cons hok (fun _ => rfl) rfl (fun _ => rfl) (by rintro _ _ ⟨⟩)
  refine ⟨?_, ⟨_, List.mem_cons_of_mem _ List.mem_cons_self⟩, fun hi q _ hmem => ?_⟩
  · exact h.revise [.wrote _ _ _, .pieceCompleted _ _] hv rfl (by simp)
      (fun j hj => (hhas j).mpr (Or.inr hj)) (fun _ hc => hc) (fun _ hi => Or.inl hi)
      fun _ state' hp => ⟨state', hp, rfl, fun _ hi => Or.inl hi, fun _ hr => Or.inl hr⟩
  · -- what has been announced before was complete
    have hbefore : .sent q (.haveMsg idx) ∈ s.trace := by
      rcases List.mem_cons.mp hmem with he | hmem
      · cases he
      · rcases List.mem_cons.mp hmem with he | hmem
        · cases he
        · exact hmem
    obtain ⟨pre, post, htr⟩ := List.append_of_mem hbefore
    obtain ⟨d, hd⟩ := h.verified.announced pre q idx post htr
    have hcompleted : .pieceCompleted idx.toNat d ∈ s.trace := by
      rw [htr]
      exact List.mem_append_right _ (List.mem_cons_of_mem _ hd)
    have hhad := h.verified.has_of_completed idx.toNat hi
      (List.any_eq_true.mpr ⟨_, hcompleted, by simp [Event.completes]⟩)
    cases hlack.symm.trans hhad

theorem lastUse (h : Speaks nobody s) (p : PeerId) (i : ℕ) : Speaks nobody (lastUse p i s) := by
  rw [Coordinator.lastUse]
  split
  case h_1 => exact h.log (fun _ => rfl) (by simp)
  case h_2 state hp => exact h.deactivate hp i

/-- A piece is discarded. -/
theorem pieceFailed (h : Speaks nobody s) (i : ℕ) :
    Speaks nobody { s with pieceManager := s.pieceManager.pieceFailed i } := by
  refine h.revise [] (h.verified.of_trace_eq h.verified.ok.pieceFailed
    (fun _ => PieceManager.hasPiece_pieceFailed) rfl) rfl (by simp) (fun j hj => ?_)
    (fun _ hc => hc) (fun _ hi => Or.inl hi)
    fun _ state' hp => ⟨state', hp, rfl, fun _ hi => Or.inl hi, fun _ hr => Or.inl hr⟩
  exact PieceManager.hasPiece_pieceFailed.trans hj

/-- **Finishing a piece.** -/
theorem finishPiece (h : Speaks nobody s) (env : Env) (p : PeerId)
    (hlack : s.pieceManager.hasPiece idx.toNat = false) :
    Speaks nobody (finishPiece env p idx.toNat s) := by
  have hfault : Speaks nobody (if idx.toNat < T.pieceHashes.length then s
      else s.log (.hashOutOfBounds idx.toNat)) ∧
      (if idx.toNat < T.pieceHashes.length then s
        else s.log (.hashOutOfBounds idx.toNat)).pieceManager = s.pieceManager := by
    split
    case isTrue => exact ⟨h, rfl⟩
    case isFalse => exact ⟨h.log (fun _ => rfl) (by simp), rfl⟩
  obtain ⟨h₁, hpm⟩ := hfault
  rw [Coordinator.finishPiece]
  refine Speaks.lastUse ?_ p idx.toNat
  generalize (if idx.toNat < T.pieceHashes.length then s
    else s.log (.hashOutOfBounds idx.toNat)) = s₁ at h₁ hpm ⊢
  split
  case isTrue =>
    refine Announcing.broadcastHave (fun keys => ?_) env
    exact (h₁.completePiece env (hpm ▸ hlack) keys).cancelPieceRequests env
  case isFalse =>
    have hblamed := (h₁.pieceFailed idx.toNat).log (e := .peerCorrupted p) (fun _ => rfl) (by simp)
    rw [onPeerCorrupted]
    split
    case isTrue => exact hblamed.disconnect p
    case isFalse => exact hblamed

/-! ### Messages -/

theorem handleChoke (h : Speaks nobody s) (hp : s.peers.lookup p = some state) :
    Speaks nobody (handleChoke p state s) :=
  h.setPeer (ok_failRequests h.verified.ok) bitfield_failRequests hp rfl (by simp) (by simp)

theorem handleBitfield (h : Speaks nobody s) (env : Env) (bits : List UInt8)
    (hp : s.peers.lookup p = some state) : Speaks nobody (handleBitfield env p bits state s) := by
  have hrecord : Speaks (fun q i => q = p ∧ (Bitfield.ofBytes bits T.count).has i = true)
      (recordBitfield p bits state s) :=
    h.record hp fun i hi => Or.inr ⟨rfl, hi⟩
  refine Speaks.topOff (hrecord.expressInterest env (fun q i hq => hq.1) ?_) env p
  rintro hnone q i ⟨-, hi⟩
  rw [List.any_eq_false] at hnone
  have hi' := hnone i (List.mem_range.mpr (Bitfield.lt_of_has hi))
  simpa [hi] using hi'

theorem handleHave (h : Speaks nobody s) (env : Env) (j : ℕ)
    (hp : s.peers.lookup p = some state) : Speaks nobody (handleHave env p j state s) := by
  rw [Coordinator.handleHave, recordHave]
  by_cases hj : j < T.count
  · rw [if_pos hj]
    split
    case isTrue =>
      have hrecord : Speaks (fun q i => q = p ∧ i = j)
          ({ s with piecePicker := s.piecePicker.addAvailability j }.setPeer p
            { state with bitfield := state.bitfield.set j true }) := by
        refine h.record hp fun i hi => ?_
        rcases Bitfield.has_set_true.mp hi with ⟨rfl, -⟩ | hi
        · exact Or.inr ⟨rfl, rfl⟩
        · exact Or.inl hi
      refine hrecord.expressInterest env (fun q i hq => hq.1) ?_
      rintro hnone q i ⟨-, rfl⟩
      simpa using hnone
    case isFalse => exact h.expressInterest env (fun _ _ hw => hw.elim) fun _ _ _ hw => hw.elim
  · rw [if_neg hj, if_neg fun hc => hj hc.1]
    exact h

theorem handlePiece (h : Speaks nobody s) (env : Env) (idx c : UInt32) (x : List UInt8)
    (hp : s.peers.lookup p = some state) :
    Speaks nobody (handlePiece env p idx.toNat c.toNat x state s) := by
  rcases hb : s.pieceManager.blockReceived idx.toNat c.toNat x with ⟨completed, pm⟩
  have hbits := PieceManager.bitfield_of_blockReceived hb
  have hless := less_answered state idx.toNat c.toNat
  have htaken : Speaks nobody ({ s with pieceManager := pm }.setPeer p
      (state.answered idx.toNat c.toNat)) :=
    h.setPeer (h.verified.ok.of_blockReceived hb) hbits hp hless.bitfield
      (fun i hi => Or.inl (hless.activePiece i hi)) fun r hr => Or.inl (hless.outstanding.subset hr)
  have hdeliver : deliver p idx.toNat c.toNat x state s =
      (completed, { s with pieceManager := pm }.setPeer p (state.answered idx.toNat c.toNat)) := by
    rw [deliver, pieceManager_setPeer, hb]
    rfl
  rw [Coordinator.handlePiece, hdeliver]
  refine Speaks.topOff ?_ env p
  cases completed with
  | false => exact htaken
  | true =>
    refine htaken.finishPiece env p ?_
    rw [pieceManager_setPeer, PieceManager.hasPiece, hbits]
    exact (PieceManager.of_blockReceived_true h.verified.ok hb).1

/-- A peer that is registered has nothing recorded. -/
theorem registerPeer (h : Speaks nobody s) (p : PeerId) :
    Speaks nobody (Coordinator.registerPeer p s) := by
  have hentry : ∀ {q state'}, (Coordinator.registerPeer p s).peers.lookup q = some state' →
      state' = {} ∨ s.peers.lookup q = some state' := by
    intro q state' hq
    rw [Coordinator.registerPeer, lookup_setPeer] at hq
    split at hq
    case isTrue => exact Or.inl (Option.some.inj hq).symm
    case isFalse => exact Or.inr hq
  exact
    { verified := h.verified.of_trace_eq h.verified.ok (fun _ => rfl) rfl
      proper := h.proper
      interested := h.interested
      bitfield := fun q state' i hq hw hi => by
        rcases hentry hq with rfl | hq
        · simp at hi
        · exact h.bitfield q state' i hq hw hi
      active := fun q state' i hq hi => by
        rcases hentry hq with rfl | hq
        · cases hi
        · exact h.active q state' i hq hi
      asked := fun q state' r hq hr => by
        rcases hentry hq with rfl | hq
        · cases hr
        · exact h.asked q state' r hq hr }

/-- **One step.** -/
theorem step (h : Speaks nobody s) (env : Env) (a : Input) : Speaks nobody (step env s a) := by
  cases a with
  | establish p =>
    rw [Coordinator.step]
    split
    case isTrue => exact h
    case isFalse hc => exact h.setConnection (fun hd => absurd hd hc) (h.interested p)
  | register p => exact h.registerPeer p
  | unregister p => exact h.unregisterPeer p
  | interested p => exact h.sendMessage env fun _ => trivial
  | disconnect p => exact h.disconnect p
  | message p m =>
    rw [Coordinator.step]
    split
    case isFalse => exact h
    case isTrue hact =>
      have hreceived : Speaks nobody (s.setConnection p ((s.connections p).received m)) := by
        refine h.setConnection (fun hc => ?_) fun hi => ?_
        · cases hact.symm.trans hc
        · refine h.interested p ?_
          cases m <;> exact hi
      rw [handlePeerMessage]
      split
      case h_1 => exact hreceived
      case h_2 state hp =>
        cases m with
        | chokeMsg => exact hreceived.handleChoke hp
        | unchokeMsg => exact hreceived.fillRequestPipeline env p
        | bitfieldMsg bits => exact hreceived.handleBitfield env bits hp
        | haveMsg idx => exact hreceived.handleHave env idx.toNat hp
        | pieceMsg idx c x => exact hreceived.handlePiece env idx c x hp
        | keepAliveMsg => exact hreceived
        | interestedMsg => exact hreceived
        | notInterestedMsg => exact hreceived
        | requestMsg => exact hreceived
        | cancelMsg => exact hreceived
        | portMsg => exact hreceived

end Speaks

/-- **What is said to the peers.** In every run, whatever they send and whichever sends fail as long
as no erased entry is used, every message that is sent is proper after what happened before: it
tells that we are interested; or it asks for a block of a piece that is not complete, of a peer that
was told so; or it cancels a request that was made, for a piece that is complete; or it announces a
complete piece, for the first time if it is one of the torrent. -/
theorem proper_run (env : Env) (disk : Disk) {l : List Input}
    (hrun : Runs.Reach (Coordinator.step env) (Defined env) (.init T disk) l s) :
    ∀ after p m before, s.trace = after ++ .sent p m :: before → Proper T p before m := by
  have hspeaks : Speaks nobody s :=
    hrun.invariant (Speaks.init disk) fun _ a hs _ => hs.step env a
  exact hspeaks.proper

/-- A block is asked of peer 7. When peer 8 sends it unasked, the request is cancelled, and the
piece announced to both. -/
theorem proper_run_cancelled :
    let l := arrival 7 ++ arrival 8 ++ [.message 8 (.pieceMsg 0 0 [0x61])]
    let s : State Torrent.oneByte := run Env.calm Disk.oneByte l
    ∃ after before, s.trace = after ++ .sent 7 (.cancelMsg 0 0 1) :: before ∧
      Proper Torrent.oneByte 7 before (.cancelMsg 0 0 1) := by
  intro l s
  have hrun : Runs.Reach (Coordinator.step Env.calm) (Defined Env.calm)
      (.init Torrent.oneByte Disk.oneByte) l s := Runs.reach_iff.mpr ⟨rfl, by decide⟩
  have htrace : s.trace = [.sent 8 (.haveMsg 0), .sent 7 (.haveMsg 0)] ++
      .sent 7 (.cancelMsg 0 0 1) :: s.trace.drop 3 := by decide
  exact ⟨_, _, htrace, proper_run Env.calm Disk.oneByte hrun _ 7 _ _ htrace⟩

end Coordinator

end TransferEngine
