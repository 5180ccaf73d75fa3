import TransferEngine.Coordinator.Pipeline
import TransferEngine.PieceManager.Engaged

/-!
# Idle peers

A peer that does not choke us, and that has a piece with pending blocks, should have a
request outstanding. Filling its pipeline sees to that
(`TransferEngine.Coordinator.noStall_fillRequestPipeline`), and it is filled when the peer
unchokes us, sends its bitfield or sends a block. But work also turns up for a peer in
other ways, and nothing is filled then: it announces a piece with a Have; another peer
chokes us, or leaves, and its requests are returned; another peer completes a bad piece,
which is discarded; or another peer completes a good piece, and the requests for it that
this one had are cancelled (`TransferEngine.Coordinator.not_noStall_have`).

Where none of this hits a peer that is then left idle, nobody stalls
(`TransferEngine.Coordinator.noStall_of_tended`).
-/

namespace TransferEngine

namespace Coordinator

open State

variable {T : Torrent} {s s' s'' : State T} {env : Env} {a : Input} {p q : PeerId}
  {state : PeerState T} {i j : ℕ}

/-- **A peer that is not left waiting**: if it does not choke us and has a piece with
pending blocks, then it has an outstanding request. -/
def Busy (s : State T) (q : PeerId) : Prop :=
  ∀ state j, s.peers.lookup q = some state → s.choking q = false →
    state.bitfield.has j = true → s.pieceManager.hasPendingBlocks j = true →
    state.outstanding ≠ []

/-- **No stalled peer.** -/
def NoStall (s : State T) : Prop := ∀ q, Busy s q

/-! ### When nobody is left idle -/

/-- A registered peer that does not choke us and has no outstanding request. -/
def Idle (s : State T) (q : PeerId) (state : PeerState T) : Prop :=
  s.peers.lookup q = some state ∧ s.choking q = false ∧ state.outstanding = []

/-- The peer of an input. -/
def Input.peer : Input → PeerId
  | .establish p => p
  | .register p => p
  | .unregister p => p
  | .interested p => p
  | .disconnect p => p
  | .message p _ => p

/-- The input makes us tell the peer that we are interested. -/
def asksInterest (s : State T) : Input → Bool
  | .interested _ => true
  | .message p (.bitfieldMsg bits) =>
    decide ((s.connections p).state = .active) && ((List.range T.count).any (fun i =>
        (Bitfield.ofBytes bits T.count).has i && !s.pieceManager.hasPiece i) &&
      !(s.connections p).amInterested)
  | .message p (.haveMsg idx) =>
    decide ((s.connections p).state = .active ∧ idx.toNat < T.count) &&
      (!s.pieceManager.hasPiece idx.toNat && !(s.connections p).amInterested)
  | _ => false

/-- Telling a peer that we are interested fails. -/
def InterestFails (env : Env) (s : State T) (p : PeerId) : Prop :=
  ((s.connections p).state = .handshaking ∨ (s.connections p).state = .active) ∧
    env.sendFails (.sent p .interestedMsg :: s.trace) p .interestedMsg = true

/-- The input is the block that ends piece `i`, and the piece passes its check or does
not. -/
def Ends (env : Env) (s : State T) (a : Input) (i : ℕ) (good : Bool) : Prop :=
  ∃ p idx c x state pm, a = .message p (.pieceMsg idx c x) ∧ (s.connections p).state = .active ∧
    s.peers.lookup p = some state ∧ idx.toNat = i ∧
    s.pieceManager.blockReceived i c.toNat x = (true, pm) ∧
    pm.validatePiece env.sha1 (env.garbage i) i = good

/-- **The peer of the input gives back its requests**: it chokes us, or it leaves. -/
def GivesBack (env : Env) (s : State T) (a : Input) : Prop :=
  (∃ p, a = .unregister p) ∨
    (∃ p, a = .disconnect p ∧ (s.connections p).state ≠ .disconnected) ∨
    (∃ p, a = .message p .chokeMsg ∧ (s.connections p).state = .active) ∨
    (asksInterest s a = true ∧ InterestFails env s a.peer) ∨
    (env.blacklists = true ∧ ∃ i, Ends env s a i false)

/-- The peer lists a request for a block of piece `j` that is waited for. -/
def Lists (s : State T) (p : PeerId) (j : ℕ) : Prop :=
  ∃ state, s.peers.lookup p = some state ∧
    ∃ r ∈ state.outstanding, r.piece = j ∧ s.pieceManager.blockState j r.begin = some .requested

/-- **A block of piece `j` becomes pending**: the piece is discarded, or a request for a
block of it is given back. -/
def Returns (env : Env) (s : State T) (a : Input) (j : ℕ) : Prop :=
  Ends env s a j false ∨ (GivesBack env s a ∧ Lists s a.peer j)

/-- **An input that leaves no peer idle.** -/
structure Tended (env : Env) (s : State T) (a : Input) : Prop where
  /-- No other peer that is idle has a piece of which a block becomes pending. -/
  returned : ∀ q state j, q ≠ a.peer → Idle s q state → state.bitfield.has j = true →
    ¬Returns env s a j
  /-- No other peer that waits for blocks of a completed piece, and for nothing else, has
  another piece with pending blocks. -/
  completed : ∀ i q state j, Ends env s a i true → q ≠ a.peer → s.peers.lookup q = some state →
    s.choking q = false → state.outstanding ≠ [] → (∀ r ∈ state.outstanding, r.piece = i) →
    state.bitfield.has j = true → j ≠ i → s.pieceManager.hasPendingBlocks j = false
  /-- An idle peer that announces a piece, and stays, announces one without pending
  blocks. -/
  announced : ∀ p idx state, a = .message p (.haveMsg idx) → (s.connections p).state = .active →
    Idle s p state → idx.toNat < T.count → ¬(asksInterest s a = true ∧ InterestFails env s p) →
    s.pieceManager.hasPendingBlocks idx.toNat = false

/-! ### The other peers -/

/-- Every peer but one is busy. -/
def Others (p : PeerId) (s : State T) : Prop := ∀ q, q ≠ p → Busy s q

theorem Others.noStall (h : Others p s) (hp : Busy s p) : NoStall s := by
  intro q
  by_cases hq : q = p
  · exact hq ▸ hp
  · exact h q hq

/-- A step that leaves the other peers alone, and that makes pieces pending which none of
the idle ones has. -/
theorem Others.lend {R : ℕ → Prop} (h : Others p s)
    (hlook : ∀ q, q ≠ p → s'.peers.lookup q = s.peers.lookup q)
    (hch : ∀ q, q ≠ p → s'.choking q = s.choking q)
    (hpend : ∀ j, j < T.count → s'.pieceManager.hasPendingBlocks j = true →
      s.pieceManager.hasPendingBlocks j = true ∨ R j)
    (hidle : ∀ q state j, q ≠ p → Idle s q state → state.bitfield.has j = true → ¬R j) :
    Others p s' := by
  intro q hq state j hst hun hhas hj hempty
  rw [hlook q hq] at hst
  rw [hch q hq] at hun
  rcases hpend j (Bitfield.lt_of_has hhas) hj with hj | hj
  · exact h q hq state j hst hun hhas hj hempty
  · exact hidle q state j hq ⟨hst, hun, hempty⟩ hhas hj

/-- The same, where no piece becomes pending. -/
theorem Others.congr (h : Others p s)
    (hlook : ∀ q, q ≠ p → s'.peers.lookup q = s.peers.lookup q)
    (hch : ∀ q, q ≠ p → s'.choking q = s.choking q)
    (hpend : ∀ j, j < T.count → s'.pieceManager.hasPendingBlocks j = true →
      s.pieceManager.hasPendingBlocks j = true) : Others p s' :=
  h.lend (R := fun _ => False) hlook hch (fun j hlt hj => Or.inl (hpend j hlt hj))
    fun _ _ _ _ _ _ hc => hc

theorem Alike.idle_iff (h : Alike s s') : Idle s' q state ↔ Idle s q state := by
  rw [Idle, h.peers, h.choking, Idle]

theorem Alike.lists_iff (h : Alike s s') : Lists s' p j ↔ Lists s p j := by
  rw [Lists, h.peers, h.pieceManager, Lists]

theorem Alike.busy (h : Alike s s') (hq : Busy s q) : Busy s' q := by
  rwa [Busy, h.peers, h.pieceManager, h.choking]

theorem Alike.others (h : Alike s s') (hs : Others p s) : Others p s' :=
  fun q hq => h.busy (hs q hq)

/-- A connection is closed. -/
theorem alike_closing (p : PeerId) (s : State T) :
    Alike s
      (s.setConnection p { s.connections p with state := .disconnected, rxBuffer := [] }) := by
  refine ⟨rfl, rfl, fun q => ?_, fun _ h => h⟩
  rw [choking_setConnection]
  split
  case isTrue hq => rw [hq, choking]
  case isFalse => rfl

/-- The pending pieces after requests are returned. -/
theorem hasPendingBlocks_of_failRequests {pm : PieceManager T} {reqs : List RequestedBlock}
    (h : pm.Ok) (hj : (failRequests pm reqs).hasPendingBlocks j = true) :
    pm.hasPendingBlocks j = true ∨
      ∃ r ∈ reqs, r.piece = j ∧ pm.blockState j r.begin = some .requested := by
  obtain ⟨hp, hpend⟩ := (PieceManager.hasPendingBlocks_iff (ok_failRequests h)).mp hj
  rw [hasPiece_failRequests] at hp
  rcases hpend with hnone | ⟨c, hc⟩
  · refine Or.inl ((PieceManager.hasPendingBlocks_iff h).mpr ⟨hp, Or.inl ?_⟩)
    have hsome : ((failRequests pm reqs).inProgress j).isSome = (pm.inProgress j).isSome :=
      isSome_failRequests h
    rw [hnone, Option.isSome_none] at hsome
    exact Option.not_isSome_iff_eq_none.mp (by simp [← hsome])
  · rw [blockState_failRequests h] at hc
    split at hc
    case isTrue hr =>
      obtain ⟨⟨r, hr, rfl, rfl⟩, hs⟩ := hr
      exact Or.inr ⟨r, hr, rfl, hs⟩
    case isFalse =>
      exact Or.inl ((PieceManager.hasPendingBlocks_iff h).mpr ⟨hp, Or.inr ⟨c, hc⟩⟩)

/-- **A peer leaves.** -/
theorem Others.leave (h : Others p s) (hok : s.pieceManager.Ok)
    (hidle : ∀ q state j, q ≠ p → Idle s q state → state.bitfield.has j = true → ¬Lists s p j) :
    NoStall (unregisterPeer p s) := by
  refine Others.noStall (p := p) (h.lend (R := Lists s p) ?_ ?_ ?_ hidle) ?_
  · intro q hq
    rw [lookup_unregisterPeer, if_neg hq]
  · intro q _
    rw [choking, connections_unregisterPeer, choking]
  · intro j _ hj
    rw [unregisterPeer] at hj
    split at hj
    case h_1 => exact Or.inl hj
    case h_2 state hst =>
      refine (hasPendingBlocks_of_failRequests hok hj).imp id ?_
      rintro ⟨r, hr⟩
      exact ⟨state, hst, r, hr⟩
  · intro state j hst
    rw [lookup_unregisterPeer, if_pos rfl] at hst
    cases hst

/-! ### Filling a pipeline -/

theorem Others.fills (h : Others p s) (hf : Fills p s s') : Others p s' :=
  h.congr hf.lookup (fun q _ => hf.choking q) fun j _ => hf.pending j

/-- **Filling the pipeline of a peer that does not choke us**, where every other peer is
busy, leaves nobody idle. -/
theorem noStall_fillRequestPipeline (henv : OnlyInterestFails env) (hok : s.pieceManager.Ok)
    (h : Others p s) : NoStall (fillRequestPipeline env p s) := by
  rw [fillRequestPipeline]
  split
  case isTrue hch =>
    refine h.noStall fun state j _ hun => ?_
    rw [hch] at hun
    cases hun
  case isFalse hch =>
    split
    case h_1 hp =>
      refine h.noStall fun state j hst => ?_
      rw [hp] at hst
      cases hst
    case h_2 state hp =>
      obtain ⟨hf, state', hp', hserved⟩ := fillLoop_served henv hok hp (by simpa using hch)
      refine (h.fills hf).noStall ?_
      intro st j hst _ hhas hj
      obtain rfl : state' = st := Option.some.inj (hp'.symm.trans hst)
      rcases hserved with hne | hnone
      · exact hne
      · rw [hnone j hhas] at hj
        cases hj

theorem noStall_topOff (henv : OnlyInterestFails env) (hok : s.pieceManager.Ok)
    (h : Others p s) : NoStall (topOff env p s) := by
  rw [topOff]
  split
  case isTrue hch =>
    refine h.noStall fun state j _ hun => ?_
    rw [hch] at hun
    cases hun
  case isFalse => exact noStall_fillRequestPipeline henv hok h

/-! ### Finishing a piece -/

/-- The use of the peer at the end of the handler. -/
theorem Others.lastUse (h : Others p s) : Others p (lastUse p i s) := by
  rw [Coordinator.lastUse]
  split
  case h_1 => exact h
  case h_2 state hp =>
    rw [deactivate]
    split
    case isTrue =>
      refine h.congr (fun q hq => ?_) (fun _ _ => rfl) fun _ _ hj => hj
      rw [lookup_setPeer, if_neg hq]
    case isFalse => exact h

/-- The requests for a piece are cancelled. -/
theorem Others.trims (h : Others p s) (ht : Trims i s s')
    (hcomp : ∀ q state j, q ≠ p → s.peers.lookup q = some state → s.choking q = false →
      state.outstanding ≠ [] → (∀ r ∈ state.outstanding, r.piece = i) →
      state.bitfield.has j = true → s.pieceManager.hasPendingBlocks j = false) : Others p s' := by
  intro q hq state' j hst' hun hhas hj hempty
  obtain ⟨state, hst, hb, ho⟩ := ht.lookup q state' hst'
  rw [ht.choking] at hun
  rw [ht.pieceManager] at hj
  rw [hb] at hhas
  by_cases hne : state.outstanding = []
  · exact h q hq state j hst hun hhas hj hne
  · -- all that was out was for the piece, since nothing is left
    have hall : ∀ r ∈ state.outstanding, r.piece = i := by
      intro r hr
      by_contra hc
      have := ho r hr hc
      rw [hempty] at this
      cases this
    rw [hcomp q state j hq hst hun hne hall hhas] at hj
    cases hj

/-! ### Leaving -/

/-- **A connection is closed**: it was closed before, or the peer leaves. -/
theorem disconnect_eq_or_noStall (h : Others p s) (hok : s.pieceManager.Ok)
    (hidle : (s.connections p).state ≠ .disconnected → ∀ q state j, q ≠ p → Idle s q state →
      state.bitfield.has j = true → ¬Lists s p j) :
    ((s.connections p).state = .disconnected ∧ disconnect p s = s) ∨
      NoStall (disconnect p s) := by
  rcases disconnect_cases p s with hd | ⟨hopen, hd⟩
  · exact Or.inl hd
  · have hsame := alike_closing p s
    rw [hd]
    refine Or.inr ((hsame.others h).leave hok fun q state j hq hst hhas => ?_)
    rw [hsame.lists_iff]
    exact hidle hopen q state j hq (hsame.idle_iff.mp hst) hhas

/-- **A bad piece** is discarded, and its sender may be thrown out. -/
theorem Others.corrupt (h : Others p s) (hok : s.pieceManager.Ok)
    (hidle : ∀ q state, q ≠ p → Idle s q state → state.bitfield.has i = false)
    (hban : env.blacklists = true → ∀ q state j, q ≠ p → Idle s q state →
      state.bitfield.has j = true → j ≠ i → ¬Lists s p j) :
    Others p (onPeerCorrupted env p { s with pieceManager := s.pieceManager.pieceFailed i }) := by
  -- discarding makes blocks of this piece pending, and no idle peer has it
  have hfailed : Others p { s with pieceManager := s.pieceManager.pieceFailed i } := by
    refine h.lend (R := fun j => j = i) (fun _ _ => rfl) (fun _ _ => rfl) (fun j _ hj => ?_) ?_
    · exact (PieceManager.hasPendingBlocks_of_pieceFailed hj).symm
    · rintro q state j hq hst hhas rfl
      rw [hidle q state hq hst] at hhas
      cases hhas
  rw [onPeerCorrupted]
  split
  case isFalse => exact hfailed
  case isTrue hb =>
    have hgone := disconnect_eq_or_noStall
      (s := { s with pieceManager := s.pieceManager.pieceFailed i }.log (.peerCorrupted p))
      hfailed hok.pieceFailed fun _ q state j hq hst hhas => ?_
    · rcases hgone with ⟨-, he⟩ | hns
      · rw [he]
        exact hfailed
      · exact fun q _ => hns q
    · -- a piece that is discarded has no requested block
      rintro ⟨st, hst', r, hr, hrj, hreq⟩
      have hji : j ≠ i := by
        rintro rfl
        rw [hidle q state hq hst] at hhas
        cases hhas
      rw [pieceManager_log, PieceManager.blockState_pieceFailed, if_neg hji] at hreq
      exact hban hb q state j hq hst hhas hji ⟨st, hst', r, hr, hrj, hreq⟩

/-- **Telling a peer that we are interested** changes nothing here, or the peer leaves. -/
theorem interested_cases (h : Others p s) (hok : s.pieceManager.Ok)
    (hidle : InterestFails env s p → ∀ q state j, q ≠ p → Idle s q state →
      state.bitfield.has j = true → ¬Lists s p j) :
    (Alike s (sendMessage env p .interestedMsg s) ∧ ¬InterestFails env s p) ∨
      NoStall (sendMessage env p .interestedMsg s) := by
  have hsame := alike_sending p .interestedMsg s
  by_cases hf : InterestFails env s p
  · have hne : (s.connections p).state ≠ .disconnected := by
      rcases hf.1 with hc | hc <;> simp [hc]
    have he : sendMessage env p .interestedMsg s = disconnect p ((s.setConnection p
        ((s.connections p).sending .interestedMsg)).log (.sent p .interestedMsg)) := by
      rw [sendMessage, if_neg hne]
      exact if_pos hf
    rw [he]
    -- the peer leaves: what it was asked for is of no use to an idle one
    have hlists : ∀ q state j, q ≠ p → Idle _ q state → state.bitfield.has j = true →
        ¬Lists _ p j := fun q state j hq hst hhas hl =>
      hidle hf q state j hq (hsame.idle_iff.mp hst) hhas (hsame.lists_iff.mp hl)
    rcases disconnect_eq_or_noStall (hsame.others h) hok fun _ => hlists with ⟨hc, -⟩ | hns
    · refine absurd ?_ hne
      rwa [connections_log, connections_setConnection, if_pos rfl] at hc
    · exact Or.inr hns
  · refine Or.inl ⟨?_, hf⟩
    rcases sendMessage_cases env p .interestedMsg s with ⟨-, he⟩ | ⟨hne, -⟩
    · rw [he]
      exact .refl s
    · have he : sendMessage env p .interestedMsg s = (s.setConnection p
          ((s.connections p).sending .interestedMsg)).log (.sent p .interestedMsg) := by
        rw [sendMessage, if_neg hne]
        exact if_neg hf
      rw [he]
      exact hsame

/-! ### Messages -/

/-- **The Choke handler.** -/
theorem noStall_handleChoke (h : Others p s) (hok : s.pieceManager.Ok) (hch : s.choking p = true)
    (hp : s.peers.lookup p = some state)
    (hidle : ∀ q state j, q ≠ p → Idle s q state → state.bitfield.has j = true → ¬Lists s p j) :
    NoStall (handleChoke p state s) := by
  refine Others.noStall (p := p) (h.lend (R := Lists s p) ?_ ?_ ?_ hidle) ?_
  · intro q hq
    rw [handleChoke, lookup_setPeer, if_neg hq]
  · exact fun _ _ => rfl
  · intro j _ hj
    refine (hasPendingBlocks_of_failRequests hok hj).imp id ?_
    rintro ⟨r, hr⟩
    exact ⟨state, hp, r, hr⟩
  · intro st j _ hun
    have hun' : s.choking p = false := hun
    rw [hch] at hun'
    cases hun'

/-- Expressing interest. -/
theorem expressInterest_cases {wanted : Bool} (h : Others p s) (hok : s.pieceManager.Ok)
    (hidle : (wanted && !(s.connections p).amInterested) = true → InterestFails env s p →
      ∀ q state j, q ≠ p → Idle s q state → state.bitfield.has j = true → ¬Lists s p j) :
    (Alike s (expressInterest env p wanted s) ∧
        ¬((wanted && !(s.connections p).amInterested) = true ∧ InterestFails env s p)) ∨
      NoStall (expressInterest env p wanted s) := by
  rw [expressInterest]
  split
  case isTrue hw =>
    refine (interested_cases h hok (hidle hw)).imp ?_ id
    rintro ⟨hsame, hf⟩
    exact ⟨hsame, fun hc => hf hc.2⟩
  case isFalse hw => exact Or.inl ⟨.refl s, fun hc => hw hc.1⟩

/-- What a peer tells us of its pieces is recorded. -/
structure Records (p : PeerId) (state : PeerState T) (s s' : State T) : Prop where
  /-- The entries of the others. -/
  lookup : ∀ q, q ≠ p → s'.peers.lookup q = s.peers.lookup q
  /-- The entry of the peer. -/
  own : ∃ b, s'.peers.lookup p = some { state with bitfield := b }
  /-- The pieces. -/
  pieceManager : s'.pieceManager = s.pieceManager
  /-- The connections. -/
  connections : s'.connections = s.connections
  /-- The trace. -/
  trace : s'.trace = s.trace

theorem records_recordBitfield (p : PeerId) (bits : List UInt8) (state : PeerState T)
    (s : State T) : Records p state s (recordBitfield p bits state s) where
  lookup := fun q hq => by rw [recordBitfield, lookup_setPeer, if_neg hq]
  own := ⟨_, by rw [recordBitfield, lookup_setPeer, if_pos rfl]⟩
  pieceManager := rfl
  connections := rfl
  trace := rfl

theorem records_recordHave (idx : ℕ) (hp : s.peers.lookup p = some state) :
    Records p state s (recordHave p idx state s) := by
  rw [recordHave]
  split
  case isTrue =>
    refine ⟨fun q hq => ?_, ⟨state.bitfield.set idx true, ?_⟩, rfl, rfl, rfl⟩
    · rw [lookup_setPeer, if_neg hq]
    · rw [lookup_setPeer, if_pos rfl]
  case isFalse => exact ⟨fun _ _ => rfl, ⟨_, hp⟩, rfl, rfl, rfl⟩

theorem Records.others (hrec : Records p state s s') (h : NoStall s) : Others p s' := by
  refine Others.congr (fun q _ => h q) hrec.lookup (fun q _ => ?_) fun j _ hj => ?_
  · rw [choking, hrec.connections, choking]
  · rwa [hrec.pieceManager] at hj

/-- Expressing interest after such a record: the peer still lists what it listed, and gives
it back if it leaves. -/
theorem Records.expressInterest_cases {wanted : Bool} (hrec : Records p state s s')
    (h : NoStall s) (hok : s.pieceManager.Ok) (hp : s.peers.lookup p = some state)
    (ht : Tended env s a) (ha : a.peer = p)
    (hasks : asksInterest s a = (wanted && !(s.connections p).amInterested)) :
    (Alike s' (expressInterest env p wanted s') ∧
        ¬(asksInterest s a = true ∧ InterestFails env s p)) ∨
      NoStall (expressInterest env p wanted s') := by
  have hfails : InterestFails env s' p ↔ InterestFails env s p := by
    rw [InterestFails, hrec.connections, hrec.trace, InterestFails]
  rw [hasks, ← hrec.connections, ← hfails]
  refine Coordinator.expressInterest_cases (hrec.others h) (hrec.pieceManager ▸ hok) ?_
  rintro hw hf q st j hq ⟨hlook, hch, hempty⟩ hhas ⟨st', hlook', hr⟩
  rw [hrec.connections, ← hasks] at hw
  rw [hrec.lookup q hq] at hlook
  rw [choking, hrec.connections] at hch
  obtain ⟨b, hb⟩ := hrec.own
  obtain rfl := Option.some.inj (hb.symm.trans hlook')
  rw [hrec.pieceManager] at hr
  refine ht.returned q st j (ha.symm ▸ hq) ⟨hlook, hch, hempty⟩ hhas (Or.inr ⟨?_, ?_⟩)
  · exact Or.inr (Or.inr (Or.inr (Or.inl ⟨hw, ha.symm ▸ hfails.mp hf⟩)))
  · rw [ha]
    exact ⟨state, hp, hr⟩

/-- **The Bitfield handler.** -/
theorem noStall_handleBitfield (henv : OnlyInterestFails env) (h : NoStall s)
    (hok : s.pieceManager.Ok) {bits : List UInt8} (hact : (s.connections p).state = .active)
    (hp : s.peers.lookup p = some state) (ht : Tended env s (.message p (.bitfieldMsg bits))) :
    NoStall (handleBitfield env p bits state s) := by
  have hrec := records_recordBitfield p bits state s
  have hasks : asksInterest s (.message p (.bitfieldMsg bits)) =
      ((List.range T.count).any (fun i =>
        (Bitfield.ofBytes bits T.count).has i && !s.pieceManager.hasPiece i) &&
        !(s.connections p).amInterested) := by
    rw [asksInterest, decide_eq_true hact, Bool.true_and]
  rw [handleBitfield]
  refine noStall_topOff henv ((moves_expressInterest env p _ _).ok hok) ?_
  rcases hrec.expressInterest_cases h hok hp ht rfl hasks with ⟨hsame, -⟩ | hns
  · exact hsame.others (hrec.others h)
  · exact fun q _ => hns q

/-- An idle peer that announces a piece without pending blocks is not left waiting. -/
theorem busy_recordHave {idx : ℕ} (h : Busy s p) (hp : s.peers.lookup p = some state)
    (hann : Idle s p state → idx < T.count → s.pieceManager.hasPendingBlocks idx = false) :
    Busy (recordHave p idx state s) p := by
  rw [recordHave]
  split
  case isFalse => exact h
  case isTrue hc =>
    intro st j hst hun hhas hj hempty
    rw [lookup_setPeer, if_pos rfl] at hst
    cases hst
    have hidle : Idle s p state := ⟨hp, hun, hempty⟩
    rcases Bitfield.has_set_true.mp hhas with ⟨rfl, -⟩ | hhas
    · have hj' : s.pieceManager.hasPendingBlocks idx = true := hj
      rw [hann hidle hc.1] at hj'
      cases hj'
    · exact h state j hp hun hhas hj hempty

/-- **The Have handler.** -/
theorem noStall_handleHave (h : NoStall s) (hok : s.pieceManager.Ok) {idx : UInt32}
    (hact : (s.connections p).state = .active) (hp : s.peers.lookup p = some state)
    (ht : Tended env s (.message p (.haveMsg idx))) :
    NoStall (handleHave env p idx.toNat state s) := by
  have hrec := records_recordHave idx.toNat hp
  rw [handleHave]
  split
  case isFalse hlt =>
    -- a piece that does not exist
    rw [recordHave, if_neg fun hc => hlt hc.1]
    exact h
  case isTrue hlt =>
    have hasks : asksInterest s (.message p (.haveMsg idx)) =
        (!s.pieceManager.hasPiece idx.toNat && !(s.connections p).amInterested) := by
      rw [asksInterest, decide_eq_true ⟨hact, hlt⟩, Bool.true_and]
    rw [hrec.pieceManager]
    rcases hrec.expressInterest_cases h hok hp ht rfl hasks with ⟨hsame, hstay⟩ | hns
    · refine Others.noStall (p := p) (hsame.others (hrec.others h)) (hsame.busy ?_)
      exact busy_recordHave (h p) hp fun hidle hlt' =>
        ht.announced p idx state rfl hact hidle hlt' hstay
    · exact hns

/-- **A good piece is finished.** Where no other peer waits for nothing else, nobody is left
idle. -/
theorem others_finishPiece_good (henv : OnlyInterestFails env) (h : Others p s)
    (hv : s.pieceManager.validatePiece env.sha1 (env.garbage i) i = true)
    (hcomp : ∀ q state j, q ≠ p → s.peers.lookup q = some state → s.choking q = false →
      state.outstanding ≠ [] → (∀ r ∈ state.outstanding, r.piece = i) →
      state.bitfield.has j = true → j ≠ i → s.pieceManager.hasPendingBlocks j = false) :
    Others p (finishPiece env p i s) := by
  rw [finishPiece, log_hashFault]
  refine Others.lastUse ?_
  rw [if_pos (by exact hv)]
  refine Others.trims (s := completePiece env i { s with trace := hashFault T i ++ s.trace })
    (h.congr (fun _ _ => rfl) (fun _ _ => rfl) fun j hlt hj => ?_)
    ((trims_cancelPieceRequests henv i _).trans (trims_broadcastHave henv i _)) ?_
  · exact (PieceManager.hasPendingBlocks_of_pieceCompleted hlt hj).2
  · intro q state j hq hst hun hne hall hhas
    refine Bool.eq_false_iff.mpr fun hc => ?_
    obtain ⟨hji, hj⟩ : j ≠ i ∧ s.pieceManager.hasPendingBlocks j = true :=
      PieceManager.hasPendingBlocks_of_pieceCompleted (Bitfield.lt_of_has hhas) hc
    rw [hcomp q state j hq hst hun hne hall hhas hji] at hj
    cases hj

/-- **A bad piece is finished.** -/
theorem others_finishPiece_bad (h : Others p s) (hok : s.pieceManager.Ok)
    (hv : s.pieceManager.validatePiece env.sha1 (env.garbage i) i = false)
    (hidle : ∀ q state, q ≠ p → Idle s q state → state.bitfield.has i = false)
    (hban : env.blacklists = true → ∀ q state j, q ≠ p → Idle s q state →
      state.bitfield.has j = true → j ≠ i → ¬Lists s p j) :
    Others p (finishPiece env p i s) := by
  rw [finishPiece, log_hashFault]
  refine Others.lastUse ?_
  rw [if_neg (by simp [hv])]
  exact Others.corrupt (s := { s with trace := hashFault T i ++ s.trace }) h hok hidle hban

/-- A block has come in. -/
theorem others_deliver {c : ℕ} {x : List UInt8} {r : Bool} {pm : PieceManager T} (h : NoStall s)
    (hok : s.pieceManager.Ok) (hb : s.pieceManager.blockReceived i c x = (r, pm)) :
    Others p { s.setPeer p (state.answered i c) with pieceManager := pm } := by
  refine Others.congr (fun q _ => h q) (fun q hq => ?_) (fun _ _ => rfl) fun j _ hj => ?_
  · exact lookup_setPeer.trans (if_neg hq)
  · exact PieceManager.hasPendingBlocks_of_blockReceived hok hb hj

/-- **The Piece handler.** -/
theorem noStall_handlePiece (henv : OnlyInterestFails env) (h : NoStall s)
    (hok : s.pieceManager.Ok) {idx c : UInt32} {x : List UInt8}
    (hact : (s.connections p).state = .active) (hp : s.peers.lookup p = some state)
    (ht : Tended env s (.message p (.pieceMsg idx c x))) :
    NoStall (handlePiece env p idx.toNat c.toNat x state s) := by
  rcases hb : s.pieceManager.blockReceived idx.toNat c.toNat x with ⟨completed, pm⟩
  rw [handlePiece, deliver_eq hb]
  have hok₁ := hok.of_blockReceived hb
  have hdel : Others p { s.setPeer p (state.answered idx.toNat c.toNat) with pieceManager := pm } :=
    others_deliver h hok hb
  cases completed with
  | false => exact noStall_topOff henv hok₁ hdel
  | true =>
    refine noStall_topOff henv (ok_finishPiece idx hok₁) ?_
    -- what the other peers are, and what this one lists, it was and did before
    have hlook : ∀ q st, q ≠ p → (s.setPeer p (state.answered idx.toNat c.toNat)).peers.lookup q =
        some st → s.peers.lookup q = some st := by
      intro q st hq hst
      rwa [lookup_setPeer, if_neg hq] at hst
    have hlists : ∀ j, Lists { s.setPeer p (state.answered idx.toNat c.toNat) with
        pieceManager := pm } p j → Lists s p j := by
      rintro j ⟨st, hst, r, hr, hrj, hreq⟩
      obtain rfl : state.answered idx.toNat c.toNat = st := by
        simpa using lookup_setPeer.symm.trans hst
      have hold := PieceManager.requested_of_blockReceived hok hb
        (PieceManager.blockReceived_true hok (congrArg Prod.fst hb)).1 hreq
      exact ⟨state, hp, r, List.mem_of_mem_eraseP hr, hrj, hold.1⟩
    cases hv : pm.validatePiece env.sha1 (env.garbage idx.toNat) idx.toNat with
    | true =>
      refine others_finishPiece_good henv hdel hv ?_
      intro q st j hq hst hun hne hall hhas hji
      refine Bool.eq_false_iff.mpr fun hj => ?_
      have hj' := PieceManager.hasPendingBlocks_of_blockReceived hok hb hj
      rw [ht.completed idx.toNat q st j ⟨p, idx, c, x, state, pm, rfl, hact, hp, rfl, hb, hv⟩ hq
        (hlook q st hq hst) hun hne hall hhas hji] at hj'
      cases hj'
    | false =>
      have hends : Ends env s (.message p (.pieceMsg idx c x)) idx.toNat false :=
        ⟨p, idx, c, x, state, pm, rfl, hact, hp, rfl, hb, hv⟩
      refine others_finishPiece_bad hdel hok₁ hv ?_ ?_
      · rintro q st hq ⟨hst, hrest⟩
        refine Bool.eq_false_iff.mpr fun hhas => ?_
        exact ht.returned q st _ hq ⟨hlook q st hq hst, hrest⟩ hhas (Or.inl hends)
      · rintro hban q st j hq ⟨hst, hrest⟩ hhas - hl
        exact ht.returned q st j hq ⟨hlook q st hq hst, hrest⟩ hhas
          (Or.inr ⟨Or.inr (Or.inr (Or.inr (Or.inr ⟨hban, _, hends⟩))), hlists j hl⟩)

/-- Changing a connection leaves the other peers alone. -/
theorem Others.setConnection (h : Others p s) (x : PeerConnection) :
    Others p (s.setConnection p x) := by
  refine h.congr (fun _ _ => rfl) (fun q hq => ?_) fun _ _ hj => hj
  rw [choking_setConnection, if_neg hq]

theorem NoStall.setConnection (h : NoStall s) {x : PeerConnection}
    (hx : x.peerChoking = s.choking p) : NoStall (s.setConnection p x) := by
  have hsame : Alike s (s.setConnection p x) := by
    refine ⟨rfl, rfl, fun q => ?_, fun _ h => h⟩
    rw [choking_setConnection]
    split
    case isTrue hq => rw [hx, hq]
    case isFalse => rfl
  exact fun q => hsame.busy (h q)

/-- **A message that arrives.** -/
theorem noStall_message (henv : OnlyInterestFails env) (h : NoStall s) (hok : s.pieceManager.Ok)
    {m : PeerMessage} (hact : (s.connections p).state = .active)
    (ht : Tended env s (.message p m)) :
    NoStall (handlePeerMessage env p m (s.setConnection p ((s.connections p).received m))) := by
  have hothers : Others p (s.setConnection p ((s.connections p).received m)) :=
    Others.setConnection (fun q _ => h q) _
  -- most messages leave the connection as it is
  have hself : s.setConnection p (s.connections p) = s := by
    rw [State.setConnection, Function.update_eq_self]
  rw [handlePeerMessage]
  split
  case h_1 hp =>
    refine hothers.noStall fun state j hst => ?_
    rw [hp] at hst
    cases hst
  case h_2 state hp =>
    cases m with
    | chokeMsg =>
      refine noStall_handleChoke hothers hok ?_ hp ?_
      · rw [choking_setConnection, if_pos rfl]
        rfl
      · rintro q st j hq ⟨hst, hun, hempty⟩ hhas hl
        rw [choking_setConnection, if_neg hq] at hun
        exact ht.returned q st j hq ⟨hst, hun, hempty⟩ hhas
          (Or.inr ⟨Or.inr (Or.inr (Or.inl ⟨p, rfl, hact⟩)), hl⟩)
    | unchokeMsg => exact noStall_fillRequestPipeline henv hok hothers
    | bitfieldMsg bits =>
      show NoStall (handleBitfield env p bits state (s.setConnection p (s.connections p)))
      rw [hself]
      exact noStall_handleBitfield henv h hok hact hp ht
    | haveMsg idx =>
      show NoStall (handleHave env p idx.toNat state (s.setConnection p (s.connections p)))
      rw [hself]
      exact noStall_handleHave h hok hact hp ht
    | pieceMsg idx c x =>
      show NoStall (handlePiece env p idx.toNat c.toNat x state
        (s.setConnection p (s.connections p)))
      rw [hself]
      exact noStall_handlePiece henv h hok hact hp ht
    | keepAliveMsg => exact h.setConnection rfl
    | interestedMsg => exact h.setConnection rfl
    | notInterestedMsg => exact h.setConnection rfl
    | requestMsg => exact h.setConnection rfl
    | cancelMsg => exact h.setConnection rfl
    | portMsg => exact h.setConnection rfl

/-! ### Steps and runs -/

theorem NoStall.step (henv : OnlyInterestFails env) (h : NoStall s) (hok : s.pieceManager.Ok)
    (ht : Tended env s a) : NoStall (Coordinator.step env s a) := by
  cases a with
  | establish p =>
    rw [Coordinator.step]
    split
    case isTrue => exact h
    case isFalse => exact h.setConnection rfl
  | register p =>
    refine Others.noStall (p := p) ?_ ?_
    · refine Others.congr (fun q _ => h q) (fun q hq => ?_) (fun _ _ => rfl) fun _ _ hj => hj
      exact lookup_setPeer.trans (if_neg hq)
    · -- a new peer has told us of no piece yet
      intro st j hst _ hhas
      have hst' : some {} = some st := by simpa using lookup_setPeer.symm.trans hst
      cases hst'
      rw [Bitfield.has_empty] at hhas
      cases hhas
  | unregister p =>
    refine Others.leave (fun q _ => h q) hok fun q st j hq hst hhas hl => ?_
    exact ht.returned q st j hq hst hhas (Or.inr ⟨Or.inl ⟨p, rfl⟩, hl⟩)
  | interested p =>
    have hidle : InterestFails env s p → ∀ q state j, q ≠ p → Idle s q state →
        state.bitfield.has j = true → ¬Lists s p j := by
      intro hf q st j hq hst hhas hl
      exact ht.returned q st j hq hst hhas
        (Or.inr ⟨Or.inr (Or.inr (Or.inr (Or.inl ⟨rfl, hf⟩))), hl⟩)
    rcases interested_cases (fun q _ => h q) hok hidle with ⟨hsame, -⟩ | hns
    · exact fun q => hsame.busy (h q)
    · exact hns
  | disconnect p =>
    have hidle : (s.connections p).state ≠ .disconnected → ∀ q state j, q ≠ p →
        Idle s q state → state.bitfield.has j = true → ¬Lists s p j := by
      intro hopen q st j hq hst hhas hl
      exact ht.returned q st j hq hst hhas (Or.inr ⟨Or.inr (Or.inl ⟨p, rfl, hopen⟩), hl⟩)
    rcases disconnect_eq_or_noStall (fun q _ => h q) hok hidle with ⟨-, he⟩ | hns
    · show NoStall (Coordinator.disconnect p s)
      rw [he]
      exact h
    · exact hns
  | message p m =>
    rw [Coordinator.step]
    split
    case isFalse => exact h
    case isTrue hact => exact noStall_message henv h hok hact ht

/-- **No stalled peer.** In every run in which only sends of Interested fail and no input
leaves a peer idle, every registered peer that does not choke us and has a piece with
pending blocks has an outstanding request. -/
theorem noStall_of_tended (henv : OnlyInterestFails env) {disk : Disk} {l : List Input}
    (hrun : Runs.Reach (Coordinator.step env) (Tended env) (.init T disk) l s) : NoStall s := by
  refine (hrun.invariant (I := fun s => s.pieceManager.Ok ∧ NoStall s)
    ⟨PieceManager.ok_init, fun q state j hst => ?_⟩ ?_).2
  · cases hst
  · rintro s a ⟨hok, h⟩ ht
    exact ⟨ok_step env a hok, h.step henv hok ht⟩

/-- Where every other peer is asked for blocks of two pieces, none is left idle. -/
theorem tended_of_occupied (hocc : ∀ e ∈ s.peers.entries, e.1 ≠ a.peer →
      ∃ r ∈ e.2.outstanding, ∃ r' ∈ e.2.outstanding, r.piece ≠ r'.piece)
    (hann : ∀ p idx, a ≠ .message p (.haveMsg idx)) : Tended env s a := by
  have hlook : ∀ q state, q ≠ a.peer → s.peers.lookup q = some state →
      ∃ r ∈ state.outstanding, ∃ r' ∈ state.outstanding, r.piece ≠ r'.piece :=
    fun q state hq hst => hocc ⟨q, state⟩ (AList.mem_lookup_iff.mp hst) hq
  refine ⟨?_, ?_, ?_⟩
  · rintro q state j hq ⟨hst, -, hnil⟩
    obtain ⟨r, hr, -⟩ := hlook q state hq hst
    rw [hnil] at hr
    cases hr
  · intro i q state j _ hq hst _ _ hall
    obtain ⟨r, hr, r', hr', hne⟩ := hlook q state hq hst
    exact absurd ((hall r hr).trans (hall r' hr').symm) hne
  · exact fun p idx state ha => absurd ha (hann p idx)

/-- Peers 8 and 9 have all twelve pieces, and are asked for five of them each. -/
def arrivals : List Input :=
  [8, 9].flatMap fun p =>
    [.establish p, .register p, .message p (.bitfieldMsg [0xff, 0xf0]), .message p .unchokeMsg]

/-- Peer 8 sends one of its blocks. Of the two pieces that nobody had been asked for one is left,
and nobody is idle. -/
theorem noStall_of_tended_arrivals :
    let s : State (Torrent.letters 12) := run Env.calm Disk.oneByte
      (arrivals ++ [.message 8 (.pieceMsg 3 0 [0x61])])
    NoStall s ∧ s.pieceManager.hasPendingBlocks 11 = true ∧
      s.peers.entries.map (fun e => (e.1, e.2.outstanding.map RequestedBlock.piece)) =
        [(8, [0, 1, 2, 4, 10]), (9, [5, 6, 7, 8, 9])] := by
  refine ⟨noStall_of_tended ?_ (Runs.reach_iff.mpr ⟨rfl, ?_⟩), by decide, by decide⟩
  · intro tr p m h
    cases h
  · simp only [arrivals, List.flatMap_cons, List.flatMap_nil, List.append_nil, List.cons_append,
      List.nil_append, Runs.throughout_cons, Runs.throughout_nil, and_true]
    refine ⟨tended_of_occupied ?_ ?_, tended_of_occupied ?_ ?_, tended_of_occupied ?_ ?_,
      tended_of_occupied ?_ ?_, tended_of_occupied ?_ ?_, tended_of_occupied ?_ ?_,
      tended_of_occupied ?_ ?_, tended_of_occupied ?_ ?_, tended_of_occupied ?_ ?_⟩
    all_goals first
      | (rintro _ _ ⟨⟩)
      | decide

/-- **A Have that nothing follows.** A peer unchokes us before it has anything, and then
announces the one piece. Nobody asks it for the block. -/
theorem not_noStall_have :
    ¬NoStall (run Env.calm Disk.oneByte [.establish 7, .register 7, .message 7 .unchokeMsg,
      .message 7 (.haveMsg 0)] : State Torrent.oneByte) := by
  intro h
  exact h 7 { bitfield := (Bitfield.empty _).set 0 true } 0 (by decide) (by decide) (by decide)
    (by decide) rfl

end Coordinator

end TransferEngine
