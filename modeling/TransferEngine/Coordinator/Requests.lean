import TransferEngine.Coordinator.Calm
import TransferEngine.Coordinator.Pipeline

/-!
# The requests of a peer

What the coordinator keeps of a peer is its list of requests and its active piece, and the
flag that tells whether the peer chokes us is kept elsewhere, by the connection. As long as
no send fails the three agree in every reachable state
(`TransferEngine.Coordinator.fit_of_run`): there are at most five requests, none from a peer
that chokes us, none for a piece that we have, and each is for a block of the cut of its
piece into blocks of 16 KiB.

All but one of the clauses are kept by the head of a step and by every move after it. When a
piece is completed, though, the requests of all the other peers for it are of no use any
more. They are taken off the lists by `cancel_piece_requests`, and after that no move puts
one back (`TransferEngine.Coordinator.Unnamed.move`).
-/

namespace TransferEngine

/-- **A request for a block of a piece**: the block starts at a multiple of 16 KiB and is
16 KiB long, or as long as the rest of the piece. -/
def RequestedBlock.Tiles (T : Torrent) (r : RequestedBlock) : Prop :=
  r.piece < T.count ∧ blockSize ∣ r.begin ∧ r.begin < T.getPieceLength r.piece ∧
    r.length = min blockSize (T.getPieceLength r.piece - r.begin)

namespace PeerState

variable {T : Torrent} {state state' : PeerState T} {has : ℕ → Bool} {choking : Bool} {i : ℕ}

/-- **What is recorded of a peer is fit to be acted on**, where `has` tells the pieces that
we have and `choking` whether the peer chokes us. -/
structure Fit (has : ℕ → Bool) (choking : Bool) (state : PeerState T) : Prop where
  /-- At most five requests are out. -/
  few : state.outstanding.length ≤ 5
  /-- Nothing is asked of a peer that chokes us. -/
  choked : choking = true → state.outstanding = [] ∧ state.activePiece = none
  /-- No request is for a piece that we have. -/
  missing : ∀ r ∈ state.outstanding, has r.piece = false
  /-- The active piece is none that we have. -/
  active : ∀ i, state.activePiece = some i → has i = false
  /-- Every request is for a block of a piece. -/
  tiles : ∀ r ∈ state.outstanding, r.Tiles T

/-- The peer is asked for a piece, or would be next. -/
def Names (state : PeerState T) (i : ℕ) : Prop :=
  (∃ r ∈ state.outstanding, r.piece = i) ∨ state.activePiece.map Fin.val = some i

/-- Less is asked of the peer. -/
structure Less (state' state : PeerState T) : Prop where
  /-- The pieces of the peer are the same. -/
  bitfield : state'.bitfield = state.bitfield
  /-- Requests are taken off the list. -/
  outstanding : state'.outstanding.Sublist state.outstanding
  /-- The active piece is the same or none. -/
  activePiece : ∀ i, state'.activePiece = some i → state.activePiece = some i

theorem Less.refl (state : PeerState T) : state.Less state := ⟨rfl, .refl _, fun _ h => h⟩

theorem less_deactivated (state : PeerState T) : { state with activePiece := none }.Less state :=
  ⟨rfl, .refl _, fun _ h => nomatch h⟩

theorem Less.fit (h : state'.Less state) (hf : state.Fit has choking) :
    state'.Fit has choking where
  few := h.outstanding.length_le.trans hf.few
  choked := by
    intro hc
    obtain ⟨ho, ha⟩ := hf.choked hc
    refine ⟨List.sublist_nil.mp (ho ▸ h.outstanding), Option.eq_none_iff_forall_not_mem.mpr ?_⟩
    intro i hi
    rw [h.activePiece i hi] at ha
    cases ha
  missing := fun r hr => hf.missing r (h.outstanding.subset hr)
  active := fun i hi => hf.active i (h.activePiece i hi)
  tiles := fun r hr => hf.tiles r (h.outstanding.subset hr)

theorem Less.names (h : state'.Less state) (hn : state'.Names i) : state.Names i := by
  rcases hn with ⟨r, hr, rfl⟩ | ha
  · exact Or.inl ⟨r, h.outstanding.subset hr, rfl⟩
  · obtain ⟨j, hj, rfl⟩ := Option.map_eq_some_iff.mp ha
    exact Or.inr (by rw [h.activePiece j hj, Option.map_some])

/-- An entry without requests and without an active piece is fit. -/
theorem fit_of_idle (ho : state.outstanding = []) (ha : state.activePiece = none) :
    state.Fit has choking where
  few := by simp [ho]
  choked := fun _ => ⟨ho, ha⟩
  missing := by simp [ho]
  active := by simp [ha]
  tiles := by simp [ho]

/-- A fit entry stays fit when more pieces are had, if it names none of them. -/
theorem Fit.of_not_names {has' : ℕ → Bool} (h : state.Fit has choking)
    (hhas : ∀ j, has' j = true → has j = true ∨ ¬state.Names j) : state.Fit has' choking where
  few := h.few
  choked := h.choked
  missing := by
    intro r hr
    by_contra hc
    rcases hhas r.piece (by simpa using hc) with hj | hj
    · rw [h.missing r hr] at hj
      cases hj
    · exact hj (Or.inl ⟨r, hr, rfl⟩)
  active := by
    intro i hi
    by_contra hc
    rcases hhas i (by simpa using hc) with hj | hj
    · rw [h.active i hi] at hj
      cases hj
    · exact hj (Or.inr (by rw [hi, Option.map_some]))
  tiles := h.tiles

end PeerState

/-! ### The blocks that are handed out -/

/-- The blocks of a cut start where it starts or a number of blocks later, and only the last
one is short. -/
theorem tiles_of_mem_cutBlocks {piece length fuel offset : ℕ} {b : Block}
    (h : b ∈ cutBlocks piece length fuel offset) (hd : blockSize ∣ offset) :
    blockSize ∣ b.begin ∧ b.begin < length ∧ b.length = min blockSize (length - b.begin) := by
  induction fuel generalizing offset with
  | zero => simp [cutBlocks] at h
  | succ fuel ih =>
    rw [cutBlocks] at h
    split at h
    case isFalse => simp at h
    case isTrue hlt =>
      rcases List.mem_cons.mp h with rfl | h
      · exact ⟨hd, hlt, rfl⟩
      · by_cases hle : blockSize ≤ length - offset
        · rw [Nat.min_eq_left hle] at h
          exact ih h (Nat.dvd_add hd (Nat.dvd_refl _))
        · -- a short block is the last one
          rw [Nat.min_eq_right (by omega)] at h
          obtain ⟨-, hge, hpos, -, hfit, -⟩ := of_mem_cutBlocks h
          omega

/-- **A block that is handed out** is one of a piece that we do not have, and the request
for it is as it should be. -/
theorem PieceManager.getNextBlock_tiles {T : Torrent} {pm pm' : PieceManager T} {i : ℕ} {b : Block}
    (h : pm.Ok) (hi : i < T.count) (hg : pm.getNextBlock i = (some b, pm')) :
    pm.hasPiece i = false ∧ b.request.piece = i ∧ b.request.Tiles T := by
  obtain ⟨hhas, -, -, -, ⟨b₀, hb₀, hspan⟩, -⟩ := getNextBlock_some h hg
  simp only [Block.span, Prod.mk.injEq] at hspan
  obtain ⟨hpiece, hbegin, hlength⟩ := hspan
  have hp : b.piece = i := by
    rw [← hpiece, (of_mem_freshBlocks hb₀).1, Torrent.u32_of_lt_count hi]
  obtain ⟨hd, hlt, hlen⟩ := tiles_of_mem_cutBlocks hb₀ (Nat.dvd_zero _)
  refine ⟨hhas, hp, ?_⟩
  rw [RequestedBlock.Tiles, Block.request, hp, ← hbegin, ← hlength]
  exact ⟨hi, hd, hlt, hlen⟩

namespace Coordinator

open State

variable {T : Torrent} {s s' : State T} {env : Env} {a : Input} {p q : PeerId}
  {state state' : PeerState T} {i : ℕ} {has : ℕ → Bool}

/-! ### The entries after a move -/

/-- **What a move makes of the entry of a peer.** -/
inductive Revised (s : State T) (q : PeerId) (state : PeerState T) : PeerState T → Prop
  /-- Less is asked of the peer. -/
  | less (state' : PeerState T) : state'.Less state → Revised s q state state'
  /-- One block more is asked of the peer. -/
  | push (i : Fin T.count) (block : Block) (pm : PieceManager T) :
      state.outstanding.length < 5 → s.choking q = false →
      state.activePiece = some i ∨ state.bitfield.has i = true →
      s.pieceManager.getNextBlock i = (some block, pm) → Revised s q state (state.push i block)

/-- Replacing an entry by a revised one. -/
theorem revised_setPeer {t : State T} (hp : s.peers.lookup p = some state)
    (hr : Revised s p state state') (ht : t.peers = s.peers) {new : PeerState T}
    (hq : (t.setPeer p state').peers.lookup q = some new) :
    ∃ old, s.peers.lookup q = some old ∧ Revised s q old new := by
  rw [lookup_setPeer] at hq
  split at hq
  case isTrue hqp =>
    cases hq
    subst hqp
    exact ⟨state, hp, hr⟩
  case isFalse => exact ⟨new, ht ▸ hq, .less _ (.refl _)⟩

theorem Move.revised (hm : Move s s') (hq : s'.peers.lookup q = some state') :
    ∃ state, s.peers.lookup q = some state ∧ Revised s q state state' := by
  cases hm with
  | note => exact ⟨state', hq, .less _ (.refl _)⟩
  | connection => exact ⟨state', hq, .less _ (.refl _)⟩
  | leave p =>
    rw [lookup_unregisterPeer] at hq
    split at hq
    case isTrue => cases hq
    case isFalse => exact ⟨state', hq, .less _ (.refl _)⟩
  | request p state i block pm hp hlt hch hfrom hg =>
    exact revised_setPeer (t := { s with pieceManager := pm }) hp
      (.push i block pm hlt hch hfrom hg)
      rfl hq
  | exhaust p state i pm hp =>
    exact revised_setPeer (t := { s with pieceManager := pm }) hp (.less _ state.less_deactivated)
      rfl hq
  | cancel p state kept rest r hp ho =>
    have hsub : (kept ++ rest).Sublist state.outstanding := by
      rw [ho]
      exact (List.Sublist.refl kept).append (List.sublist_cons_self r rest)
    exact revised_setPeer hp
      (.less { state with outstanding := kept ++ rest } ⟨rfl, hsub, fun _ h => h⟩)
      rfl hq
  | deactivate p state hp => exact revised_setPeer hp (.less _ state.less_deactivated) rfl hq

/-! ### Fit entries -/

/-- **Every entry is fit**, and so are the entries of the piece manager. Among the pieces
that `has` tells there is none that we do not have. -/
structure Fits (has : ℕ → Bool) (s : State T) : Prop where
  /-- The entries of the piece manager are sound. -/
  ok : s.pieceManager.Ok
  /-- We have the pieces. -/
  had : ∀ i, has i = true → s.pieceManager.hasPiece i = true
  /-- The entries of the peers are fit. -/
  fit : ∀ p state, s.peers.lookup p = some state → state.Fit has (s.choking p)

theorem Fits.move (h : Fits has s) (hm : Move s s') : Fits has s' where
  ok := hm.ok h.ok
  had := by
    intro i hi
    rw [hm.hasPiece_eq]
    exact h.had i hi
  fit := by
    intro q state' hq
    obtain ⟨state, hs, hrev⟩ := hm.revised hq
    have hfit := h.fit q state hs
    rw [hm.choking_eq]
    cases hrev with
    | less _ hless => exact hless.fit hfit
    | push i block pm hlt hch _ hg =>
      obtain ⟨hno, hpiece, htiles⟩ := PieceManager.getNextBlock_tiles h.ok i.isLt hg
      -- a piece we had is not picked: its bit only ever gets set
      have hi : has i = false := by
        by_contra hc
        rw [h.had i (by simpa using hc)] at hno
        cases hno
      have hmem : ∀ r ∈ (state.push i block).outstanding,
          r ∈ state.outstanding ∨ r = block.request := by
        intro r hr
        simpa [PeerState.push] using hr
      constructor
      · simp only [PeerState.push, List.length_append, List.length_singleton]
        omega
      · intro hc
        rw [hch] at hc
        cases hc
      · intro r hr
        rcases hmem r hr with hr | rfl
        · exact hfit.missing r hr
        · rw [hpiece, hi]
      · intro j hj
        cases hj
        exact hi
      · intro r hr
        rcases hmem r hr with hr | rfl
        · exact hfit.tiles r hr
        · exact htiles

theorem Fits.moves (h : Fits has s) (hm : Moves s s') : Fits has s' :=
  Runs.preserved_chain hm (fun _ _ ht hm => ht.move hm) h

/-! ### The head of a step -/

/-- The same peers and pieces, and nobody chokes us who did not. -/
theorem Fits.congr (h : Fits has s) (hpm : s'.pieceManager = s.pieceManager)
    (hpeers : s'.peers = s.peers)
    (hch : ∀ q state, s.peers.lookup q = some state → s'.choking q = true → s.choking q = true) :
    Fits has s' where
  ok := hpm ▸ h.ok
  had := hpm ▸ h.had
  fit := by
    intro q state hq
    rw [hpeers] at hq
    have hf := h.fit q state hq
    exact { hf with choked := fun hc => hf.choked (hch q state hq hc) }

/-- One entry changes. -/
theorem Fits.insert (h : Fits has s) (hok : s'.pieceManager.Ok)
    (hhad : ∀ i, s.pieceManager.hasPiece i = true → s'.pieceManager.hasPiece i = true)
    (hch : ∀ q, q ≠ p → s'.choking q = s.choking q) (hpeers : s'.peers = s.peers.insert p state)
    (hfit : state.Fit has (s'.choking p)) : Fits has s' where
  ok := hok
  had := fun i hi => hhad i (h.had i hi)
  fit := by
    intro q state' hq
    rw [hpeers] at hq
    obtain ⟨rfl, rfl⟩ | ⟨hqp, hq⟩ := AList.of_lookup_insert hq
    · exact hfit
    · rw [hch q hqp]
      exact h.fit q state' hq

theorem Fits.settle (h : Fits has s) (env : Env) (p : PeerId) (i : ℕ) :
    Fits has (settle env p i s) := by
  rw [Coordinator.settle, log_hashFault]
  dsimp only
  split
  case isTrue =>
    refine ⟨h.ok.pieceCompleted, fun j hj => ?_, h.fit⟩
    exact PieceManager.hasPiece_pieceCompleted.mpr (Or.inr (h.had j hj))
  case isFalse =>
    have hfail : Fits has ({ s with
        trace := .peerCorrupted p :: (hashFault T i ++ s.trace)
        pieceManager := s.pieceManager.pieceFailed i } : State T) := by
      refine ⟨h.ok.pieceFailed, fun j hj => ?_, h.fit⟩
      rw [PieceManager.hasPiece_pieceFailed]
      exact h.had j hj
    rw [onPeerCorrupted]
    split
    case isTrue => exact hfail.moves (moves_disconnect p _)
    case isFalse => exact hfail

/-- The first request for a block that has come in is taken off the list. -/
theorem less_answered (state : PeerState T) (i c : ℕ) : (state.answered i c).Less state :=
  ⟨rfl, List.eraseP_sublist, fun _ h => h⟩

/-- A message other than Choke, once the flags of the connection are set. -/
theorem Fits.headMessage (h : Fits has s) (hp : s.peers.lookup p = some state) {m : PeerMessage}
    (hm : m ≠ .chokeMsg) : Fits has (headMessage env p state s m) := by
  have hf := h.fit p state hp
  -- what a peer has said it has plays no part in what fits
  have hbits : ∀ b, ({ state with bitfield := b } : PeerState T).Fit has (s.choking p) :=
    fun _ => ⟨hf.few, hf.choked, hf.missing, hf.active, hf.tiles⟩
  cases m with
  | chokeMsg => exact absurd rfl hm
  | bitfieldMsg bits => exact h.insert h.ok (fun _ hi => hi) (fun _ _ => rfl) rfl (hbits _)
  | haveMsg idx =>
    rw [Coordinator.headMessage, recordHave]
    split
    case isTrue => exact h.insert h.ok (fun _ hi => hi) (fun _ _ => rfl) rfl (hbits _)
    case isFalse => exact h
  | pieceMsg idx c x =>
    rcases hb : s.pieceManager.blockReceived idx.toNat c.toNat x with ⟨completed, pm⟩
    rw [Coordinator.headMessage, deliver_eq hb]
    have hdel : Fits has
        { s.setPeer p (state.answered idx.toNat c.toNat) with pieceManager := pm } := by
      refine h.insert (h.ok.of_blockReceived hb) (fun i hi => ?_) (fun _ _ => rfl) rfl
        ((less_answered state _ _).fit hf)
      rw [← hi]
      exact PieceManager.hasPiece_of_blockReceived hb
    cases completed with
    | true => exact hdel.settle env p idx.toNat
    | false => exact hdel
  | keepAliveMsg => exact h
  | unchokeMsg => exact h
  | interestedMsg => exact h
  | notInterestedMsg => exact h
  | requestMsg => exact h
  | cancelMsg => exact h
  | portMsg => exact h

/-- Only Choke makes the flag of a connection go up. -/
theorem peerChoking_of_received {x : PeerConnection} {m : PeerMessage} (hm : m ≠ .chokeMsg)
    (h : (x.received m).peerChoking = true) : x.peerChoking = true := by
  cases m with
  | chokeMsg => exact absurd rfl hm
  | unchokeMsg => cases h
  | keepAliveMsg => exact h
  | interestedMsg => exact h
  | notInterestedMsg => exact h
  | haveMsg => exact h
  | bitfieldMsg => exact h
  | requestMsg => exact h
  | pieceMsg => exact h
  | cancelMsg => exact h
  | portMsg => exact h

/-- **The head of a step keeps the entries fit** for the pieces that we had before it. -/
theorem Fits.head (h : Fits has s) (env : Env) (a : Input) : Fits has (head env s a) := by
  cases a with
  | establish p =>
    rw [Coordinator.head]
    split
    case isTrue => exact h
    case isFalse =>
      refine h.congr rfl rfl fun q state hq hc => ?_
      rw [choking_setConnection] at hc
      split at hc
      case isTrue hqp => rwa [hqp]
      case isFalse => exact hc
  | register p =>
    exact h.insert h.ok (fun _ hi => hi) (fun _ _ => rfl) rfl
      (PeerState.fit_of_idle rfl rfl)
  | unregister p => exact h.move (.leave p)
  | interested p => exact h
  | disconnect p => exact h
  | message p m =>
    rw [Coordinator.head]
    split
    case isFalse => exact h
    case isTrue =>
      have hflags : (∀ state, s.peers.lookup p = some state → m ≠ .chokeMsg) →
          Fits has (s.setConnection p ((s.connections p).received m)) := by
        intro hm
        refine h.congr rfl rfl fun q state hq hc => ?_
        rw [choking_setConnection] at hc
        split at hc
        case isTrue hqp =>
          subst hqp
          exact peerChoking_of_received (hm state hq) hc
        case isFalse => exact hc
      split
      case h_1 hp =>
        refine hflags fun state hs => ?_
        rw [hp] at hs
        cases hs
      case h_2 state hp =>
        by_cases hm : m = .chokeMsg
        · subst hm
          -- the flag goes up and the list is emptied at the same time
          refine h.insert (ok_failRequests h.ok) (fun i hi => ?_) (fun q hq => ?_) rfl
            (PeerState.fit_of_idle rfl rfl)
          · show (failRequests s.pieceManager state.outstanding).hasPiece i = true
            rwa [hasPiece_failRequests]
          · show (s.setConnection p _).choking q = s.choking q
            rw [choking_setConnection, if_neg hq]
        · exact (hflags fun _ _ => hm).headMessage hp hm

/-! ### Cancelling -/

/-- **No peer is asked for a piece**, nor would be next. -/
def Unnamed (i : ℕ) (s : State T) : Prop :=
  ∀ p state, s.peers.lookup p = some state → ¬state.Names i

/-- No move makes a peer be asked for a piece that we have. -/
theorem Unnamed.move (h : Unnamed i s) (hok : s.pieceManager.Ok)
    (hhas : s.pieceManager.hasPiece i = true) (hm : Move s s') : Unnamed i s' := by
  intro q state' hq hn
  obtain ⟨state, hs, hrev⟩ := hm.revised hq
  refine h q state hs ?_
  cases hrev with
  | less _ hless => exact hless.names hn
  | push j block pm hlt hch hfrom hg =>
    obtain ⟨hno, hpiece, -⟩ := PieceManager.getNextBlock_tiles hok j.isLt hg
    have hne : (j : ℕ) ≠ i := by
      rintro rfl
      rw [hhas] at hno
      cases hno
    rcases hn with ⟨r, hr, rfl⟩ | hact
    · rcases List.mem_append.mp hr with hr | hr
      · exact Or.inl ⟨r, hr, rfl⟩
      · rw [List.mem_singleton.mp hr] at hne
        exact absurd hpiece.symm hne
    · exact absurd (Option.some.inj hact) hne

theorem Unnamed.moves (h : Unnamed i s) (hok : s.pieceManager.Ok)
    (hhas : s.pieceManager.hasPiece i = true) (hm : Moves s s') : Unnamed i s' := by
  have hall : Unnamed i s' ∧ s'.pieceManager.Ok ∧ s'.pieceManager.hasPiece i = true :=
    Runs.preserved_chain (I := fun t : State T =>
        Unnamed i t ∧ t.pieceManager.Ok ∧ t.pieceManager.hasPiece i = true) hm
      (fun _ _ ht hm => ⟨ht.1.move ht.2.1 ht.2.2 hm, hm.ok ht.2.1, hm.hasPiece_eq.trans ht.2.2⟩)
      ⟨h, hok, hhas⟩
  exact hall.1

theorem onlyInterestFails_of_noSendFails (h : env.NoSendFails) : OnlyInterestFails env := by
  intro tr p m hf
  rw [h] at hf
  cases hf

/-- **The list of a peer after the cancellations**: what was on it, without the requests for
the piece. The entries of the others are not touched. -/
theorem lookup_cancelLoop (henv : env.NoSendFails) (i : ℕ) (kept : List RequestedBlock)
    {rest : List RequestedBlock} (hq : s.peers.lookup q = some state)
    (ho : state.outstanding = kept ++ rest) (q' : PeerId) :
    (cancelLoop env i q kept rest s).peers.lookup q' =
      if q' = q then
        some { state with outstanding := kept ++ rest.filter fun r => r.piece ≠ i }
      else s.peers.lookup q' := by
  induction rest generalizing kept s state with
  | nil =>
    rw [cancelLoop, List.filter_nil, ← ho]
    split
    case isTrue hqq => rw [hqq, hq]
    case isFalse => rfl
  | cons r rest ih =>
    rw [cancelLoop]
    split
    case isFalse hr =>
      rw [ih _ hq (by rw [ho, List.append_assoc, List.singleton_append]), List.append_assoc,
        List.singleton_append, List.filter_cons_of_pos (by simpa using hr)]
    case isTrue hr =>
      -- the Cancel is sent, and the peer is still there
      have hsend := alike_sendMessage (onlyInterestFails_of_noSendFails henv) q
        (m := r.cancelMsg) (by rintro ⟨⟩) s
      dsimp only
      rw [hsend.peers, hq]
      dsimp only
      rw [ih kept (by rw [lookup_setPeer, if_pos rfl]) rfl,
        List.filter_cons_of_neg (by simpa using hr)]
      split
      case isTrue => rfl
      case isFalse hne => rw [lookup_setPeer, if_neg hne, hsend.peers]

/-- The walk at one peer: afterwards the peer is not asked for the piece, and the entries of
the others are as they were. -/
theorem lookup_cancelPeer (henv : env.NoSendFails) (i : ℕ) (s : State T) (q : PeerId)
    {q' : PeerId} (h : (cancelPeer env i s q).peers.lookup q' = some state) :
    (q' = q → ¬state.Names i) ∧ (q' ≠ q → s.peers.lookup q' = some state) := by
  rw [cancelPeer] at h
  split at h
  case h_1 hnone =>
    refine ⟨?_, fun _ => h⟩
    rintro rfl
    rw [hnone] at h
    cases h
  case h_2 old hold =>
    have hloop := lookup_cancelLoop henv i [] hold rfl
    dsimp only at h
    rw [hloop q, if_pos rfl] at h
    dsimp only at h
    rw [deactivate] at h
    refine ⟨?_, fun hne => ?_⟩
    · rintro rfl
      -- the loop has taken the piece off the list, and `deactivate` is what comes after
      have hgone : ∀ r ∈ [] ++ old.outstanding.filter fun r => r.piece ≠ i, r.piece ≠ i := by
        simp
      split at h
      case isTrue =>
        rw [lookup_setPeer, if_pos rfl] at h
        cases h
        rintro (⟨r, hr, hi⟩ | hact)
        · exact hgone r hr hi
        · cases hact
      case isFalse hact =>
        rw [hloop q', if_pos rfl] at h
        cases h
        rintro (⟨r, hr, hi⟩ | hact')
        · exact hgone r hr hi
        · exact hact hact'
    · split at h
      case isTrue =>
        rw [lookup_setPeer, if_neg hne, hloop q', if_neg hne] at h
        exact h
      case isFalse =>
        rw [hloop q', if_neg hne] at h
        exact h

/-- **After `cancel_piece_requests` no peer is asked for the piece.** -/
theorem unnamed_cancelPieceRequests (henv : env.NoSendFails) (i : ℕ) (s : State T) :
    Unnamed i (cancelPieceRequests env i s) := by
  -- a peer that the walk has still to meet is in `keys`
  have hwalk : ∀ (keys : List PeerId) (t : State T),
      (∀ p state, t.peers.lookup p = some state → p ∈ keys ∨ ¬state.Names i) →
      Unnamed i (keys.foldl (cancelPeer env i) t) := by
    intro keys
    induction keys with
    | nil => exact fun t ht p state hp => (ht p state hp).resolve_left (List.not_mem_nil)
    | cons q keys ih =>
      intro t ht
      refine ih _ fun p state hp => ?_
      obtain ⟨hself, hother⟩ := lookup_cancelPeer henv i t q hp
      by_cases hpq : p = q
      · exact Or.inr (hself hpq)
      · rcases ht p state (hother hpq) with hmem | hn
        · exact Or.inl ((List.mem_cons.mp hmem).resolve_left hpq)
        · exact Or.inr hn
  refine hwalk _ s fun p state hp => Or.inl ?_
  refine (env.order_perm _ _).symm.subset (AList.mem_keys.mp ?_)
  exact AList.lookup_isSome.mp (by rw [hp]; rfl)

/-! ### Steps and runs -/

/-- A good piece is had when it is settled. -/
theorem hasPiece_settle (hv : s.pieceManager.validatePiece env.sha1 (env.garbage i) i = true)
    (hi : i < T.count) : (settle env p i s).pieceManager.hasPiece i = true := by
  rw [settle, log_hashFault]
  dsimp only
  rw [if_pos hv]
  exact PieceManager.hasPiece_pieceCompleted.mpr (Or.inl ⟨rfl, hi⟩)

/-- **A piece that a step completes is asked of nobody after it.** -/
theorem unnamed_step (henv : env.NoSendFails) (hok : s.pieceManager.Ok)
    (hbefore : s.pieceManager.hasPiece i = false)
    (hafter : (step env s a).pieceManager.hasPiece i = true) : Unnamed i (step env s a) := by
  rw [(moves_step env s a).hasPiece_eq] at hafter
  rcases (head_spec env s a).trace_cases with hs | hs | hs
  · rw [hs.1, hbefore] at hafter
    cases hafter
  · obtain ⟨-, -, -, -, -, -, -, -, -, -, -, hkeep, -⟩ := hs
    rw [hkeep, hbefore] at hafter
    cases hafter
  · obtain ⟨p, idx, c, x, state, pm, tr, outcome, rfl, hact, hp, hb, hv, hbits, -⟩ := hs
    obtain ⟨rfl, hlt⟩ := ((hbits i).mp hafter).resolve_right (by rw [hbefore]; simp)
    -- the block is delivered, and its piece is finished
    have hp' : (s.setConnection p ((s.connections p).received (.pieceMsg idx c x))).peers.lookup p =
        some state := hp
    rw [step, if_pos hact, handlePeerMessage, hp']
    show Unnamed idx.toNat (handlePiece env p idx.toNat c.toNat x state _)
    rw [handlePiece, deliver_eq (s := s.setConnection p _) hb]
    dsimp only
    rw [if_pos rfl]
    generalize hs₁ : ({ (s.setConnection p
      ((s.connections p).received (.pieceMsg idx c x))).setPeer p
        (state.answered idx.toNat c.toNat) with pieceManager := pm } : State T) = s₁
    have hpm : s₁.pieceManager = pm := by rw [← hs₁]
    rw [← hpm] at hv
    obtain ⟨hn, hm⟩ := moves_cancelled env p idx s₁ hv
    have hok₁ : s₁.pieceManager.Ok := hpm ▸ hok.of_blockReceived hb
    have hcancel := moves_cancelPieceRequests env hn
    refine (unnamed_cancelPieceRequests henv idx.toNat _).moves (hcancel.ok (ok_settle hok₁)) ?_
      (hm.trans (moves_topOff env p _))
    rw [hcancel.hasPiece_eq]
    exact hasPiece_settle hv hlt

/-- **A step keeps the entries fit** for the pieces that we have. -/
theorem Fits.step (henv : env.NoSendFails) (h : Fits s.pieceManager.hasPiece s) :
    Fits (step env s a).pieceManager.hasPiece (step env s a) := by
  have hold : Fits s.pieceManager.hasPiece (Coordinator.step env s a) :=
    (h.head env a).moves (moves_step env s a)
  refine ⟨hold.ok, fun _ hi => hi, fun p state hp => ?_⟩
  refine (hold.fit p state hp).of_not_names fun j hj => ?_
  cases hbefore : s.pieceManager.hasPiece j with
  | true => exact Or.inl rfl
  | false => exact Or.inr (unnamed_step henv h.ok hbefore hj p state hp)

theorem fits_init (disk : Disk) :
    Fits (State.init T disk).pieceManager.hasPiece (State.init T disk) where
  ok := PieceManager.ok_init
  had := fun _ hi => hi
  fit := fun _ _ hp => nomatch hp

/-- **What is recorded of every registered peer is fit** in every reachable state, as long as
no send fails: at most five requests, none and no active piece where the peer chokes us, none
and no active piece that we have, and each request for a block of a piece. -/
theorem fit_of_run (henv : env.NoSendFails) (disk : Disk) (l : List Input) {p : PeerId}
    {state : PeerState T} (hp : (run env disk l : State T).peers.lookup p = some state) :
    state.Fit (run env disk l : State T).pieceManager.hasPiece
      ((run env disk l : State T).choking p) := by
  have hrun : Fits (run env disk l : State T).pieceManager.hasPiece (run env disk l) :=
    (Runs.reach_free l).invariant (I := fun s : State T => Fits s.pieceManager.hasPiece s)
      (fits_init disk) fun _ _ hs _ => hs.step henv
  exact hrun.fit p state hp

/-- A request of a small run: the one byte of the one piece, from the peer that has it. -/
theorem fit_of_run_oneByte :
    ({ bitfield := Bitfield.ofBytes [0x80] 1, outstanding := [⟨0, 0, 1⟩] } :
      PeerState Torrent.oneByte).Fit
        (run Env.calm Disk.oneByte (arrival 7) : State Torrent.oneByte).pieceManager.hasPiece
        false :=
  fit_of_run (T := Torrent.oneByte) (fun _ _ _ => rfl) Disk.oneByte (arrival 7) (p := 7) (by decide)

end Coordinator

end TransferEngine
