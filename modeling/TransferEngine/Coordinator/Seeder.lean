import TransferEngine.Coordinator.Asking
import TransferEngine.Coordinator.Removal
import TransferEngine.Coordinator.Stall
import TransferEngine.Coordinator.Swarm

/-!
# One honest seeder is enough

A peer that is alone with us, has all pieces, answers what it is asked and is honest gets us the
whole torrent. It may choke us and unchoke us again, leave and come back, and answer in any order:
as long as it does not choke us and a piece is missing it has a request to answer
(`TransferEngine.Coordinator.Seeding.exists_request`), each answer brings one more block, and so the
download can always be brought to its end, by as many answers as blocks are missing
(`TransferEngine.Coordinator.seeder_completes`).
-/

namespace TransferEngine

namespace Coordinator

open State

variable {T : Torrent} {s s' : State T} {env : Env} {a : Input} {p q : PeerId} {i : ℕ}
  {state state' : PeerState T} {D : Content T env.sha1}

/-- A Have is only sent for a piece that the peer is known to have: it tells nothing new. -/
def NothingNew (s : State T) (a : Input) : Prop :=
  ∀ p idx state, a = .message p (.haveMsg idx) → s.peers.lookup p = some state →
    idx.toNat < T.count → state.bitfield.has idx.toNat = true

instance (s : State T) (a : Input) : Decidable (NothingNew s a) :=
  match a with
  | .message p (.haveMsg idx) =>
    decidable_of_iff (∀ state ∈ s.peers.lookup p,
        idx.toNat < T.count → state.bitfield.has idx.toNat = true)
      ⟨fun h _ _ state ha => by cases ha; exact h state, fun h state => h p idx state rfl⟩
  | .message _ .keepAliveMsg | .message _ .chokeMsg | .message _ .unchokeMsg
  | .message _ .interestedMsg | .message _ .notInterestedMsg | .message _ (.bitfieldMsg _)
  | .message _ (.requestMsg _ _ _) | .message _ (.pieceMsg _ _ _) | .message _ (.cancelMsg _ _ _)
  | .message _ (.portMsg _) | .establish _ | .register _ | .unregister _ | .interested _
  | .disconnect _ => isTrue (by rintro _ _ _ ⟨⟩)

/-- **What the one peer may do.** -/
structure FromSeeder (D : Content T env.sha1) (p : PeerId) (s : State T) (a : Input) : Prop where
  /-- No other peer is there. -/
  peer : a.peer = p
  /-- The connection is registered once. -/
  once : RegistersOnce s a
  /-- Its blocks are true answers. -/
  answers : Answers D s a
  /-- It announces no piece that it has not told us of. -/
  nothingNew : NothingNew s a

instance (D : Content T env.sha1) (p : PeerId) (s : State T) (a : Input) :
    Decidable (FromSeeder D p s a) :=
  decidable_of_iff (a.peer = p ∧ RegistersOnce s a ∧ Answers D s a ∧ NothingNew s a)
    ⟨fun h => ⟨h.1, h.2.1, h.2.2.1, h.2.2.2⟩, fun h => ⟨h.peer, h.once, h.answers, h.nothingNew⟩⟩

/-- **What holds with an honest peer that is alone with us.** -/
structure Seeding (D : Content T env.sha1) (p : PeerId) (s : State T) : Prop where
  /-- What is received is true, and what is requested is on its list. -/
  swarm : Swarm D s
  /-- It is not left idle. -/
  noStall : NoStall s
  /-- No other peer is registered. -/
  alone : ∀ q state, s.peers.lookup q = some state → q = p

theorem seeding_init (disk : Disk) : Seeding D p (.init T disk) where
  swarm := swarm_init disk
  noStall := fun _ _ _ h => nomatch h
  alone := fun _ _ h => nomatch h

/-- A Have that tells nothing new leaves a peer that is alone as it was. -/
theorem Seeding.tended (h : Seeding D p s) (ha : FromSeeder D p s a) : Tended env s a := by
  have hlook : ∀ q state, q ≠ a.peer → s.peers.lookup q ≠ some state :=
    fun q state hq hst => hq ((h.alone q state hst).trans ha.peer.symm)
  refine ⟨fun q state j hq hst => absurd hst.1 (hlook q state hq),
    fun i q state j _ hq hst => absurd hst (hlook q state hq), ?_⟩
  intro q idx state hm _ hidle hlt _
  by_contra hpend
  exact h.noStall q state idx.toNat hidle.1 hidle.2.1 (ha.nothingNew q idx state hm hidle.1 hlt)
    (by simpa using hpend) hidle.2.2

/-- Only the peer of an input may be registered by it. -/
theorem lookup_of_head (hh : Head env s a s') (hq : s'.peers.lookup q = some state') :
    q = a.peer ∨ ∃ state, s.peers.lookup q = some state := by
  by_cases hqa : q = a.peer
  · exact Or.inl hqa
  refine Or.inr ?_
  have hins : ∀ st, (s.peers.insert a.peer st).lookup q = some state' →
      ∃ state, s.peers.lookup q = some state :=
    fun st h => ⟨state', by rwa [AList.lookup_insert_ne hqa] at h⟩
  cases hh with
  | quiet a s' hpm hpeers => exact ⟨state', hpeers ▸ hq⟩
  | register p s' hpm hpeers => exact hins _ (hpeers ▸ hq)
  | unregister p =>
    rw [lookup_unregisterPeer, if_neg (by exact hqa)] at hq
    exact ⟨state', hq⟩
  | choke p state s' hp hpm hpeers => exact hins _ (hpeers ▸ hq)
  | bitfield p m state b s' hp hpm hpeers => exact hins _ (hpeers ▸ hq)
  | block p idx c x state pm s' hact hp hb hpm hpeers => exact hins _ (hpeers ▸ hq)
  | completed p idx c x state pm tr outcome s' hact hp hb hv htr hret hpm hpeers =>
    exact hins _ (hpeers ▸ hq)
  | corrupted p idx c x state pm s' hact hp hb hv hban hpm hpeers => exact hins _ (hpeers ▸ hq)
  | banned p idx c x state pm s' hact hp hb hv hban hpm hpeers =>
    rw [hpeers, AList.lookup_erase_ne (by exact hqa)] at hq
    exact hins _ hq

theorem Seeding.step (henv : OnlyInterestFails env) (hne : ∀ i < T.count, T.getPieceLength i ≠ 0)
    (h : Seeding D p s) (ha : FromSeeder D p s a) : Seeding D p (step env s a) where
  swarm := h.swarm.step hne ha.once ha.answers
  noStall := h.noStall.step henv h.swarm.tracked.ok (h.tended ha)
  alone := by
    intro q state' hq
    obtain ⟨state, hst, -⟩ := (moves_step env s a).bitfield_eq hq
    rcases lookup_of_head (head_spec env s a) hst with rfl | ⟨state, hst⟩
    · exact ha.peer
    · exact h.alone q state hst

/-! ### Always something to answer -/

/-- The peer is registered, has all pieces and does not choke us. -/
structure Serves (s : State T) (p : PeerId) (state : PeerState T) : Prop where
  /-- It is registered. -/
  registered : s.peers.lookup p = some state
  /-- Its connection is active. -/
  active : (s.connections p).state = .active
  /-- It has all pieces. -/
  full : ∀ i < T.count, state.bitfield.has i = true
  /-- It does not choke us. -/
  unchoked : s.choking p = false

/-- **Where a piece is missing, a request is out**: one of its blocks is pending, and then the
peer is busy, or one is requested, and then it is on the list. -/
theorem Seeding.exists_request (h : Seeding D p s) (hp : Serves s p state)
    (hmiss : ∃ i < T.count, s.pieceManager.hasPiece i = false) : state.outstanding ≠ [] := by
  obtain ⟨i, hi, hhas⟩ := hmiss
  cases hpend : s.pieceManager.hasPendingBlocks i with
  | true => exact h.noStall p state i hp.registered hp.unchoked (hp.full i hi) hpend
  | false =>
    rw [PieceManager.hasPendingBlocks, hhas, if_neg Bool.false_ne_true] at hpend
    split at hpend
    case h_1 => cases hpend
    case h_2 st hst =>
      -- some block is neither pending nor received
      obtain ⟨b, hb, hrec⟩ := h.swarm.underway.exists_missing hst
      have hreq : b.state = .requested := by
        cases hs : b.state with
        | pending =>
          rw [List.any_eq_false] at hpend
          exact absurd (by simp [hs]) (hpend b hb)
        | requested => rfl
        | received => exact absurd hs hrec
      have hok := h.swarm.tracked.ok i st hst
      have hlisted : Listed s.peers i b.begin := by
        refine h.swarm.tracked.listed i b.begin ?_
        rw [PieceManager.blockState_of_inProgress hst, hok.stateAt_begin hb, hreq]
      obtain ⟨q, st', hq, r, hr, -⟩ := hlisted
      obtain rfl := h.alone q st' hq
      obtain rfl := Option.some.inj (hq.symm.trans hp.registered)
      exact List.ne_nil_of_mem hr

/-! ### Answering -/

/-- A request can be answered truthfully. -/
theorem Seeding.exists_answer (h : Seeding D p s) (hp : Serves s p state) {r : RequestedBlock}
    (hr : r ∈ state.outstanding) :
    ∃ idx c x, FromSeeder D p s (.message p (.pieceMsg idx c x)) := by
  have hreq := h.swarm.requested p state hp.registered r hr
  have hlt := PieceManager.lt_count_of_blockState h.swarm.tracked.ok hreq
  obtain ⟨st, hst, hs⟩ := Option.bind_eq_some_iff.mp hreq
  obtain ⟨b', hb', hbeg, -⟩ := PieceState.exists_of_stateAt hs
  obtain ⟨b, hb, hspan⟩ := (h.swarm.tracked.ok r.piece st hst).exists_fresh hb'
  have hbegin : b.begin = r.begin := (congrArg (fun y : ℕ × ℕ × ℕ => y.2.1) hspan).trans hbeg
  -- both indices fit 32 bits
  have hpiece : (UInt32.ofNat r.piece).toNat = r.piece :=
    UInt32.toNat_ofNat_of_lt' (Torrent.lt_of_lt_count hlt)
  have hoff : (UInt32.ofNat r.begin).toNat = r.begin := by
    obtain ⟨-, hpos, -, hin, -⟩ := PieceManager.of_mem_freshBlocks hb
    have hlen := Torrent.getPieceLength_lt (T := T) (i := r.piece)
    exact UInt32.toNat_ofNat_of_lt' (lt_of_le_of_lt (by omega) hlen)
  refine ⟨.ofNat r.piece, .ofNat r.begin, ((D.bytes r.piece).drop r.begin).take b.length, rfl,
    by rintro _ ⟨⟩, ?_, by rintro _ _ _ ⟨⟩⟩
  rintro q idx c x ⟨⟩
  rw [hpiece, hoff]
  exact ⟨hp.active, ⟨b, hb, hbegin, rfl⟩, state, hp.registered, r, hr, rfl⟩

/-- **After an answer the peer serves us still.** -/
theorem Seeding.serves_answer (henv : env.NoSendFails) (h : Seeding D p s)
    (hp : Serves s p state) {idx c : UInt32} {x : List UInt8}
    (ha : FromSeeder D p s (.message p (.pieceMsg idx c x))) :
    ∃ state', Serves (Coordinator.step env s (.message p (.pieceMsg idx c x))) p state' := by
  have hok := h.swarm.tracked.ok
  have hw := h.swarm.due ha.answers
  have hgood : ∀ pm, s.pieceManager.blockReceived idx.toNat c.toNat x = (true, pm) →
      pm.validatePiece env.sha1 (env.garbage idx.toNat) idx.toNat = true :=
    fun pm hb => h.swarm.validatePiece hw hb
  have hself : s.setConnection p ((s.connections p).received (.pieceMsg idx c x)) = s := by
    show s.setConnection p (s.connections p) = s
    rw [State.setConnection, Function.update_eq_self]
  have hstep : Coordinator.step env s (.message p (.pieceMsg idx c x)) =
      handlePeerMessage env p (.pieceMsg idx c x) s := by
    rw [Coordinator.step, if_pos (by exact hp.active), hself]
  -- the peer is still registered, and has all that it had
  have hkeeps : Keeps s (Coordinator.step env s (.message p (.pieceMsg idx c x))) := by
    rw [hstep, handlePeerMessage, hp.registered]
    exact keeps_handlePiece (onlyInterestFails_of_noSendFails henv) hok hp.registered
      fun pm _ hb => hgood pm hb
  obtain ⟨state', hp'⟩ := Option.isSome_iff_exists.mp
    ((hkeeps.registered p).trans (by rw [hp.registered, Option.isSome_some]))
  have hmoves := moves_step env s (.message p (.pieceMsg idx c x))
  rcases hb : s.pieceManager.blockReceived idx.toNat c.toNat x with ⟨r, pm⟩
  obtain ⟨-, hpeers, hconn⟩ := head_good hp.active hp.registered hb fun hr => hgood pm (hr ▸ hb)
  obtain ⟨state₁, h₁, hbits⟩ := hmoves.bitfield_eq hp'
  rw [hpeers, AList.lookup_insert] at h₁
  obtain rfl := Option.some.inj h₁
  refine ⟨state', hp', ?_, fun i hi => ?_, ?_⟩
  · have hsame : SameStates s (handlePeerMessage env p (.pieceMsg idx c x) s) := by
      refine sameStates_handlePeerMessage henv ?_
      rintro _ _ _ _ pm ⟨⟩ - hb
      exact hgood pm hb
    rw [hstep, hsame p, hp.active]
  · rw [hbits]
    exact hp.full i hi
  · rw [hmoves.choking_eq, choking, hconn]
    exact hp.unchoked

/-- **As long as blocks are missing, one more can come in.** -/
theorem Seeding.exists_block (henv : env.NoSendFails)
    (hne : ∀ i < T.count, T.getPieceLength i ≠ 0) (h : Seeding D p s) (hp : Serves s p state)
    (hleft : s.pieceManager.blocksLeft ≠ 0) :
    ∃ a, a.isBlock = true ∧ FromSeeder D p s a ∧
      (Seeding D p (Coordinator.step env s a) ∧
        ∃ state, Serves (Coordinator.step env s a) p state) ∧
      (Coordinator.step env s a).pieceManager.blocksLeft + 1 = s.pieceManager.blocksLeft := by
  have hok := h.swarm.tracked.ok
  have hmiss : ∃ i < T.count, s.pieceManager.hasPiece i = false := by
    rw [Ne, PieceManager.blocksLeft_eq_zero_iff h.swarm.underway hok hne] at hleft
    push Not at hleft
    simpa using hleft
  obtain ⟨r, hr⟩ := List.exists_mem_of_ne_nil _ (h.exists_request hp hmiss)
  obtain ⟨idx, c, x, ha⟩ := h.exists_answer hp hr
  obtain ⟨k, hk, hins⟩ := h.swarm.receivedKeys_block ha.once ha.answers rfl
  exact ⟨_, rfl, ha, ⟨h.step (onlyInterestFails_of_noSendFails henv) hne ha,
    h.serves_answer henv hp ha⟩, PieceManager.blocksLeft_of_insert hk hins⟩

/-- **An honest seeder completes the download.** No send fails, no piece is empty, and only one
peer is there, which is honest. In every state that a run can reach in which it is registered, has
all pieces and does not choke us: as long as a piece is missing it has a request to answer, and by
as many true answers as blocks have not come in the download is brought to its end. -/
theorem seeder_completes (henv : env.NoSendFails) (D : Content T env.sha1) (disk : Disk)
    (hne : ∀ i < T.count, T.getPieceLength i ≠ 0) {l : List Input}
    (hrun : Runs.Reach (Coordinator.step env) (FromSeeder D p) (.init T disk) l s)
    (hp : Serves s p state) :
    ((∃ i < T.count, s.pieceManager.hasPiece i = false) → state.outstanding ≠ []) ∧
      ∃ l' s', Runs.Reach (Coordinator.step env) (FromSeeder D p) (.init T disk) (l ++ l') s' ∧
        (∀ a ∈ l', a.isBlock = true) ∧
        l'.length + l.countP Input.isBlock = (PieceManager.blockKeys T).card ∧
        ∀ i < T.count, s'.pieceManager.hasPiece i = true := by
  have hstep : ∀ s a, Seeding D p s → FromSeeder D p s a → Seeding D p (Coordinator.step env s a) :=
    fun _ _ h ha => h.step (onlyInterestFails_of_noSendFails henv) hne ha
  have hs : Seeding D p s := hrun.invariant (seeding_init disk) hstep
  have hcard : s.pieceManager.receivedKeys.card = l.countP Input.isBlock :=
    hrun.card_eq_countP (f := fun s => s.pieceManager.receivedKeys) (seeding_init disk)
      PieceManager.receivedKeys_init hstep
      (fun _ _ h ha hm => h.swarm.receivedKeys_block ha.once ha.answers hm)
      fun _ _ h _ hm => receivedKeys_step h.swarm.tracked.ok hm
  obtain ⟨l', s', hrun', hall, ⟨hs', -⟩, hz, hlen⟩ := hrun.exists_finish
    (I := fun t => Seeding D p t ∧ ∃ state, Serves t p state)
    (m := fun t => t.pieceManager.blocksLeft)
    (by
      rintro t ⟨ht, _, hserves⟩ hleft
      exact ht.exists_block henv hne hserves hleft) ⟨hs, state, hp⟩
  refine ⟨hs.exists_request hp, l', s', hrun', hall, ?_, ?_⟩
  · rw [hlen, ← hcard, PieceManager.blocksLeft_add_card]
  · exact (PieceManager.blocksLeft_eq_zero_iff hs'.swarm.underway hs'.swarm.tracked.ok hne).mp hz

/-- A peer with both pieces of `TransferEngine.Torrent.twoBytes` sends the second one, chokes us,
and does not choke us any more. -/
def firstAnswer : List Input :=
  [.establish 7, .register 7, .message 7 (.bitfieldMsg [0xc0]), .message 7 .unchokeMsg,
    .message 7 (.pieceMsg 1 0 [0x62]), .message 7 .chokeMsg, .message 7 .unchokeMsg]

/-- The other piece is asked for, and with it the download is complete. -/
theorem seeder_completes_firstAnswer :
    ∃ l' s', Runs.Reach (Coordinator.step Env.calm) (FromSeeder contentTwoBytes 7)
        (.init Torrent.twoBytes fun _ => none) (firstAnswer ++ l') s' ∧ l'.length = 1 ∧
      ∀ i < Torrent.twoBytes.count, s'.pieceManager.hasPiece i = true := by
  have hrun : Runs.Reach (Coordinator.step Env.calm)
      (FromSeeder contentTwoBytes 7) (.init Torrent.twoBytes fun _ => none)
      firstAnswer (run Env.calm (fun _ => none) firstAnswer) :=
    Runs.reach_iff.mpr ⟨rfl, by decide⟩
  have hserves : Serves (run Env.calm (fun _ => none) firstAnswer : State Torrent.twoBytes) 7
      { bitfield := Bitfield.ofBytes [0xc0] 2, outstanding := [⟨0, 0, 1⟩] } :=
    ⟨by decide, by decide, by decide, by decide⟩
  obtain ⟨-, l', s', hrun', -, hlen, hall⟩ := seeder_completes
    (fun _ _ _ => rfl) contentTwoBytes (fun _ => none) (by decide) hrun hserves
  have hcount : l'.length + 1 = 2 := hlen.trans (by decide)
  exact ⟨l', s', hrun', by omega, hall⟩

end Coordinator

end TransferEngine
