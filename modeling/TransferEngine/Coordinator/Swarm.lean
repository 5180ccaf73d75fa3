import TransferEngine.Coordinator.Blame
import TransferEngine.Coordinator.Duplicates
import TransferEngine.PieceManager.Progress

/-!
# A swarm of honest peers

Nothing is wasted on peers that send only what they are asked for, and only true bytes
(`TransferEngine.Coordinator.Answers`). Each of their blocks is one that was missing, and no piece
is ever discarded, in whatever order the peers come and go, choke us and answer, and whichever
sends fail without leaving an erased entry in use. So the download is complete after exactly as
many blocks as the torrent has, and not before (`TransferEngine.Coordinator.swarm_economy`).

What makes it so is that a block on a list of requests is one that is waited for
(`TransferEngine.Coordinator.Swarm.requested`). This fails as soon as blocks come that nobody asked
for.
-/

namespace TransferEngine

namespace Coordinator

open State

variable {T : Torrent} {s s' : State T} {env : Env} {a : Input} {p q : PeerId} {i c : ℕ}
  {state state' : PeerState T} {sha1 : List UInt8 → Digest} {D : Content T sha1}
  {pm : PieceManager T}

/-- The input is a Piece message. -/
def Input.isBlock : Input → Bool
  | .message _ (.pieceMsg _ _ _) => true
  | _ => false

/-- **A block that comes in answers a request**, and truthfully: it is on the list of its peer, and
carries the bytes of the content. -/
def Answers (D : Content T sha1) (s : State T) (a : Input) : Prop :=
  ∀ p idx c x, a = .message p (.pieceMsg idx c x) → (s.connections p).state = .active ∧
    TrueBlock T idx.toNat (D.bytes idx.toNat) c.toNat x ∧
    ∃ state, s.peers.lookup p = some state ∧
      ∃ r ∈ state.outstanding, r.key = (idx.toNat, c.toNat)

instance (D : Content T sha1) (s : State T) (a : Input) : Decidable (Answers D s a) :=
  match a with
  | .message p (.pieceMsg idx c x) =>
    decidable_of_iff ((s.connections p).state = .active ∧
        TrueBlock T idx.toNat (D.bytes idx.toNat) c.toNat x ∧
        ∃ state ∈ s.peers.lookup p, ∃ r ∈ state.outstanding, r.key = (idx.toNat, c.toNat))
      ⟨fun h _ _ _ _ ha => by cases ha; exact h, fun h => h p idx c x rfl⟩
  | .message _ .keepAliveMsg | .message _ .chokeMsg | .message _ .unchokeMsg
  | .message _ .interestedMsg | .message _ .notInterestedMsg | .message _ (.haveMsg _)
  | .message _ (.bitfieldMsg _) | .message _ (.requestMsg _ _ _) | .message _ (.cancelMsg _ _ _)
  | .message _ (.portMsg _) | .establish _ | .register _ | .unregister _ | .interested _
  | .disconnect _ => isTrue (by rintro _ _ _ _ ⟨⟩)

/-- **What holds in a swarm of honest peers.** -/
structure Swarm (D : Content T sha1) (s : State T) : Prop where
  /-- A requested block is on a list. -/
  tracked : Tracked s
  /-- The blocks on all lists are different. -/
  single : Single s
  /-- The pieces in progress are made of true blocks. -/
  underway : s.pieceManager.Underway D.bytes
  /-- A block on a list is requested. -/
  requested : ∀ p state, s.peers.lookup p = some state → ∀ r ∈ state.outstanding,
    s.pieceManager.blockState r.piece r.begin = some .requested

theorem swarm_init (disk : Disk) : Swarm D (.init T disk) where
  tracked := tracked_init disk
  single := single_init disk
  underway := PieceManager.underway_init
  requested := fun _ _ h => nomatch h

/-! ### Moves -/

/-- Returning requests. -/
theorem underway_failRequests {pm : PieceManager T} {reqs : List RequestedBlock} (hok : pm.Ok)
    (h : pm.Underway D.bytes) : (failRequests pm reqs).Underway D.bytes := by
  induction reqs generalizing pm with
  | nil => exact h
  | cons r reqs ih =>
    rw [failRequests_cons]
    exact ih hok.blockRequestFailed (h.blockRequestFailed hok)

/-- A block that is waited for stays so when other requests are returned. -/
theorem requested_failRequests {pm : PieceManager T} {reqs : List RequestedBlock}
    {r : RequestedBlock} (hok : pm.Ok) (h : pm.blockState r.piece r.begin = some .requested)
    (hno : ∀ r' ∈ reqs, r'.key ≠ r.key) :
    (failRequests pm reqs).blockState r.piece r.begin = some .requested := by
  rw [blockState_failRequests hok, if_neg, h]
  rintro ⟨⟨r', hr', hp, hb⟩, -⟩
  exact hno r' hr' (Prod.ext hp hb)

theorem Swarm.leave (h : Swarm D s) (p : PeerId) : Swarm D (unregisterPeer p s) := by
  rcases hp : s.peers.lookup p with _ | state
  · rwa [unregisterPeer_of_none hp]
  · refine ⟨h.tracked.leave p, h.single.leave p, ?_, fun q st hq r hr => ?_⟩
    · rw [unregisterPeer_of_some hp]
      exact underway_failRequests h.tracked.ok h.underway
    · rw [lookup_unregisterPeer] at hq
      split at hq
      case isTrue => cases hq
      case isFalse hne =>
        rw [unregisterPeer_of_some hp]
        exact requested_failRequests h.tracked.ok (h.requested q st hq r hr) fun r' hr' =>
          h.single.apart p q state st (Ne.symm hne) hp hq r' hr' r hr

/-- The lists get shorter, and the pieces stay as they are. -/
theorem requested_shrink (h : Swarm D s) (hp : s.peers.lookup p = some state)
    (state' : PeerState T) (hsub : ∀ r ∈ state'.outstanding, r ∈ state.outstanding) (q : PeerId)
    (st : PeerState T)
    (hq : (s.peers.insert p state').lookup q = some st) (r : RequestedBlock)
    (hr : r ∈ st.outstanding) : s.pieceManager.blockState r.piece r.begin = some .requested := by
  obtain ⟨rfl, rfl⟩ | ⟨-, hq⟩ := AList.of_lookup_insert hq
  · exact h.requested q state hp r (hsub r hr)
  · exact h.requested q st hq r hr

/-- **Every move keeps the invariant.** -/
theorem Swarm.move (hne : ∀ i < T.count, T.getPieceLength i ≠ 0) (h : Swarm D s)
    (hm : Move s s') : Swarm D s' := by
  have ht := h.tracked.move hm
  have hs := h.single.move hm
  cases hm with
  | note e => exact ⟨ht, hs, h.underway, h.requested⟩
  | connection p x => exact ⟨ht, hs, h.underway, h.requested⟩
  | leave p => exact h.leave p
  | deactivate q state hq =>
    exact ⟨ht, hs, h.underway, requested_shrink h hq _ fun _ hr => hr⟩
  | cancel q state kept rest r hq ho hn =>
    refine ⟨ht, hs, h.underway, requested_shrink h hq _ fun r' hr' => ?_⟩
    rw [ho]
    rcases List.mem_append.mp hr' with hr' | hr'
    · exact List.mem_append_left _ hr'
    · exact List.mem_append_right _ (List.mem_cons_of_mem _ hr')
  | exhaust p state i pm hp hg =>
    refine ⟨ht, hs, h.underway.getNextBlock h.tracked.ok (hne i i.isLt) hg, fun q st hq r hr => ?_⟩
    rw [pieceManager_setPeer, PieceManager.blockState_getNextBlock_none h.tracked.ok hg (by simp)]
    exact requested_shrink h hp { state with activePiece := none } (fun _ hr => hr) q st hq r hr
  | request p state i block pm hp hlt hch hact hg =>
    refine ⟨ht, hs, h.underway.getNextBlock h.tracked.ok (hne i i.isLt) hg, fun q st hq r hr => ?_⟩
    obtain ⟨-, -, hpiece, -⟩ := PieceManager.getNextBlock_some h.tracked.ok hg
    rw [pieceManager_setPeer, PieceManager.blockState_getNextBlock_some h.tracked.ok hg (by simp)]
    split
    case isTrue => rfl
    case isFalse hnew =>
      obtain ⟨rfl, rfl⟩ | ⟨-, hq⟩ := AList.of_lookup_insert hq
      · rcases List.mem_append.mp hr with hr | hr
        · exact h.requested q state hp r hr
        · -- the block just handed out
          rw [List.mem_singleton.mp hr] at hnew
          exact absurd ⟨hpiece.trans (Torrent.u32_of_lt_count i.isLt), rfl⟩ hnew
      · exact h.requested q st hq r hr

theorem Swarm.moves (hne : ∀ i < T.count, T.getPieceLength i ≠ 0) (h : Swarm D s)
    (hm : Moves s s') : Swarm D s' :=
  Runs.preserved_chain hm (fun _ _ hs hm => hs.move hne hm) h

/-- Returning requests adds no block. -/
theorem received_failRequests {reqs : List RequestedBlock} (hok : pm.Ok) (k : ℕ × ℕ) :
    (failRequests pm reqs).Received k ↔ pm.Received k := by
  rw [PieceManager.Received, PieceManager.Received, hasPiece_failRequests,
    blockState_failRequests hok]
  split
  case isTrue hc => simp [hc.2]
  case isFalse => rfl

/-- Moves add no block. -/
theorem Move.received (hm : Move s s') (hok : s.pieceManager.Ok) (k : ℕ × ℕ) :
    s'.pieceManager.Received k ↔ s.pieceManager.Received k := by
  cases hm with
  | note e => rfl
  | connection p x => rfl
  | leave p =>
    rw [unregisterPeer]
    split
    case h_1 => rfl
    case h_2 => exact received_failRequests hok k
  | deactivate q state hq => rfl
  | cancel q state kept rest r hq ho hn => rfl
  | exhaust p state i pm hp hg => exact PieceManager.received_getNextBlock hok hg k
  | request p state i block pm hp hlt hch hact hg =>
    exact PieceManager.received_getNextBlock hok hg k

theorem Moves.receivedKeys_eq (hm : Moves s s') (hok : s.pieceManager.Ok) :
    s'.pieceManager.receivedKeys = s.pieceManager.receivedKeys := by
  refine PieceManager.receivedKeys_congr fun k => ?_
  exact (Runs.preserved_chain (I := fun t : State T => t.pieceManager.Ok ∧
      (t.pieceManager.Received k ↔ s.pieceManager.Received k)) hm
    (fun _ _ ht hm => ⟨hm.ok ht.1, (hm.received ht.1 k).trans ht.2⟩) ⟨hok, Iff.rfl⟩).2

/-! ### The head of a step -/

/-- An answer leaves none of its own block on the list of its peer. -/
theorem key_ne_of_mem_answered (hd : (state.outstanding.map RequestedBlock.key).Nodup)
    (hk : ∃ r ∈ state.outstanding, r.key = (i, c)) {r : RequestedBlock}
    (hr : r ∈ (state.answered i c).outstanding) : r.key ≠ (i, c) := by
  refine List.ne_of_mem_eraseP hd (fun r' => ?_) hk hr
  rw [RequestedBlock.key, Bool.and_eq_true, beq_iff_eq, beq_iff_eq, Prod.mk.injEq]

/-- **The requests that are left after an answer** are for other blocks. -/
theorem Swarm.key_ne (h : Swarm D s) (hp : s.peers.lookup p = some state)
    (hk : ∃ r ∈ state.outstanding, r.key = (i, c)) {st : PeerState T}
    (hq : (s.peers.insert p (state.answered i c)).lookup q = some st) {r : RequestedBlock}
    (hr : r ∈ st.outstanding) : r.key ≠ (i, c) ∧
      s.pieceManager.blockState r.piece r.begin = some .requested := by
  obtain ⟨rfl, rfl⟩ | ⟨hqp, hq⟩ := AList.of_lookup_insert hq
  · exact ⟨key_ne_of_mem_answered (h.single.nodup q state hp) hk hr,
      h.requested q state hp r (answered_sublist.subset hr)⟩
  · obtain ⟨r', hr', hkey⟩ := hk
    exact ⟨hkey ▸ (h.single.apart p q state st (Ne.symm hqp) hp hq r' hr' r hr).symm,
      h.requested q st hq r hr⟩

/-- What is known of a block that answers a request. -/
structure Due (D : Content T sha1) (s : State T) (i c : ℕ) (x : List UInt8) : Prop where
  /-- The piece is one of the torrent. -/
  lt : i < T.count
  /-- The block carries the bytes of the content. -/
  bytes : TrueBlock T i (D.bytes i) c x
  /-- The piece is not complete. -/
  missing : s.pieceManager.hasPiece i = false
  /-- The block is not there. -/
  fresh : ¬s.pieceManager.Received (i, c)

theorem Swarm.due {idx c : UInt32} {x : List UInt8} (h : Swarm D s)
    (ha : Answers D s (.message p (.pieceMsg idx c x))) :
    Due D s idx.toNat c.toNat x := by
  obtain ⟨-, hx, state, hp, r, hr, hkey⟩ := ha p idx c x rfl
  have hreq := h.requested p state hp r hr
  rw [RequestedBlock.key, Prod.mk.injEq] at hkey
  rw [hkey.1, hkey.2] at hreq
  have hmissing : s.pieceManager.hasPiece idx.toNat = false := by
    by_contra hc
    rw [PieceManager.blockState_of_none (h.tracked.idle _ (by simpa using hc))] at hreq
    cases hreq
  refine ⟨PieceManager.lt_count_of_blockState h.tracked.ok hreq, hx, hmissing, ?_⟩
  rw [PieceManager.Received, hmissing, hreq]
  simp

/-- **A piece of true blocks passes its check.** -/
theorem Swarm.validatePiece {x : List UInt8} {pm : PieceManager T} {g : Digest} (h : Swarm D s)
    (hw : Due D s i c x) (hb : s.pieceManager.blockReceived i c x = (true, pm)) :
    pm.validatePiece sha1 g i = true :=
  PieceManager.validatePiece_of_holds h.tracked.ok (fun st hst => (h.underway i st hst).holds)
    (D.length_eq i hw.lt) (D.digest_eq i hw.lt) hw.bytes hb

section Honest

variable {D : Content T env.sha1}

/-- No piece is discarded. -/
theorem Swarm.discardsClean (h : Swarm D s) (ha : Answers D s a) : DiscardsClean env s a := by
  rintro p idx c x state pm rfl - - hb hv
  rw [h.validatePiece (h.due ha) hb] at hv
  cases hv

/-- A block comes in, and its piece is not finished. -/
theorem Swarm.block {x : List UInt8} (h : Swarm D s) (hw : Due D s i c x)
    (hp : s.peers.lookup p = some state) (hk : ∃ r ∈ state.outstanding, r.key = (i, c))
    (hb : s.pieceManager.blockReceived i c x = (false, pm)) (ht : Tracked s') (hs : Single s')
    (hpm : s'.pieceManager = pm) (hpeers : s'.peers = s.peers.insert p (state.answered i c)) :
    Swarm D s' := by
  subst hpm
  refine ⟨ht, hs, h.underway.blockReceived h.tracked.ok (D.length_eq i hw.lt) hw.bytes hb, ?_⟩
  intro q st hq r hr
  rw [hpeers] at hq
  obtain ⟨hne, hreq⟩ := h.key_ne hp hk hq hr
  rw [PieceManager.blockState_blockReceived h.tracked.ok hb hw.missing (by simp), if_neg]
  · exact hreq
  · exact fun hc => hne (Prod.ext hc.1 hc.2.1)

/-- A block comes in, and its piece is complete. -/
theorem Swarm.completed {x : List UInt8} (h : Swarm D s) (hw : Due D s i c x)
    (hp : s.peers.lookup p = some state) (hk : ∃ r ∈ state.outstanding, r.key = (i, c))
    (hb : s.pieceManager.blockReceived i c x = (true, pm)) (ht : Tracked s') (hs : Single s')
    (hpm : s'.pieceManager = pm.pieceCompleted i)
    (hpeers : s'.peers = s.peers.insert p (state.answered i c)) : Swarm D s' := by
  obtain ⟨-, hall⟩ := PieceManager.blockReceived_true h.tracked.ok (congrArg Prod.fst hb)
  obtain ⟨-, rfl⟩ := PieceManager.of_blockReceived_true h.tracked.ok hb
  refine ⟨ht, hs, ?_, fun q st hq r hr => ?_⟩
  · rw [hpm]
    refine h.underway.of_erased (i := i) fun j => ?_
    rw [PieceManager.inProgress_pieceCompleted, PieceManager.inProgress_put]
    split <;> rfl
  · rw [hpeers] at hq
    obtain ⟨hne, hreq⟩ := h.key_ne hp hk hq hr
    have hri : r.piece ≠ i := by
      -- the blocks of the piece are all received, so none of the others is waited for
      rintro rfl
      have hnow : (s.pieceManager.put r.piece
          ((s.pieceManager.touched r.piece).storeBlock c x)).blockState r.piece r.begin =
          some .requested := by
        rw [PieceManager.blockState_blockReceived h.tracked.ok hb hw.missing (by simp), if_neg]
        · exact hreq
        · exact fun hc => hne (Prod.ext rfl hc.2.1)
      rw [PieceManager.blockState_put, if_pos rfl] at hnow
      exact PieceManager.not_fullyReceived_of_stateAt (by simp) hnow hall
    rw [hpm, PieceManager.blockState_pieceCompleted, if_neg hri, PieceManager.blockState_put,
      if_neg hri]
    exact hreq

theorem Swarm.head (h : Swarm D s) (hr : RegistersOnce s a) (ha : Answers D s a)
    (hh : Head env s a s') : Swarm D s' := by
  have ht := h.tracked.head hr hh
  have hs := h.single.head ⟨hr, h.discardsClean ha⟩ hh
  cases hh with
  | quiet a s' hpm hpeers => exact ⟨ht, hs, hpm ▸ h.underway, hpm ▸ hpeers ▸ h.requested⟩
  | register p s' hpm hpeers =>
    refine ⟨ht, hs, hpm ▸ h.underway, fun q st hq r hr => ?_⟩
    rw [hpeers] at hq
    rw [hpm]
    obtain ⟨rfl, rfl⟩ | ⟨-, hq⟩ := AList.of_lookup_insert hq
    · cases hr
    · exact h.requested q st hq r hr
  | unregister p => exact h.leave p
  | choke p state s' hp hpm hpeers =>
    refine ⟨ht, hs, ?_, fun q st hq r hr => ?_⟩
    · rw [hpm]
      exact underway_failRequests h.tracked.ok h.underway
    · rw [hpeers] at hq
      rw [hpm]
      obtain ⟨rfl, rfl⟩ | ⟨hqp, hq⟩ := AList.of_lookup_insert hq
      · cases hr
      · exact requested_failRequests h.tracked.ok (h.requested q st hq r hr) fun r' hr' =>
          h.single.apart p q state st (Ne.symm hqp) hp hq r' hr' r hr
  | bitfield p m state b s' hp hpm hpeers =>
    refine ⟨ht, hs, hpm ▸ h.underway, fun q st hq r hr => ?_⟩
    rw [hpeers] at hq
    rw [hpm]
    exact requested_shrink h hp { state with bitfield := b } (fun _ hr => hr) q st hq r hr
  | block p idx c x state pm s' hact hp hb hpm hpeers =>
    obtain ⟨-, -, state', hp', hk⟩ := ha p idx c x rfl
    obtain rfl := Option.some.inj (hp'.symm.trans hp)
    exact h.block (h.due ha) hp hk hb ht hs hpm hpeers
  | completed p idx c x state pm tr outcome s' hact hp hb hv htr hret hpm hpeers =>
    obtain ⟨-, -, state', hp', hk⟩ := ha p idx c x rfl
    obtain rfl := Option.some.inj (hp'.symm.trans hp)
    exact h.completed (h.due ha) hp hk hb ht hs hpm hpeers
  | corrupted p idx c x state pm s' hact hp hb hv =>
    rw [h.validatePiece (h.due ha) hb] at hv
    cases hv
  | banned p idx c x state pm s' hact hp hb hv =>
    rw [h.validatePiece (h.due ha) hb] at hv
    cases hv

theorem Swarm.step (hne : ∀ i < T.count, T.getPieceLength i ≠ 0) (h : Swarm D s)
    (hr : RegistersOnce s a) (ha : Answers D s a) : Swarm D (step env s a) :=
  (h.head hr ha (head_spec env s a)).moves hne (moves_step env s a)

/-! ### What has come in -/

/-- What the head of a step makes of a block of a piece that, if it is finished, is good. -/
theorem head_good {idx c : UInt32} {x : List UInt8} {r : Bool}
    (hact : (s.connections p).state = .active) (hp : s.peers.lookup p = some state)
    (hb : s.pieceManager.blockReceived idx.toNat c.toNat x = (r, pm))
    (hv : r = true → pm.validatePiece env.sha1 (env.garbage idx.toNat) idx.toNat = true) :
    (Coordinator.head env s (.message p (.pieceMsg idx c x))).pieceManager =
        (if r then pm.pieceCompleted idx.toNat else pm) ∧
      (Coordinator.head env s (.message p (.pieceMsg idx c x))).peers =
        s.peers.insert p (state.answered idx.toNat c.toNat) ∧
      (Coordinator.head env s (.message p (.pieceMsg idx c x))).connections = s.connections := by
  have hself : s.setConnection p ((s.connections p).received (.pieceMsg idx c x)) = s := by
    show s.setConnection p (s.connections p) = s
    rw [State.setConnection, Function.update_eq_self]
  rw [Coordinator.head]
  simp only [hact, if_true, hp]
  rw [hself, headMessage, deliver_eq hb]
  cases r with
  | false => exact ⟨rfl, rfl, rfl⟩
  | true =>
    simp only [if_true]
    rw [settle, log_hashFault]
    dsimp only
    rw [if_pos (hv rfl)]
    exact ⟨rfl, rfl, rfl⟩

/-- **A block that is due is added to what is there.** -/
theorem Swarm.receivedKeys_block (h : Swarm D s) (hr : RegistersOnce s a) (ha : Answers D s a)
    (hm : a.isBlock = true) :
    ∃ k ∉ s.pieceManager.receivedKeys, (Coordinator.step env s a).pieceManager.receivedKeys =
      insert k s.pieceManager.receivedKeys := by
  cases a with
  | message p m =>
    cases m with
    | pieceMsg idx c x =>
      have hw := h.due ha
      obtain ⟨hact, hx, state, hp, -⟩ := ha p idx c x rfl
      have hok := (h.head hr ha (head_spec env s _)).tracked.ok
      have hblock : ∃ b ∈ PieceManager.freshBlocks T idx.toNat, b.begin = c.toNat := by
        obtain ⟨b, hb, hbc, -⟩ := hx
        exact ⟨b, hb, hbc⟩
      refine ⟨(idx.toNat, c.toNat), fun hc => hw.fresh (PieceManager.mem_receivedKeys.mp hc).2, ?_⟩
      rw [(moves_step env s _).receivedKeys_eq hok]
      rcases hb : s.pieceManager.blockReceived idx.toNat c.toNat x with ⟨r, pm⟩
      rw [(head_good hact hp hb fun hr => h.validatePiece hw (hr ▸ hb)).1,
        ← PieceManager.receivedKeys_blockReceived h.tracked.ok hw.missing hw.lt hblock hb]
      cases r with
      | false => rfl
      | true => exact PieceManager.receivedKeys_pieceCompleted h.tracked.ok hb
    | _ => cases hm
  | _ => cases hm

/-- **Nothing else is added.** -/
theorem receivedKeys_step (hok : s.pieceManager.Ok) (hm : a.isBlock = false) :
    (Coordinator.step env s a).pieceManager.receivedKeys = s.pieceManager.receivedKeys := by
  have hh := head_spec env s a
  rw [(moves_step env s a).receivedKeys_eq (hh.ok hok)]
  generalize Coordinator.head env s a = s' at hh
  cases hh with
  | quiet a s' hpm => rw [hpm]
  | register p s' hpm => rw [hpm]
  | unregister p =>
    rw [unregisterPeer]
    split
    case h_1 => rfl
    case h_2 => exact PieceManager.receivedKeys_congr (received_failRequests hok)
  | choke p state s' hp hpm =>
    exact hpm ▸ PieceManager.receivedKeys_congr (received_failRequests hok)
  | bitfield p m state b s' hp hpm => rw [hpm]
  | block => cases hm
  | completed => cases hm
  | corrupted => cases hm
  | banned => cases hm

/-- No piece is found bad. -/
theorem Swarm.unblamed (h : Swarm D s) (ha : Answers D s a) (p : PeerId)
    (hp : .peerCorrupted p ∈ (Coordinator.step env s a).trace) : .peerCorrupted p ∈ s.trace := by
  rcases blamed_of_step hp with hp | ⟨idx, c, x, state, pm, rfl, -, -, hb, hv⟩
  · exact hp
  · rw [h.validatePiece (h.due ha) hb] at hv
    cases hv

/-- **The economy of an honest swarm.** No piece of the torrent is empty, every connection is
registered once, and every block that comes in answers a request of its peer with true bytes. Then
whatever else the peers do, and whichever sends fail as long as no erased entry is used: every block
that comes in was missing, so that the blocks that are there are as many as have come in; all pieces
are complete exactly when as many have come in as the torrent has; and nobody is blamed. -/
theorem swarm_economy (env : Env) (D : Content T env.sha1) (disk : Disk)
    (hne : ∀ i < T.count, T.getPieceLength i ≠ 0) {l : List Input}
    (hrun : Runs.Reach (Coordinator.step env)
      (fun s a => RegistersOnce s a ∧ Answers D s a ∧ Defined env s a) (.init T disk) l s) :
    s.pieceManager.receivedKeys.card = l.countP Input.isBlock ∧
      l.countP Input.isBlock ≤ (PieceManager.blockKeys T).card ∧
      ((∀ i < T.count, s.pieceManager.hasPiece i = true) ↔
        l.countP Input.isBlock = (PieceManager.blockKeys T).card) ∧
      ∀ p, .peerCorrupted p ∉ s.trace := by
  have hstep : ∀ s a, Swarm D s → RegistersOnce s a ∧ Answers D s a ∧ Defined env s a →
      Swarm D (Coordinator.step env s a) := fun _ _ h ha => h.step hne ha.1 ha.2.1
  have hs : Swarm D s := hrun.invariant (swarm_init disk) hstep
  have hcard : s.pieceManager.receivedKeys.card = l.countP Input.isBlock :=
    hrun.card_eq_countP (f := fun s => s.pieceManager.receivedKeys) (swarm_init (D := D) disk)
      PieceManager.receivedKeys_init hstep (fun _ _ h ha hm => h.receivedKeys_block ha.1 ha.2.1 hm)
      fun _ _ h _ hm => receivedKeys_step h.tracked.ok hm
  have hadd := PieceManager.blocksLeft_add_card s.pieceManager
  refine ⟨hcard, by omega, ?_, ?_⟩
  · rw [← PieceManager.blocksLeft_eq_zero_iff hs.underway hs.tracked.ok hne]
    omega
  · exact (hrun.invariant (I := fun s => Swarm D s ∧ ∀ p, .peerCorrupted p ∉ s.trace)
      ⟨swarm_init disk, fun _ => List.not_mem_nil⟩ fun s a h ha =>
        ⟨hstep s a h.1 ha, fun p hp => h.2 p (h.1.unblamed ha.2.1 p hp)⟩).2

end Honest

/-- The content of `TransferEngine.Torrent.twoBytes`. -/
def contentTwoBytes : Content Torrent.twoBytes Env.calm.sha1 where
  bytes := fun i => if i = 0 then [0x61] else [0x62]
  length_eq := by decide
  digest_eq := by decide

/-- Two peers send one piece each: one block is not enough, and two are. -/
theorem swarm_economy_onePieceEach :
    let first : Input := .message 9 (.pieceMsg 1 0 [0x62])
    let s : State Torrent.twoBytes := run Env.calm (fun _ => none) (onePieceEach ++ [first])
    let s' : State Torrent.twoBytes := run Env.calm (fun _ => none)
      (onePieceEach ++ [first, .message 8 (.pieceMsg 0 0 [0x61])])
    (¬∀ i < 2, s.pieceManager.hasPiece i = true) ∧ ∀ i < 2, s'.pieceManager.hasPiece i = true := by
  intro first s s'
  have hs := swarm_economy Env.calm contentTwoBytes (fun _ => none) (by decide)
    (Runs.reach_iff.mpr ⟨(rfl : s = _), by decide⟩)
  have hs' := swarm_economy Env.calm contentTwoBytes (fun _ => none) (by decide)
    (Runs.reach_iff.mpr ⟨(rfl : s' = _), by decide⟩)
  exact ⟨fun h => absurd (hs.2.2.1.mp h) (by decide), hs'.2.2.1.mpr (by decide)⟩

end Coordinator

end TransferEngine
