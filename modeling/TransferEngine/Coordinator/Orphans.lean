import TransferEngine.Coordinator.Moves
import TransferEngine.PieceManager.Engaged

/-!
# No orphaned block

A requested block is a promise: somebody has been asked for it and will be heard of again.
The piece manager keeps the state of the block, the coordinator keeps the list of whom it
asked, and the two are updated separately at every turn. Here they are shown to agree: in
every reachable state a requested block is on the list of a registered peer
(`TransferEngine.Coordinator.requested_listed`).

Sends may fail and close connections, and the reference a handler then holds may dangle;
the invariant holds all the same, for it is kept by every single move.
-/

namespace TransferEngine

namespace Coordinator

open State

variable {T : Torrent} {s s' : State T} {env : Env} {a : Input} {p q : PeerId} {i j c d : ℕ}
  {state state' : PeerState T} {peers : AList fun _ : PeerId => PeerState T}

/-! ### Blocks on a list -/

/-- The block of piece `i` at `c` is on the list of a registered peer. -/
def Listed (peers : AList fun _ : PeerId => PeerState T) (i c : ℕ) : Prop :=
  ∃ p state, peers.lookup p = some state ∧ ∃ r ∈ state.outstanding, r.piece = i ∧ r.begin = c

/-- Changing an entry, but not what it lists of the block. -/
theorem Listed.insert (h : Listed peers i c) (hp : peers.lookup p = some state)
    (hsub : ∀ r ∈ state.outstanding, r.piece = i → r.begin = c → r ∈ state'.outstanding) :
    Listed (peers.insert p state') i c := by
  obtain ⟨q, st, hq, r, hr, hi, hc⟩ := h
  by_cases hqp : q = p
  · subst hqp
    obtain rfl : st = state := Option.some.inj (hq.symm.trans hp)
    exact ⟨q, state', AList.lookup_insert _, r, hsub r hr hi hc, hi, hc⟩
  · exact ⟨q, st, (AList.lookup_insert_ne hqp).trans hq, r, hr, hi, hc⟩

/-- A new entry takes nothing away. -/
theorem Listed.insert_new (h : Listed peers i c) (hp : peers.lookup p = none) :
    Listed (peers.insert p state') i c := by
  obtain ⟨q, st, hq, hr⟩ := h
  have hqp : q ≠ p := by
    rintro rfl
    rw [hp] at hq
    cases hq
  exact ⟨q, st, (AList.lookup_insert_ne hqp).trans hq, hr⟩

/-- Taking away an entry that does not list the block. -/
theorem Listed.erase (h : Listed peers i c) (hp : peers.lookup p = some state)
    (hno : ¬∃ r ∈ state.outstanding, r.piece = i ∧ r.begin = c) : Listed (peers.erase p) i c := by
  obtain ⟨q, st, hq, hr⟩ := h
  have hqp : q ≠ p := by
    rintro rfl
    obtain rfl : st = state := Option.some.inj (hq.symm.trans hp)
    exact hno hr
  exact ⟨q, st, (AList.lookup_erase_ne hqp).trans hq, hr⟩

/-- An answer takes only its own block off a list. -/
theorem mem_answered {r : RequestedBlock} (hr : r ∈ state.outstanding)
    (hne : ¬(r.piece = i ∧ r.begin = c)) : r ∈ (state.answered i c).outstanding := by
  refine (List.mem_eraseP_of_neg ?_).mpr hr
  simpa using hne

/-! ### The invariant -/

/-- **Block states and lists agree.** -/
structure Tracked (s : State T) : Prop where
  /-- The entries of the piece manager are sound. -/
  ok : s.pieceManager.Ok
  /-- A completed piece is not in progress. -/
  idle : ∀ i, s.pieceManager.hasPiece i = true → s.pieceManager.inProgress i = none
  /-- A requested block is on a list. -/
  listed : ∀ i c, s.pieceManager.blockState i c = some .requested → Listed s.peers i c

theorem tracked_init (disk : Disk) : Tracked (.init T disk) where
  ok := PieceManager.ok_init
  idle := fun _ _ => rfl
  listed := fun _ _ h => nomatch h

/-- Nothing that the invariant reads has changed. -/
theorem Tracked.congr (h : Tracked s) (hpm : s'.pieceManager = s.pieceManager)
    (hpeers : s'.peers = s.peers) : Tracked s' where
  ok := hpm ▸ h.ok
  idle := hpm ▸ h.idle
  listed := by
    rw [hpm, hpeers]
    exact h.listed

/-- A peer changes, but not its list. -/
theorem Tracked.relist (h : Tracked s) (hp : s.peers.lookup p = some state)
    (hpm : s'.pieceManager = s.pieceManager) (hpeers : s'.peers = s.peers.insert p state')
    (ho : state'.outstanding = state.outstanding) : Tracked s' where
  ok := hpm ▸ h.ok
  idle := hpm ▸ h.idle
  listed := by
    intro i c hs
    rw [hpm] at hs
    rw [hpeers]
    exact (h.listed i c hs).insert hp fun r hr _ _ => ho ▸ hr

/-- The blocks that returned requests let go are pending, not orphaned. -/
theorem not_listed_of_failRequests {pm : PieceManager T} {reqs : List RequestedBlock}
    (h : pm.Ok) (hs : (failRequests pm reqs).blockState i c = some .requested) :
    pm.blockState i c = some .requested ∧ ¬∃ r ∈ reqs, r.piece = i ∧ r.begin = c := by
  rw [blockState_failRequests h] at hs
  split at hs
  case isTrue => cases hs
  case isFalse hne => exact ⟨hs, fun hr => hne ⟨hr, hs⟩⟩

/-- A completed piece stays out of progress when requests are returned. -/
theorem idle_failRequests {pm : PieceManager T} {reqs : List RequestedBlock}
    (h : ∀ i, pm.hasPiece i = true → pm.inProgress i = none) (i : ℕ)
    (hi : (failRequests pm reqs).hasPiece i = true) :
    (failRequests pm reqs).inProgress i = none := by
  rw [hasPiece_failRequests] at hi
  exact inProgress_failRequests_none (h i hi)

/-- A completed piece stays out of progress when a block is asked for. -/
theorem idle_getNextBlock {pm pm' : PieceManager T} {r : Option Block} (hok : pm.Ok)
    (h : ∀ i, pm.hasPiece i = true → pm.inProgress i = none)
    (hg : pm.getNextBlock j = (r, pm')) (i : ℕ) (hi : pm'.hasPiece i = true) :
    pm'.inProgress i = none := by
  have hkeep := PieceManager.hasPiece_getNextBlock pm (i := j) (j := i)
  rw [hg] at hkeep
  have hi' : pm.hasPiece i = true := hkeep ▸ hi
  have hne : ∀ st, pm.hasPiece j = false → (pm.put j st).inProgress i = none := by
    intro st hj
    have hij : i ≠ j := by
      rintro rfl
      rw [hi'] at hj
      cases hj
    rw [PieceManager.inProgress_put, if_neg hij, h i hi']
  cases r with
  | none =>
    rcases PieceManager.getNextBlock_none hok hg with ⟨-, rfl⟩ | ⟨hj, rfl, -⟩
    · exact h i hi'
    · exact hne _ hj
  | some b =>
    obtain ⟨hj, -, -, -, -, st, rfl, -⟩ := PieceManager.getNextBlock_some hok hg
    exact hne _ hj

theorem Tracked.leave (h : Tracked s) (p : PeerId) : Tracked (unregisterPeer p s) := by
  rcases hp : s.peers.lookup p with _ | state
  · rw [unregisterPeer_of_none hp]
    exact h
  · rw [unregisterPeer_of_some hp]
    refine ⟨ok_failRequests h.ok, idle_failRequests h.idle, fun i c hs => ?_⟩
    obtain ⟨hs, hno⟩ := not_listed_of_failRequests h.ok hs
    exact (h.listed i c hs).erase hp hno

/-- **Every move keeps the invariant.** -/
theorem Tracked.move (h : Tracked s) (hm : Move s s') : Tracked s' := by
  cases hm with
  | note e => exact h.congr rfl rfl
  | connection p x => exact h.congr rfl rfl
  | leave p => exact h.leave p
  | deactivate q state hq => exact h.relist hq rfl rfl rfl
  | cancel q state kept rest r hq ho hn =>
    refine ⟨h.ok, h.idle, fun i c hs => (h.listed i c hs).insert hq ?_⟩
    intro r' hr' hi _
    rw [ho, List.mem_append, List.mem_cons] at hr'
    rcases hr' with hr' | rfl | hr'
    · exact List.mem_append_left _ hr'
    · -- the cancelled request is for a piece that is not in progress
      rw [hi] at hn
      rw [pieceManager_setPeer, PieceManager.blockState_of_none hn] at hs
      cases hs
    · exact List.mem_append_right _ hr'
  | exhaust p state i pm hp hg =>
    have hok := h.ok.getNextBlock (i := i)
    rw [hg] at hok
    refine ⟨hok, idle_getNextBlock h.ok h.idle hg, fun j d hs => ?_⟩
    have hs' := (PieceManager.blockState_getNextBlock_none h.ok hg (by simp)).mp hs
    exact (h.listed j d hs').insert hp fun r hr _ _ => hr
  | request p state i block pm hp _ _ _ hg =>
    have hok := h.ok.getNextBlock (i := i)
    rw [hg] at hok
    refine ⟨hok, idle_getNextBlock h.ok h.idle hg, fun j d hs => ?_⟩
    have hs' := (PieceManager.blockState_getNextBlock_some h.ok hg (by simp)).mp hs
    split at hs'
    case isTrue hjd =>
      -- the block just requested is the last on the list of its peer
      obtain ⟨rfl, rfl⟩ := hjd
      obtain ⟨-, -, hpiece, -⟩ := PieceManager.getNextBlock_some h.ok hg
      refine ⟨p, state.push i block, AList.lookup_insert _, block.request, ?_, ?_, rfl⟩
      · exact List.mem_append_right _ (List.mem_singleton_self _)
      · exact hpiece.trans (Torrent.u32_of_lt_count i.isLt)
    case isFalse =>
      exact (h.listed j d hs').insert hp fun r hr _ _ => List.mem_append_left _ hr

/-! ### Blocks that come in -/

/-- A completed piece stays out of progress when a block comes in. -/
theorem idle_blockReceived {pm pm' : PieceManager T} {r : Bool} {x : List UInt8} (hok : pm.Ok)
    (h : ∀ i, pm.hasPiece i = true → pm.inProgress i = none)
    (hb : pm.blockReceived i c x = (r, pm')) (j : ℕ) (hj : pm'.hasPiece j = true) :
    pm'.inProgress j = none := by
  rw [PieceManager.hasPiece_of_blockReceived hb] at hj
  rcases hhas : pm.hasPiece i with _ | _
  · have hji : j ≠ i := by
      rintro rfl
      rw [hhas] at hj
      cases hj
    rw [PieceManager.blockReceived_eq hok hhas, Prod.mk.injEq] at hb
    rw [← hb.2, PieceManager.inProgress_put, if_neg hji, h j hj]
  · rw [PieceManager.blockReceived_of_hasPiece hhas, Prod.mk.injEq] at hb
    rw [← hb.2, h j hj]

/-- A block comes in and is taken off the list of its peer. -/
theorem Tracked.deliver {pm : PieceManager T} {r : Bool} {x : List UInt8} (h : Tracked s)
    (hp : s.peers.lookup p = some state) (hb : s.pieceManager.blockReceived i c x = (r, pm))
    (hpm : s'.pieceManager = pm) (hpeers : s'.peers = s.peers.insert p (state.answered i c)) :
    Tracked s' := by
  subst hpm
  refine ⟨h.ok.of_blockReceived hb, idle_blockReceived h.ok h.idle hb, fun j d hs => ?_⟩
  have hreq : s.pieceManager.blockState j d = some .requested ∧ ¬(j = i ∧ d = c) := by
    rcases hhas : s.pieceManager.hasPiece i with _ | _
    · exact PieceManager.requested_of_blockReceived h.ok hb hhas hs
    · -- nothing is requested of a completed piece
      rw [PieceManager.blockReceived_of_hasPiece hhas, Prod.mk.injEq] at hb
      rw [← hb.2] at hs
      refine ⟨hs, ?_⟩
      rintro ⟨rfl, -⟩
      rw [PieceManager.blockState_of_none (h.idle j hhas)] at hs
      cases hs
  rw [hpeers]
  refine (h.listed j d hreq.1).insert hp fun r' hr' hj hd => mem_answered hr' ?_
  rw [hj, hd]
  exact hreq.2

/-- A piece ends, completed or not. -/
theorem Tracked.erase (h : Tracked s) (hok : s'.pieceManager.Ok)
    (hin : ∀ j, s'.pieceManager.inProgress j =
      if j = i then none else s.pieceManager.inProgress j)
    (hhas : ∀ j, s'.pieceManager.hasPiece j = true → j = i ∨ s.pieceManager.hasPiece j = true)
    (hpeers : s'.peers = s.peers) : Tracked s' where
  ok := hok
  idle := by
    intro j hj
    rw [hin]
    split
    case isTrue => rfl
    case isFalse hne => exact h.idle j ((hhas j hj).resolve_left hne)
  listed := by
    intro j d hs
    rw [PieceManager.blockState, hin] at hs
    rw [hpeers]
    split at hs
    case isTrue => cases hs
    case isFalse => exact h.listed j d hs

/-- A block comes in, and its piece is discarded. -/
theorem Tracked.fail {pm : PieceManager T} {r : Bool} {x : List UInt8} (h : Tracked s)
    (hp : s.peers.lookup p = some state) (hb : s.pieceManager.blockReceived i c x = (r, pm))
    (hpm : s'.pieceManager = pm.pieceFailed i)
    (hpeers : s'.peers = s.peers.insert p (state.answered i c)) : Tracked s' := by
  have hmid : Tracked { s' with pieceManager := pm } := h.deliver hp hb rfl hpeers
  refine hmid.erase (i := i) (hpm ▸ hmid.ok.pieceFailed) (fun j => ?_) (fun j hj => ?_) rfl
  · rw [hpm, PieceManager.inProgress_pieceFailed]
  · rw [hpm] at hj
    exact Or.inr hj

/-! ### Runs -/

theorem Tracked.head (h : Tracked s) (ha : RegistersOnce s a) (hh : Head env s a s') :
    Tracked s' := by
  cases hh with
  | quiet a s' hpm hpeers => exact h.congr hpm hpeers
  | register p s' hpm hpeers =>
    refine ⟨hpm ▸ h.ok, hpm ▸ h.idle, fun i c hs => ?_⟩
    rw [hpm] at hs
    rw [hpeers]
    exact (h.listed i c hs).insert_new (ha p rfl)
  | unregister p => exact h.leave p
  | choke p state s' hp hpm hpeers =>
    refine ⟨hpm ▸ ok_failRequests h.ok, hpm ▸ idle_failRequests h.idle, fun i c hs => ?_⟩
    rw [hpm] at hs
    obtain ⟨hs, hno⟩ := not_listed_of_failRequests h.ok hs
    rw [hpeers]
    exact (h.listed i c hs).insert hp fun r hr hi hc => absurd ⟨r, hr, hi, hc⟩ hno
  | bitfield p m state b s' hp hpm hpeers => exact h.relist hp hpm hpeers rfl
  | block p idx c x state pm s' hact hp hb hpm hpeers => exact h.deliver hp hb hpm hpeers
  | completed p idx c x state pm tr outcome s' hact hp hb hv htr hret hpm hpeers =>
    have hmid : Tracked { s' with pieceManager := pm } := h.deliver hp hb rfl hpeers
    refine hmid.erase (i := idx.toNat) (hpm ▸ hmid.ok.pieceCompleted) (fun j => ?_) (fun j hj => ?_)
      rfl
    · rw [hpm, PieceManager.inProgress_pieceCompleted]
    · rw [hpm, PieceManager.hasPiece_pieceCompleted] at hj
      exact hj.imp (fun hij => hij.1.symm) id
  | corrupted p idx c x state pm s' hact hp hb hv hban hpm hpeers => exact h.fail hp hb hpm hpeers
  | banned p idx c x state pm s' hact hp hb hv hban hpm hpeers =>
    -- the piece is discarded, and then the peer leaves
    have hmid : Tracked { s' with
        pieceManager := pm.pieceFailed idx.toNat
        peers := s.peers.insert p (state.answered idx.toNat c.toNat) } := h.fail hp hb rfl rfl
    have hleave := hmid.leave p
    rw [unregisterPeer_of_some (AList.lookup_insert _)] at hleave
    exact hleave.congr hpm hpeers

theorem Tracked.step (h : Tracked s) (ha : RegistersOnce s a) : Tracked (step env s a) :=
  Runs.preserved_chain (moves_step env s a) (fun _ _ hs hm => hs.move hm)
    (h.head ha (head_spec env s a))

/-- **No orphaned block.** In every reachable state, a requested block of a piece in
progress is on the list of a registered peer. -/
theorem requested_listed (env : Env) (disk : Disk) {l : List Input}
    (hrun : Runs.Reach (Coordinator.step env) RegistersOnce (.init T disk) l s) {st : PieceState}
    {b : Block} (hst : s.pieceManager.inProgress i = some st) (hb : b ∈ st.blocks)
    (hreq : b.state = .requested) :
    ∃ p state, s.peers.lookup p = some state ∧
      ∃ r ∈ state.outstanding, r.piece = i ∧ r.begin = b.begin := by
  have h : Tracked s := hrun.invariant (tracked_init disk) fun _ _ hs ha => hs.step ha
  refine h.listed i b.begin ?_
  rw [PieceManager.blockState_of_inProgress hst, (h.ok i st hst).stateAt_begin hb, hreq]

/-- The one block of the smallest torrent, asked for. -/
theorem requested_listed_oneByte :
    ∃ p state, (run Env.calm Disk.oneByte (arrival 7) :
        State Torrent.oneByte).peers.lookup p = some state ∧
      ∃ r ∈ state.outstanding, r.piece = 0 ∧ r.begin = 0 := by
  have hst : (run Env.calm Disk.oneByte (arrival 7) :
      State Torrent.oneByte).pieceManager.inProgress 0 =
      some { length := 1, data := [0], blocks := [⟨0, 0, 1, .requested⟩] } := by decide
  exact requested_listed Env.calm Disk.oneByte
    (Runs.reach_iff.mpr ⟨rfl, by decide⟩) hst
    List.mem_cons_self rfl

end Coordinator

end TransferEngine
