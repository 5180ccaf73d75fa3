import Mathlib.Data.List.Nodup
import TransferEngine.Coordinator.Orphans

/-!
# No duplicated request

No block is asked for twice at the same time, as long as no piece is discarded while
somebody is still being asked for a block of it. Discarding a piece makes all its blocks
pending again, but takes nothing off the lists of other peers, as completing one does: a
block can then be pending and on a list, and soon on two
(`TransferEngine.Coordinator.not_noDuplicate_stale`).

What rules this out is `TransferEngine.Coordinator.DiscardsClean`, and under it
`TransferEngine.Coordinator.noDuplicate_of_clean` holds: the blocks on the lists of all
peers are different, and none of them is pending. A block of a discarded piece is pending too:
the piece has no entry, and is cut again when it is next asked for
(`TransferEngine.Coordinator.IsPending`).
-/

namespace TransferEngine

/-- What identifies a requested block. -/
def RequestedBlock.key (r : RequestedBlock) : ℕ × ℕ := (r.piece, r.begin)

namespace Coordinator

open State

variable {T : Torrent} {s s' : State T} {env : Env} {a : Input} {p q : PeerId} {i j c d : ℕ}
  {state state' : PeerState T} {pm pm' : PieceManager T} {r : RequestedBlock}

/-- The blocks on the lists of all registered peers together. -/
def requestKeys (peers : AList fun _ : PeerId => PeerState T) : List (ℕ × ℕ) :=
  peers.entries.flatMap fun e => e.2.outstanding.map RequestedBlock.key

/-- **A block is pending**: the entry of its piece says so, or the piece is neither complete nor in
progress and the entry made for it will say so. -/
def IsPending (pm : PieceManager T) (i c : ℕ) : Prop :=
  pm.blockState i c = some .pending ∨
    pm.hasPiece i = false ∧ (pm.touched i).stateAt c = some .pending

/-- **No block is on two lists, or twice on one, and none on a list is pending.** -/
def NoDuplicate (s : State T) : Prop :=
  (requestKeys s.peers).Nodup ∧ ∀ k ∈ requestKeys s.peers, ¬IsPending s.pieceManager k.1 k.2

/-- **A piece is discarded only when nobody who stays is being asked for a block of it.**
The peer whose block completed the piece stays unless it is blacklisted. -/
def DiscardsClean (env : Env) (s : State T) (a : Input) : Prop :=
  ∀ p idx c x state pm, a = .message p (.pieceMsg idx c x) →
    (s.connections p).state = .active → s.peers.lookup p = some state →
    s.pieceManager.blockReceived idx.toNat c.toNat x = (true, pm) →
    pm.validatePiece env.sha1 (env.garbage idx.toNat) idx.toNat = false →
    (env.blacklists = false → ∀ r ∈ (state.answered idx.toNat c.toNat).outstanding,
      r.piece ≠ idx.toNat) ∧
    ∀ q st, q ≠ p → s.peers.lookup q = some st → ∀ r ∈ st.outstanding, r.piece ≠ idx.toNat

/-! ### The invariant -/

/-- The block of a request will not be handed out: its piece is complete, or it is engaged. -/
def Taken (pm : PieceManager T) (r : RequestedBlock) : Prop :=
  pm.hasPiece r.piece = true ∨ pm.Engaged r.piece r.begin

/-- **The invariant**: the blocks on all lists are taken, and all different. -/
structure Single (s : State T) : Prop where
  /-- The entries of the piece manager are sound. -/
  ok : s.pieceManager.Ok
  /-- A block on a list is taken. -/
  taken : ∀ p state, s.peers.lookup p = some state →
    ∀ r ∈ state.outstanding, Taken s.pieceManager r
  /-- No block is twice on one list. -/
  nodup : ∀ p state, s.peers.lookup p = some state →
    (state.outstanding.map RequestedBlock.key).Nodup
  /-- No block is on two lists. -/
  apart : ∀ p q state state', p ≠ q → s.peers.lookup p = some state →
    s.peers.lookup q = some state' → ∀ r ∈ state.outstanding, ∀ r' ∈ state'.outstanding,
      r.key ≠ r'.key

theorem single_init (disk : Disk) : Single (.init T disk) where
  ok := PieceManager.ok_init
  taken := fun _ _ h => nomatch h
  nodup := fun _ _ h => nomatch h
  apart := fun _ _ _ _ _ h => nomatch h

/-- **Lists that only get shorter** stay apart; it remains to see that what is left on them
is still taken. -/
theorem Single.shrink (h : Single s) (hok : s'.pieceManager.Ok)
    (hsub : ∀ q st', s'.peers.lookup q = some st' → st'.outstanding = [] ∨
      ∃ st, s.peers.lookup q = some st ∧ st'.outstanding.Sublist st.outstanding)
    (htaken : ∀ q st', s'.peers.lookup q = some st' → ∀ r ∈ st'.outstanding,
      Taken s.pieceManager r → Taken s'.pieceManager r) : Single s' where
  ok := hok
  taken := by
    intro q st' hq r hr
    refine htaken q st' hq r hr ?_
    rcases hsub q st' hq with hnil | ⟨st, hst, hle⟩
    · rw [hnil] at hr
      cases hr
    · exact h.taken q st hst r (hle.subset hr)
  nodup := by
    intro q st' hq
    rcases hsub q st' hq with hnil | ⟨st, hst, hle⟩
    · rw [hnil]
      exact List.nodup_nil
    · exact (h.nodup q st hst).sublist (hle.map _)
  apart := by
    intro q₁ q₂ st₁ st₂ hne h₁ h₂ r₁ hr₁ r₂ hr₂
    rcases hsub q₁ st₁ h₁ with hnil | ⟨st₁', hst₁, hle₁⟩
    · rw [hnil] at hr₁
      cases hr₁
    rcases hsub q₂ st₂ h₂ with hnil | ⟨st₂', hst₂, hle₂⟩
    · rw [hnil] at hr₂
      cases hr₂
    exact h.apart q₁ q₂ st₁' st₂' hne hst₁ hst₂ r₁ (hle₁.subset hr₁) r₂ (hle₂.subset hr₂)

/-- The list of one peer gets shorter. -/
theorem Single.shorten (h : Single s) (hok : s'.pieceManager.Ok)
    (hp : s.peers.lookup p = some state) (hpeers : s'.peers = s.peers.insert p state')
    (hle : state'.outstanding.Sublist state.outstanding)
    (htaken : ∀ q st', s'.peers.lookup q = some st' → ∀ r ∈ st'.outstanding,
      Taken s.pieceManager r → Taken s'.pieceManager r) : Single s' := by
  refine h.shrink hok (fun q st' hq => ?_) htaken
  rw [hpeers] at hq
  obtain ⟨rfl, rfl⟩ | ⟨-, hq⟩ := AList.of_lookup_insert hq
  · exact Or.inr ⟨state, hp, hle⟩
  · exact Or.inr ⟨st', hq, List.Sublist.refl _⟩

/-- The list of one peer gets longer, by a block that is taken and was on no list. -/
theorem Single.lengthen (h : Single s) (hok : s'.pieceManager.Ok)
    (hp : s.peers.lookup p = some state) (hpeers : s'.peers = s.peers.insert p state')
    (ho : state'.outstanding = state.outstanding ++ [r])
    (htaken : ∀ r', Taken s.pieceManager r' → Taken s'.pieceManager r')
    (hnew : Taken s'.pieceManager r)
    (hno : ∀ q st, s.peers.lookup q = some st → ∀ r' ∈ st.outstanding, r'.key ≠ r.key) :
    Single s' where
  ok := hok
  taken := by
    intro q st' hq r' hr'
    rw [hpeers] at hq
    obtain ⟨rfl, rfl⟩ | ⟨-, hq⟩ := AList.of_lookup_insert hq
    · rw [ho, List.mem_append, List.mem_singleton] at hr'
      rcases hr' with hr' | rfl
      · exact htaken r' (h.taken q state hp r' hr')
      · exact hnew
    · exact htaken r' (h.taken q st' hq r' hr')
  nodup := by
    intro q st' hq
    rw [hpeers] at hq
    obtain ⟨rfl, rfl⟩ | ⟨-, hq⟩ := AList.of_lookup_insert hq
    · rw [ho, List.map_append, List.map_singleton, List.nodup_append]
      refine ⟨h.nodup q state hp, List.nodup_singleton _, ?_⟩
      rintro k hk k' hk' rfl
      obtain ⟨r', hr', rfl⟩ := List.mem_map.mp hk
      exact hno q state hp r' hr' (List.mem_singleton.mp hk')
    · exact h.nodup q st' hq
  apart := by
    intro q₁ q₂ st₁ st₂ hne h₁ h₂ r₁ hr₁ r₂ hr₂
    rw [hpeers] at h₁ h₂
    -- at most one of the two lists is the longer one
    obtain ⟨rfl, rfl⟩ | ⟨-, hold₁⟩ := AList.of_lookup_insert h₁
    · obtain ⟨rfl, -⟩ | ⟨-, hold₂⟩ := AList.of_lookup_insert h₂
      · exact absurd rfl hne
      · rw [ho, List.mem_append, List.mem_singleton] at hr₁
        rcases hr₁ with hr₁ | rfl
        · exact h.apart q₁ q₂ state st₂ hne hp hold₂ r₁ hr₁ r₂ hr₂
        · exact (hno q₂ st₂ hold₂ r₂ hr₂).symm
    · obtain ⟨rfl, rfl⟩ | ⟨-, hold₂⟩ := AList.of_lookup_insert h₂
      · rw [ho, List.mem_append, List.mem_singleton] at hr₂
        rcases hr₂ with hr₂ | rfl
        · exact h.apart q₁ q₂ st₁ state hne hold₁ hp r₁ hr₁ r₂ hr₂
        · exact hno q₁ st₁ hold₁ r₁ hr₁
      · exact h.apart q₁ q₂ st₁ st₂ hne hold₁ hold₂ r₁ hr₁ r₂ hr₂

/-- Returned requests let go of nothing but their own blocks. -/
theorem Taken.failRequests {reqs : List RequestedBlock} (h : pm.Ok) (ht : Taken pm r)
    (hno : ∀ r' ∈ reqs, r'.key ≠ r.key) : Taken (failRequests pm reqs) r := by
  have hno' : ¬∃ r' ∈ reqs, r'.piece = r.piece ∧ r'.begin = r.begin := by
    rintro ⟨r', hr', hp, hb⟩
    exact hno r' hr' (Prod.ext hp hb)
  rw [Taken, hasPiece_failRequests, PieceManager.Engaged, blockState_failRequests h,
    if_neg fun hc => hno' hc.1]
  exact ht

theorem Single.leave (h : Single s) (p : PeerId) : Single (unregisterPeer p s) := by
  rcases hp : s.peers.lookup p with _ | state
  · rw [unregisterPeer_of_none hp]
    exact h
  · have hlook : ∀ q st', (unregisterPeer p s).peers.lookup q = some st' →
        q ≠ p ∧ s.peers.lookup q = some st' := by
      intro q st' hq
      rw [lookup_unregisterPeer] at hq
      split at hq
      case isTrue => cases hq
      case isFalse hne => exact ⟨hne, hq⟩
    refine h.shrink ((Move.leave p).ok h.ok) (fun q st' hq => ?_) (fun q st' hq r hr ht => ?_)
    · exact Or.inr ⟨st', (hlook q st' hq).2, List.Sublist.refl _⟩
    · obtain ⟨hne, hq'⟩ := hlook q st' hq
      rw [unregisterPeer_of_some hp]
      exact ht.failRequests h.ok fun r' hr' => h.apart p q state st' hne.symm hp hq' r' hr' r hr

theorem Single.congr (h : Single s) (hpm : s'.pieceManager = s.pieceManager)
    (hpeers : s'.peers = s.peers) : Single s' := by
  refine h.shrink (hpm ▸ h.ok) (fun q st' hq => ?_) (fun q st' hq r hr ht => hpm ▸ ht)
  exact Or.inr ⟨st', hpeers ▸ hq, List.Sublist.refl _⟩

/-! ### Asking for a block -/

/-- A block handed out is on no list. -/
theorem Single.not_listed (h : Single s) {b : Block} {i : Fin T.count}
    (hg : s.pieceManager.getNextBlock i = (some b, pm)) (hq : s.peers.lookup q = some state)
    (hr : r ∈ state.outstanding) : r.key ≠ b.request.key := by
  intro hk
  obtain ⟨hhas, -, hpiece, -⟩ := PieceManager.getNextBlock_some h.ok hg
  have hi : r.piece = i :=
    (congrArg Prod.fst hk).trans (hpiece.trans (Torrent.u32_of_lt_count i.isLt))
  have hb : r.begin = b.begin := congrArg Prod.snd hk
  have ht := h.taken q state hq r hr
  rw [Taken, hi, hb, hhas] at ht
  rcases ht with ht | ht
  · cases ht
  · exact PieceManager.not_engaged_of_getNextBlock h.ok hg ht

theorem Single.request (h : Single s) {b : Block} {i : Fin T.count}
    (hp : s.peers.lookup p = some state)
    (hg : s.pieceManager.getNextBlock i = (some b, pm)) (hpm : s'.pieceManager = pm)
    (hpeers : s'.peers = s.peers.insert p (state.push i b)) : Single s' := by
  subst hpm
  have hok := h.ok.getNextBlock (i := i)
  have hkeep := fun j => PieceManager.hasPiece_getNextBlock s.pieceManager (i := i) (j := j)
  rw [hg] at hok hkeep
  obtain ⟨-, -, hpiece, -⟩ := PieceManager.getNextBlock_some h.ok hg
  refine h.lengthen hok hp hpeers rfl (fun r ht => ?_) ?_ fun q st hq r hr =>
    h.not_listed hg hq hr
  · rw [Taken, hkeep, PieceManager.engaged_getNextBlock_some h.ok hg]
    exact ht.imp_right Or.inr
  · rw [Taken, PieceManager.engaged_getNextBlock_some h.ok hg]
    exact Or.inr (Or.inl ⟨hpiece.trans (Torrent.u32_of_lt_count i.isLt), rfl⟩)

/-- **Every move keeps the invariant.** -/
theorem Single.move (h : Single s) (hm : Move s s') : Single s' := by
  cases hm with
  | note e => exact h.congr rfl rfl
  | connection p x => exact h.congr rfl rfl
  | leave p => exact h.leave p
  | deactivate q state hq =>
    exact h.shorten h.ok hq rfl (List.Sublist.refl _) fun _ _ _ _ _ ht => ht
  | cancel q state kept rest r hq ho hn =>
    refine h.shorten h.ok hq rfl ?_ fun _ _ _ _ _ ht => ht
    rw [ho]
    exact (List.sublist_cons_self r rest).append_left kept
  | exhaust p state i pm hp hg =>
    have hok := h.ok.getNextBlock (i := i)
    have hkeep := fun j => PieceManager.hasPiece_getNextBlock s.pieceManager (i := i) (j := j)
    rw [hg] at hok hkeep
    refine h.shorten hok hp rfl (List.Sublist.refl _) fun q st' hq r hr ht => ?_
    rw [Taken, pieceManager_setPeer, hkeep, PieceManager.engaged_getNextBlock_none h.ok hg]
    exact ht
  | request p state i block pm hp _ _ _ hg => exact h.request hp hg rfl rfl

/-! ### Blocks that come in -/

/-- A block that comes in lets go of nothing. -/
theorem Taken.of_blockReceived {x : List UInt8} {res : Bool} (h : pm.Ok)
    (hb : pm.blockReceived i c x = (res, pm')) (ht : Taken pm r) : Taken pm' r := by
  rw [Taken, PieceManager.hasPiece_of_blockReceived hb]
  exact ht.imp_right fun he => he.of_blockReceived h hb

/-- Completing a piece lets go of nothing: its blocks are blocks of a complete piece. -/
theorem Taken.pieceCompleted (h : pm.Ok) (ht : Taken pm r) : Taken (pm.pieceCompleted i) r := by
  by_cases hi : r.piece = i
  · refine Or.inl (PieceManager.hasPiece_pieceCompleted.mpr ?_)
    rcases ht with ht | ht
    · exact Or.inr ht
    · exact Or.inl ⟨hi.symm, hi ▸ ht.lt_count h⟩
  · rw [Taken, PieceManager.hasPiece_pieceCompleted, PieceManager.engaged_pieceCompleted hi]
    exact ht.imp_left Or.inr

/-- Discarding a piece lets go of its own blocks only. -/
theorem Taken.pieceFailed (ht : Taken pm r) (hi : r.piece ≠ i) : Taken (pm.pieceFailed i) r := by
  rw [Taken, PieceManager.hasPiece_pieceFailed, PieceManager.engaged_pieceFailed hi]
  exact ht

theorem answered_sublist : (state.answered i c).outstanding.Sublist state.outstanding :=
  List.eraseP_sublist

theorem Single.head (h : Single s) (ha : RegistersOnce s a ∧ DiscardsClean env s a)
    (hh : Head env s a s') : Single s' := by
  cases hh with
  | quiet a s' hpm hpeers => exact h.congr hpm hpeers
  | register p s' hpm hpeers =>
    refine h.shrink (hpm ▸ h.ok) (fun q st' hq => ?_) (fun q st' hq r hr ht => hpm ▸ ht)
    rw [hpeers] at hq
    obtain ⟨-, rfl⟩ | ⟨-, hq⟩ := AList.of_lookup_insert hq
    · exact Or.inl rfl
    · exact Or.inr ⟨st', hq, List.Sublist.refl _⟩
  | unregister p => exact h.leave p
  | choke p state s' hp hpm hpeers =>
    refine h.shorten (hpm ▸ ok_failRequests h.ok) hp hpeers (List.nil_sublist _) ?_
    intro q st' hq r hr ht
    rw [hpeers] at hq
    obtain ⟨-, rfl⟩ | ⟨hqp, hq⟩ := AList.of_lookup_insert hq
    · cases hr
    · rw [hpm]
      exact ht.failRequests h.ok fun r' hr' => h.apart p q state st' (Ne.symm hqp) hp hq r' hr' r hr
  | bitfield p m state b s' hp hpm hpeers =>
    exact h.shorten (hpm ▸ h.ok) hp hpeers (List.Sublist.refl _) fun _ _ _ _ _ ht => hpm ▸ ht
  | block p idx c x state pm s' hact hp hb hpm hpeers =>
    refine h.shorten (hpm ▸ h.ok.of_blockReceived hb) hp hpeers answered_sublist ?_
    intro q st' hq r hr ht
    rw [hpm]
    exact ht.of_blockReceived h.ok hb
  | completed p idx c x state pm tr outcome s' hact hp hb hv htr hret hpm hpeers =>
    have hok := h.ok.of_blockReceived hb
    refine h.shorten (hpm ▸ hok.pieceCompleted) hp hpeers answered_sublist ?_
    intro q st' hq r hr ht
    rw [hpm]
    exact (ht.of_blockReceived h.ok hb).pieceCompleted hok
  | corrupted p idx c x state pm s' hact hp hb hv hban hpm hpeers =>
    have hok := h.ok.of_blockReceived hb
    -- all blocks of the piece are pending again, and by assumption nobody lists one
    obtain ⟨hown, hother⟩ := ha.2 p idx c x state pm rfl hact hp hb hv
    refine h.shorten (hpm ▸ hok.pieceFailed) hp hpeers answered_sublist ?_
    intro q st' hq r hr ht
    rw [hpm]
    refine (ht.of_blockReceived h.ok hb).pieceFailed ?_
    rw [hpeers] at hq
    obtain ⟨rfl, rfl⟩ | ⟨hqp, hq⟩ := AList.of_lookup_insert hq
    · exact hown hban r hr
    · exact hother q st' hqp hq r hr
  | banned p idx c x state pm s' hact hp hb hv hban hpm hpeers =>
    have hok := h.ok.of_blockReceived hb
    obtain ⟨-, hother⟩ := ha.2 p idx c x state pm rfl hact hp hb hv
    have hlook : ∀ q st', s'.peers.lookup q = some st' → q ≠ p ∧ s.peers.lookup q = some st' := by
      intro q st' hq
      rw [hpeers] at hq
      obtain ⟨hqp, hq⟩ := AList.of_lookup_erase hq
      rw [AList.lookup_insert_ne hqp] at hq
      exact ⟨hqp, hq⟩
    refine h.shrink (hpm ▸ ok_failRequests hok.pieceFailed) (fun q st' hq => ?_)
      (fun q st' hq r hr ht => ?_)
    · exact Or.inr ⟨st', (hlook q st' hq).2, List.Sublist.refl _⟩
    · obtain ⟨hne, hq'⟩ := hlook q st' hq
      rw [hpm]
      refine Taken.failRequests hok.pieceFailed
        ((ht.of_blockReceived h.ok hb).pieceFailed (hother q st' hne hq' r hr)) ?_
      intro r' hr'
      exact h.apart p q state st' hne.symm hp hq' r' (answered_sublist.subset hr') r hr

theorem Single.step (h : Single s) (ha : RegistersOnce s a ∧ DiscardsClean env s a) :
    Single (step env s a) :=
  Runs.preserved_chain (moves_step env s a) (fun _ _ hs hm => hs.move hm)
    (h.head ha (head_spec env s a))

/-! ### All lists together -/

theorem mem_requestKeys {peers : AList fun _ : PeerId => PeerState T} {k : ℕ × ℕ} :
    k ∈ requestKeys peers ↔
      ∃ p state, peers.lookup p = some state ∧ ∃ r ∈ state.outstanding, r.key = k := by
  rw [requestKeys, List.mem_flatMap]
  constructor
  · rintro ⟨⟨p, state⟩, he, hk⟩
    obtain ⟨r, hr, rfl⟩ := List.mem_map.mp hk
    exact ⟨p, state, AList.mem_lookup_iff.mpr he, r, hr, rfl⟩
  · rintro ⟨p, state, hp, r, hr, rfl⟩
    exact ⟨⟨p, state⟩, AList.mem_lookup_iff.mp hp, List.mem_map_of_mem hr⟩

/-- A block that is taken is not pending. -/
theorem Taken.not_isPending (h : Taken s.pieceManager r) (ht : Tracked s) :
    ¬IsPending s.pieceManager r.piece r.begin := by
  rintro (hpend | ⟨hhas, hpend⟩)
  · rcases h with hhas | hs | hs
    · exact nomatch (PieceManager.blockState_of_none (ht.idle _ hhas)).symm.trans hpend
    · exact nomatch hs.symm.trans hpend
    · exact nomatch hs.symm.trans hpend
  · rcases h with hhas' | hs | hs
    · exact nomatch hhas.symm.trans hhas'
    · exact nomatch (PieceManager.stateAt_touched_of_blockState hs).symm.trans hpend
    · exact nomatch (PieceManager.stateAt_touched_of_blockState hs).symm.trans hpend

theorem Single.noDuplicate (h : Single s) (ht : Tracked s) : NoDuplicate s := by
  constructor
  · rw [requestKeys, List.nodup_flatMap]
    constructor
    · rintro ⟨p, state⟩ he
      exact h.nodup p state (AList.mem_lookup_iff.mpr he)
    · refine s.peers.nodupKeys.pairwise_ne.imp_of_mem ?_
      rintro ⟨p, state⟩ ⟨q, state'⟩ hp hq hne k hk hk'
      obtain ⟨r, hr, rfl⟩ := List.mem_map.mp hk
      obtain ⟨r', hr', heq⟩ := List.mem_map.mp hk'
      exact h.apart p q state state' hne (AList.mem_lookup_iff.mpr hp)
        (AList.mem_lookup_iff.mpr hq) r hr r' hr' heq.symm
  · intro k hk
    obtain ⟨p, state, hp, r, hr, rfl⟩ := mem_requestKeys.mp hk
    exact (h.taken p state hp r hr).not_isPending ht

/-- **No duplicated request.** In every run in which each connection is registered once and
no piece is discarded while a peer that stays is asked for a block of it, the blocks on the
lists of all peers are different and none of them is pending. -/
theorem noDuplicate_of_clean (env : Env) (disk : Disk) {l : List Input}
    (hrun : Runs.Reach (Coordinator.step env) (fun s a => RegistersOnce s a ∧ DiscardsClean env s a)
      (.init T disk) l s) : NoDuplicate s := by
  have hsingle : Single s := hrun.invariant (single_init disk) fun _ _ hs ha => hs.step ha
  have htracked : Tracked s := hrun.invariant (tracked_init disk) fun _ _ hs ha => hs.step ha.1
  exact hsingle.noDuplicate htracked

/-- Peers 8 and 9 have one piece each and are asked for it. -/
def onePieceEach : List Input :=
  arrival 8 ++ [.establish 9, .register 9, .message 9 (.bitfieldMsg [0x40]), .message 9 .unchokeMsg]

/-- The block of peer 8 is bad: the first piece is discarded and asked for again, while the second
stays asked for. -/
theorem noDuplicate_of_clean_discard :
    let s : State Torrent.twoBytes :=
      run Env.calm (fun _ => none) (onePieceEach ++ [.message 8 (.pieceMsg 0 0 [0x62])])
    NoDuplicate s ∧ .peerCorrupted 8 ∈ s.trace ∧ requestKeys s.peers = [(0, 0), (1, 0)] := by
  refine ⟨noDuplicate_of_clean Env.calm _ (Runs.reach_iff.mpr
    ⟨rfl, Runs.throughout_snoc.mpr ⟨?_, by decide, ?_⟩⟩), by decide, by decide⟩
  · intro l₁ a l₂ hl
    refine ⟨(by decide : Runs.Throughout (Coordinator.step Env.calm)
      (.init Torrent.twoBytes fun _ => none) onePieceEach RegistersOnce) l₁ a l₂ hl, ?_⟩
    -- nobody has sent a block yet
    rintro p idx c x state pm rfl
    have hmem : Input.message p (.pieceMsg idx c x) ∈ onePieceEach := by
      rw [hl]
      exact List.mem_append_right _ List.mem_cons_self
    simp [onePieceEach, arrival] at hmem
  · -- peer 8 lists nothing else, and peer 9 a block of the other piece
    rintro _ _ _ _ state pm ⟨⟩ - hp - -
    refine ⟨fun _ => ?_, fun q st hq hst => ?_⟩
    · obtain rfl := Option.some.inj hp
      decide
    · refine (?_ : ∀ e ∈ (_ : AList fun _ : PeerId => PeerState Torrent.twoBytes).entries,
        e.1 ≠ 8 → ∀ r ∈ e.2.outstanding, r.piece ≠ 0) ⟨q, st⟩ (AList.mem_lookup_iff.mp hst) hq
      decide

/-- **A bad block for a piece that somebody else is asked for.** Peer 8 is asked for the one
block; peer 9, not asked, sends it with the wrong content. The piece is discarded, the block
is asked of peer 9, and is still on the list of peer 8. -/
theorem not_noDuplicate_stale :
    Runs.Throughout (step Env.calm) (.init Torrent.oneByte Disk.oneByte)
        (arrival 8 ++ arrival 9 ++ [.message 9 (.pieceMsg 0 0 [0x62])]) RegistersOnce ∧
      ¬NoDuplicate (run Env.calm Disk.oneByte
        (arrival 8 ++ arrival 9 ++ [.message 9 (.pieceMsg 0 0 [0x62])]) :
        State Torrent.oneByte) := by
  refine ⟨by decide, fun h => ?_⟩
  exact absurd h.1 (by decide)

end Coordinator

end TransferEngine
