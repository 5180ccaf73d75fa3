import TransferEngine.Coordinator.Moves

/-!
# Pieces out of range

The index of a piece comes off the wire unchecked. `has_piece` answers that an index past
the end is not had, `get_piece_length` that its length is zero, and cutting zero bytes gives
no blocks; and none of zero blocks is missing, so that a block for a piece of length zero
completes it at once. Its digest is then looked up past the end of the table.

`TransferEngine.Coordinator.throughout_pieceMsgSafe_iff` says that this is the only way
for it to go wrong: a run stays in range at every step exactly when every block that is
delivered is for a piece that we have or that has bytes.
-/

namespace TransferEngine

namespace Coordinator

open State

variable {T : Torrent} {s s' : State T} {env : Env} {a : Input} {p : PeerId} {i : ℕ}
  {state : PeerState T} {pm : PieceManager T} {idx c : UInt32} {x : List UInt8}

/-- **A step stays in range**: only pieces of the torrent are in progress after it, a block
that is reported to complete its piece completes a piece of the torrent with at least one
block and all of them received, and no digest has been looked up out of bounds. -/
def PieceMsgSafe (env : Env) (s : State T) (a : Input) : Prop :=
  (∀ i st, (step env s a).pieceManager.inProgress i = some st → i < T.count) ∧
  (∀ p idx c x state pm, a = .message p (.pieceMsg idx c x) →
    (s.connections p).state = .active → s.peers.lookup p = some state →
    s.pieceManager.blockReceived idx.toNat c.toNat x = (true, pm) →
    idx.toNat < T.count ∧ ∃ st, pm.inProgress idx.toNat = some st ∧ st.blocks ≠ [] ∧
      ∀ b ∈ st.blocks, b.state = .received) ∧
  ∀ i, .hashOutOfBounds i ∉ (step env s a).trace

/-- **A block that is delivered** is for a piece that we have or that has bytes. -/
def NamesPiece (s : State T) (a : Input) : Prop :=
  ∀ p idx c x state, a = .message p (.pieceMsg idx c x) → (s.connections p).state = .active →
    s.peers.lookup p = some state →
    s.pieceManager.hasPiece idx.toNat = true ∨ T.getPieceLength idx.toNat ≠ 0

/-! ### The invariant -/

/-- Nothing has been out of range yet. -/
structure InRange (s : State T) : Prop where
  /-- The entries of the piece manager are sound. -/
  ok : s.pieceManager.Ok
  /-- Only pieces of the torrent are in progress. -/
  lt_count : ∀ i, (s.pieceManager.inProgress i).isSome → i < T.count
  /-- No digest has been looked up out of bounds. -/
  noFault : ∀ i, .hashOutOfBounds i ∉ s.trace

theorem inRange_init (disk : Disk) : InRange (.init T disk) where
  ok := PieceManager.ok_init
  lt_count := fun _ h => nomatch h
  noFault := fun _ h => nomatch h

/-- An entry of the torrent may be written. -/
theorem InRange.lt_count_put (h : InRange s) (i : Fin T.count) {st : PieceState} {j : ℕ}
    (hj : ((s.pieceManager.put i st).inProgress j).isSome) : j < T.count := by
  by_cases hji : j = i
  · rw [hji]
    exact i.isLt
  · rw [PieceManager.inProgress_put, if_neg hji] at hj
    exact h.lt_count j hj

theorem InRange.move (h : InRange s) (hm : Move s s') : InRange s' where
  ok := hm.ok h.ok
  lt_count := by
    intro j hj
    cases hm with
    | note => exact h.lt_count j hj
    | connection => exact h.lt_count j hj
    | cancel => exact h.lt_count j hj
    | deactivate => exact h.lt_count j hj
    | leave p =>
      refine h.lt_count j ?_
      rw [unregisterPeer] at hj
      split at hj
      case h_1 => exact hj
      case h_2 => rwa [isSome_failRequests h.ok] at hj
    | request p state i block pm _ _ _ _ hg =>
      -- the picker only picks pieces of the torrent
      obtain ⟨-, -, -, -, -, st, rfl, -⟩ := PieceManager.getNextBlock_some h.ok hg
      exact h.lt_count_put i hj
    | exhaust p state i pm _ hg =>
      rcases PieceManager.getNextBlock_none h.ok hg with ⟨-, rfl⟩ | ⟨-, rfl, -⟩
      · exact h.lt_count j hj
      · exact h.lt_count_put i hj
  noFault := by
    intro i hi
    rcases hm.trace_cases with htr | ⟨e, he, htr⟩
    · exact h.noFault i (htr ▸ hi)
    · rw [htr, List.mem_cons] at hi
      rcases hi with rfl | hi
      · exact he
      · exact h.noFault i hi

/-- A block of a piece that we have or that has bytes. -/
theorem InRange.blockReceived {r : Bool} (h : InRange s)
    (hn : s.pieceManager.hasPiece i = true ∨ T.getPieceLength i ≠ 0) {c : ℕ}
    (hb : s.pieceManager.blockReceived i c x = (r, pm)) (j : ℕ)
    (hj : (pm.inProgress j).isSome) : j < T.count := by
  rcases hhas : s.pieceManager.hasPiece i with _ | _
  · rw [PieceManager.blockReceived_eq h.ok hhas, Prod.mk.injEq] at hb
    rw [← hb.2, PieceManager.inProgress_put] at hj
    split at hj
    case isTrue hji =>
      rw [hhas] at hn
      rw [hji]
      exact Torrent.lt_count_of_getPieceLength (hn.resolve_left (by simp))
    case isFalse => exact h.lt_count j hj
  · rw [PieceManager.blockReceived_of_hasPiece hhas, Prod.mk.injEq] at hb
    exact h.lt_count j (hb.2 ▸ hj)

/-- A piece that is reported complete, and that we have or that has bytes, is a piece of the
torrent. -/
theorem InRange.lt_count_of_true {c : ℕ} (h : InRange s)
    (hn : s.pieceManager.hasPiece i = true ∨ T.getPieceLength i ≠ 0)
    (hb : s.pieceManager.blockReceived i c x = (true, pm)) :
    T.getPieceLength i ≠ 0 ∧ i < T.count := by
  have hhas := (PieceManager.of_blockReceived_true h.ok hb).1
  rw [hhas] at hn
  have hlen := hn.resolve_left (by simp)
  exact ⟨hlen, Torrent.lt_count_of_getPieceLength hlen⟩

theorem hashFault_of_lt (h : i < T.count) : hashFault T i = [] := by
  rw [hashFault, if_pos (Torrent.lt_hashes h)]

/-- **A piece that is complete** is looked up in range, and its entry goes. -/
theorem InRange.settled {c : ℕ} (h : InRange s)
    (hn : s.pieceManager.hasPiece i = true ∨ T.getPieceLength i ≠ 0)
    (hb : s.pieceManager.blockReceived i c x = (true, pm)) (hok : s'.pieceManager.Ok)
    (hin : ∀ j, (s'.pieceManager.inProgress j).isSome →
      (if j = i then none else pm.inProgress j).isSome)
    (htr : ∀ k, .hashOutOfBounds k ∈ s'.trace → .hashOutOfBounds k ∈ hashFault T i ++ s.trace) :
    InRange s' where
  ok := hok
  lt_count := by
    intro j hj
    have hold := hin j hj
    split at hold
    case isTrue => cases hold
    case isFalse => exact h.blockReceived hn hb j hold
  noFault := by
    intro k hk
    have hold := htr k hk
    rw [hashFault_of_lt (h.lt_count_of_true hn hb).2, List.nil_append] at hold
    exact h.noFault k hold

theorem InRange.head (h : InRange s) (ha : NamesPiece s a) (hh : Head env s a s') :
    InRange s' := by
  cases hh with
  | quiet a s' hpm hpeers htr => exact ⟨hpm ▸ h.ok, hpm ▸ h.lt_count, htr ▸ h.noFault⟩
  | register p s' hpm hpeers htr => exact ⟨hpm ▸ h.ok, hpm ▸ h.lt_count, htr ▸ h.noFault⟩
  | unregister p => exact h.move (.leave p)
  | choke p state s' hp hpm hpeers htr =>
    refine ⟨hpm ▸ ok_failRequests h.ok, fun j hj => h.lt_count j ?_, htr ▸ h.noFault⟩
    rwa [hpm, isSome_failRequests h.ok] at hj
  | bitfield p m state b s' hp hpm hpeers htr =>
    exact ⟨hpm ▸ h.ok, hpm ▸ h.lt_count, htr ▸ h.noFault⟩
  | block p idx c x state pm s' hact hp hb hpm hpeers htr =>
    have hn := ha p idx c x state rfl hact hp
    exact ⟨hpm ▸ h.ok.of_blockReceived hb, hpm ▸ h.blockReceived hn hb, htr ▸ h.noFault⟩
  | completed p idx c x state pm tr outcome s' hact hp hb hv htr hret hpm hpeers htr' =>
    refine h.settled (ha p idx c x state rfl hact hp) hb
      (hpm ▸ (h.ok.of_blockReceived hb).pieceCompleted) (fun j hj => ?_) fun i hi => ?_
    · rwa [hpm, PieceManager.inProgress_pieceCompleted] at hj
    · simpa only [htr', htr, List.mem_cons, reduceCtorEq, false_or] using hi
  | corrupted p idx c x state pm s' hact hp hb hv hban hpm hpeers htr =>
    refine h.settled (ha p idx c x state rfl hact hp) hb
      (hpm ▸ (h.ok.of_blockReceived hb).pieceFailed) (fun j hj => ?_) fun i hi => ?_
    · rwa [hpm, PieceManager.inProgress_pieceFailed] at hj
    · simpa only [htr, List.mem_cons, reduceCtorEq, false_or] using hi
  | banned p idx c x state pm s' hact hp hb hv hban hpm hpeers htr =>
    have hok := (h.ok.of_blockReceived hb).pieceFailed (i := idx.toNat)
    refine h.settled (ha p idx c x state rfl hact hp) hb (hpm ▸ ok_failRequests hok)
      (fun j hj => ?_) fun i hi => ?_
    · rwa [hpm, isSome_failRequests hok, PieceManager.inProgress_pieceFailed] at hj
    · simpa only [htr, List.mem_cons, reduceCtorEq, false_or] using hi

theorem InRange.step (h : InRange s) (ha : NamesPiece s a) : InRange (step env s a) :=
  Runs.preserved_chain (moves_step env s a) (fun _ _ hs hm => hs.move hm)
    (h.head ha (head_spec env s a))

/-! ### Both directions, at one step -/

theorem InRange.pieceMsgSafe (h : InRange s) (ha : NamesPiece s a) : PieceMsgSafe env s a := by
  have hstep : InRange (Coordinator.step env s a) := h.step ha
  refine ⟨fun i st hi => hstep.lt_count i (by rw [hi]; rfl), ?_, hstep.noFault⟩
  intro p idx c x state pm he hact hp hb
  obtain ⟨hlen, hlt⟩ := h.lt_count_of_true (ha p idx c x state he hact hp) hb
  have hall := (PieceManager.blockReceived_true h.ok (congrArg Prod.fst hb)).2
  obtain ⟨-, rfl⟩ := PieceManager.of_blockReceived_true h.ok hb
  have hst := (h.ok.touched idx.toNat).storeBlock (c := c.toNat) (x := x)
  refine ⟨hlt, _, by rw [PieceManager.inProgress_put, if_pos rfl], ?_, hall⟩
  rw [Ne, hst.blocks_eq_nil_iff]
  exact hlen

/-- A block for a piece without bytes is reported to complete it. -/
theorem blockReceived_of_length_zero {c : ℕ} (h : pm.Ok) (hhas : pm.hasPiece i = false)
    (hlen : T.getPieceLength i = 0) : (pm.blockReceived i c x).1 = true := by
  rw [PieceManager.blockReceived_eq h hhas]
  have hst := (h.touched i).storeBlock (c := c) (x := x)
  have hnil := hst.blocks_eq_nil_iff.mpr hlen
  have hzero := hst.received_le
  rw [hnil] at hzero ⊢
  simpa using hzero

theorem namesPiece_of_pieceMsgSafe (h : s.pieceManager.Ok) (ha : PieceMsgSafe env s a) :
    NamesPiece s a := by
  intro p idx c x state he hact hp
  by_contra hcon
  rw [not_or, not_not, Bool.not_eq_true] at hcon
  obtain ⟨hhas, hlen⟩ := hcon
  have htrue := blockReceived_of_length_zero (c := c.toNat) (x := x) h hhas hlen
  obtain ⟨-, st, hst, hne, -⟩ := ha.2.1 p idx c x state _ he hact hp (Prod.ext htrue rfl)
  -- the piece has no bytes, so it has no blocks
  exact hne (((h.blockReceived) idx.toNat st hst).blocks_eq_nil_iff.mpr hlen)

/-! ### Runs -/

/-- **A run stays in range exactly as long as every delivered block names a piece** that we
have or that has bytes. -/
theorem throughout_pieceMsgSafe_iff (env : Env) (disk : Disk) (l : List Input) :
    Runs.Throughout (step env) (.init T disk) l (PieceMsgSafe env) ↔
      Runs.Throughout (step env) (.init T disk) l NamesPiece := by
  have hinv : ∀ l : List Input, Runs.Throughout (step env) (.init T disk) l NamesPiece →
      InRange (l.foldl (step env) (.init T disk)) := fun l hl =>
    (Runs.reach_iff.mpr ⟨rfl, hl⟩).invariant (inRange_init disk) fun _ _ hs ha => hs.step ha
  induction l using List.reverseRecOn with
  | nil => exact iff_of_true (Runs.throughout_nil _) (Runs.throughout_nil _)
  | append_singleton l a ih =>
    rw [Runs.throughout_snoc, Runs.throughout_snoc]
    constructor
    · rintro ⟨hl, ha⟩
      exact ⟨ih.mp hl, namesPiece_of_pieceMsgSafe (hinv l (ih.mp hl)).ok ha⟩
    · rintro ⟨hl, ha⟩
      exact ⟨ih.mpr hl, (hinv l hl).pieceMsgSafe ha⟩

/-- **A block for the piece after the last.** It completes a piece without blocks, and the
digest of that piece is looked up past the end of the table. -/
theorem not_pieceMsgSafe_pastEnd :
    ¬Runs.Throughout (step Env.calm) (.init Torrent.oneByte Disk.oneByte)
      [.establish 7, .register 7, .message 7 (.pieceMsg 1 0 [])] (PieceMsgSafe Env.calm) := by
  intro h
  obtain ⟨-, -, hfault⟩ := h [.establish 7, .register 7] (.message 7 (.pieceMsg 1 0 [])) [] rfl
  exact hfault 1 (by decide)

end Coordinator

end TransferEngine
