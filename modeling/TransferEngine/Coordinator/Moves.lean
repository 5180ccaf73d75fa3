import Mathlib.Logic.Relation
import TransferEngine.Coordinator.Head
import TransferEngine.Lib.Loops
import TransferEngine.Lib.Runs

/-!
# A step, move by move

A step of the coordinator is long: a block comes in, a piece is finished, requests are
cancelled and the piece announced on every connection, any of which may break, and in the
end the pipeline of the peer is filled again. Almost nothing one wants to know of a
reachable state can be proved by following all of this each time.

So it is followed once, here. A step is its **head**, what the input itself changes before
anything is sent (`TransferEngine.Coordinator.head`), and then a chain of small **moves**
(`TransferEngine.Coordinator.Move`): a message is recorded, a peer leaves, one block is
requested, one request is cancelled. `TransferEngine.Coordinator.moves_step` is the
decomposition. An invariant is then proved for the head of each input and for one move of
each kind.
-/

namespace TransferEngine

/-- An event that a step records after its head. An announcement of a piece comes after
the piece is completed. -/
def Event.Follows (tr : List Event) : Event → Prop
  | .sent _ (.haveMsg i) => ∃ d, .pieceCompleted i.toNat d ∈ tr
  | .sent _ _ => True
  | .picked _ _ => True
  | .dangling _ => True
  | _ => False

namespace Coordinator

open State

variable {T : Torrent} {s s' : State T} {p q : PeerId} {state state' : PeerState T} {i : ℕ}
  {env : Env}

/-! ### Moves -/

/-- **A small change of the state**, after the head of a step. -/
inductive Move (s : State T) : State T → Prop
  /-- An event is recorded. -/
  | note (e : Event) : e.Follows s.trace → Move s (s.log e)
  /-- A connection changes, but not in whether its peer chokes us. -/
  | connection (p : PeerId) (x : PeerConnection) :
      x.peerChoking = s.choking p → (s.connections p).Keeps x → Move s (s.setConnection p x)
  /-- A peer leaves. -/
  | leave (p : PeerId) : Move s (unregisterPeer p s)
  /-- A block is requested from a peer. -/
  | request (p : PeerId) (state : PeerState T) (i : Fin T.count) (block : Block)
      (pm : PieceManager T) : s.peers.lookup p = some state → state.outstanding.length < 5 →
      s.choking p = false → state.activePiece = some i ∨ state.bitfield.has i = true →
      s.pieceManager.getNextBlock i = (some block, pm) →
      Move s ({ s with pieceManager := pm }.setPeer p (state.push i block))
  /-- A piece has no block left to request. -/
  | exhaust (p : PeerId) (state : PeerState T) (i : Fin T.count) (pm : PieceManager T) :
      s.peers.lookup p = some state → s.pieceManager.getNextBlock i = (none, pm) →
      Move s ({ s with pieceManager := pm }.setPeer p { state with activePiece := none })
  /-- A request for a piece that is not in progress is taken off a list. -/
  | cancel (q : PeerId) (state : PeerState T) (kept rest : List RequestedBlock)
      (r : RequestedBlock) : s.peers.lookup q = some state →
      state.outstanding = kept ++ r :: rest → s.pieceManager.inProgress r.piece = none →
      Move s (s.setPeer q { state with outstanding := kept ++ rest })
  /-- A peer has no active piece any more. -/
  | deactivate (q : PeerId) (state : PeerState T) : s.peers.lookup q = some state →
      Move s (s.setPeer q { state with activePiece := none })

/-- A chain of moves. -/
abbrev Moves : State T → State T → Prop := Relation.ReflTransGen Move

/-! ### What moves leave alone -/

theorem Move.choking_eq (h : Move s s') : s'.choking q = s.choking q := by
  cases h with
  | note => rfl
  | connection p x hx =>
    rw [choking_setConnection]
    split
    case isTrue hq => rw [hx, hq]
    case isFalse => rfl
  | leave p => rw [choking, connections_unregisterPeer, choking]
  | request => rfl
  | exhaust => rfl
  | cancel => rfl
  | deactivate => rfl

theorem Moves.choking_eq (h : Moves s s') : s'.choking q = s.choking q :=
  Runs.preserved_chain (I := fun t => t.choking q = s.choking q) h
    (fun _ _ ht hm => hm.choking_eq.trans ht) rfl

/-- Moves complete no piece and take none back. -/
theorem Move.completed_eq (h : Move s s') : s'.pieceManager.bitfield = s.pieceManager.bitfield := by
  cases h with
  | note => rfl
  | connection => rfl
  | leave p => exact bitfield_unregisterPeer
  | request p state j block pm _ _ _ _ hg => exact PieceManager.bitfield_of_getNextBlock hg
  | exhaust p state j pm _ hg => exact PieceManager.bitfield_of_getNextBlock hg
  | cancel => rfl
  | deactivate => rfl

theorem Move.hasPiece_eq (h : Move s s') :
    s'.pieceManager.hasPiece i = s.pieceManager.hasPiece i := by
  rw [PieceManager.hasPiece, h.completed_eq, PieceManager.hasPiece]

theorem Moves.hasPiece_eq (h : Moves s s') :
    s'.pieceManager.hasPiece i = s.pieceManager.hasPiece i :=
  Runs.preserved_chain (I := fun t => t.pieceManager.hasPiece i = s.pieceManager.hasPiece i) h
    (fun _ _ ht hm => hm.hasPiece_eq.trans ht) rfl

/-- Moves keep the entries of the piece manager sound. -/
theorem Move.ok (h : Move s s') (hs : s.pieceManager.Ok) : s'.pieceManager.Ok := by
  cases h with
  | note => exact hs
  | connection => exact hs
  | leave p =>
    rw [unregisterPeer]
    split
    case h_1 => exact hs
    case h_2 => exact ok_failRequests hs
  | request p state i block pm _ _ _ _ hg =>
    have := hs.getNextBlock (i := i)
    rwa [hg] at this
  | exhaust p state i pm _ hg =>
    have := hs.getNextBlock (i := i)
    rwa [hg] at this
  | cancel => exact hs
  | deactivate => exact hs

theorem Moves.ok (h : Moves s s') (hs : s.pieceManager.Ok) : s'.pieceManager.Ok :=
  Runs.preserved_chain (I := fun t : State T => t.pieceManager.Ok) h (fun _ _ ht hm => hm.ok ht) hs

/-- What a move records. -/
theorem Move.trace_cases (h : Move s s') :
    s'.trace = s.trace ∨ ∃ e, e.Follows s.trace ∧ s'.trace = e :: s.trace := by
  cases h with
  | note e he => exact Or.inr ⟨e, he, rfl⟩
  | connection => exact Or.inl rfl
  | leave => exact Or.inl trace_unregisterPeer
  | request => exact Or.inl rfl
  | exhaust => exact Or.inl rfl
  | cancel => exact Or.inl rfl
  | deactivate => exact Or.inl rfl

/-- **What a chain of moves records.** -/
theorem Moves.trace_eq (h : Moves s s') :
    ∃ new, s'.trace = new ++ s.trace ∧ ∀ e ∈ new, ∃ tr, e.Follows tr := by
  induction h with
  | refl => exact ⟨[], rfl, by simp⟩
  | tail _ hm ih =>
    obtain ⟨new, hnew, hf⟩ := ih
    rcases hm.trace_cases with he | ⟨e, he, htr⟩
    · exact ⟨new, he.trans hnew, hf⟩
    · refine ⟨e :: new, by rw [htr, hnew, List.cons_append], ?_⟩
      intro e' he'
      rcases List.mem_cons.mp he' with rfl | he'
      · exact ⟨_, he⟩
      · exact hf e' he'

/-- The trace only grows. -/
theorem Moves.suffix (h : Moves s s') : s.trace <:+ s'.trace := by
  obtain ⟨new, hnew, -⟩ := h.trace_eq
  exact ⟨new, hnew.symm⟩

theorem Moves.mem_trace (h : Moves s s') {e : Event} (he : e ∈ s.trace) : e ∈ s'.trace :=
  h.suffix.subset he

/-! ### Sending is a chain of moves -/

theorem moves_disconnect (p : PeerId) (s : State T) : Moves s (disconnect p s) := by
  rcases disconnect_cases p s with ⟨-, hd⟩ | ⟨-, hd⟩
  · rw [hd]
  · rw [hd]
    exact (Relation.ReflTransGen.single (.connection p _ rfl (.inl ⟨rfl, rfl⟩))).tail (.leave p)

theorem moves_sendMessage (env : Env) {m : PeerMessage} (h : (Event.sent p m).Follows s.trace) :
    Moves s (sendMessage env p m s) := by
  have hlog : Moves s ((s.setConnection p ((s.connections p).sending m)).log (.sent p m)) :=
    (Relation.ReflTransGen.single (.connection p _ (peerChoking_sending _ _)
      (PeerConnection.keeps_sending _ _))).tail (.note _ h)
  rcases sendMessage_cases env p m s with ⟨-, he⟩ | ⟨-, he | ⟨-, he⟩⟩
  · rw [he]
  · rw [he]
    exact hlog
  · rw [he]
    exact hlog.trans (moves_disconnect p _)

/-! ### Filling a pipeline is a chain of moves -/

/-- The pieces that `completed_or_full` rules out. -/
theorem has_completedOrFull {pm : PieceManager T} {i : ℕ} (hi : i < T.count) :
    (completedOrFull pm).has i = true ↔ pm.hasPendingBlocks i = false := by
  have hfold : ∀ (l : List ℕ) (b : Bitfield T.count),
      (l.foldl (fun b i => if pm.hasPendingBlocks i then b else b.set i true) b).has i = true ↔
        b.has i = true ∨ (i ∈ l ∧ pm.hasPendingBlocks i = false) := by
    intro l
    induction l with
    | nil => simp
    | cons j l ih =>
      intro b
      rw [List.foldl_cons, ih, List.mem_cons]
      cases hj : pm.hasPendingBlocks j with
      | true =>
        have hij : i = j → pm.hasPendingBlocks i = true := fun h => h ▸ hj
        simp only [if_true]
        constructor
        · rintro (h | ⟨h, hp⟩)
          · exact Or.inl h
          · exact Or.inr ⟨Or.inr h, hp⟩
        · rintro (h | ⟨rfl | h, hp⟩)
          · exact Or.inl h
          · rw [hij rfl] at hp
            cases hp
          · exact Or.inr ⟨h, hp⟩
      | false =>
        simp only [Bool.false_eq_true, if_false, Bitfield.has_set_true]
        constructor
        · rintro ((⟨rfl, -⟩ | h) | ⟨h, hp⟩)
          · exact Or.inr ⟨Or.inl rfl, hj⟩
          · exact Or.inl h
          · exact Or.inr ⟨Or.inr h, hp⟩
        · rintro (h | ⟨rfl | h, hp⟩)
          · exact Or.inl (Or.inr h)
          · exact Or.inl (Or.inl ⟨rfl, hi⟩)
          · exact Or.inr ⟨h, hp⟩
  rw [completedOrFull, hfold]
  constructor
  · rintro (h | ⟨-, h⟩)
    · -- a piece we have has no pending blocks
      rw [PieceManager.hasPendingBlocks, PieceManager.hasPiece, h, if_pos rfl]
    · exact h
  · exact fun h => Or.inr ⟨List.mem_range.mpr hi, h⟩

/-- **The piece chosen for a peer** is its active piece, or a piece it has with blocks to
ask for. -/
theorem choosePiece_some {i : Fin T.count} (h : choosePiece env p state s = some (i, s')) :
    (state.activePiece = some i ∧ s' = s) ∨
      (state.activePiece = none ∧ state.bitfield.has i = true ∧
        s.pieceManager.hasPendingBlocks i = true ∧ s' = s.log (.picked p i)) := by
  rw [choosePiece] at h
  split at h
  case h_1 j hj =>
    cases h
    exact Or.inl ⟨hj, rfl⟩
  case h_2 hnone =>
    split at h
    case h_1 => cases h
    case h_2 j hj =>
      cases h
      obtain ⟨hb, hf⟩ := PiecePicker.of_pickPiece hj
      refine Or.inr ⟨hnone, hb, ?_, rfl⟩
      by_contra hc
      rw [(has_completedOrFull i.isLt).mpr (by simpa using hc)] at hf
      cases hf

/-- Choosing a piece at most records the choice. -/
theorem moves_choosePiece {i : Fin T.count} (hp : s.peers.lookup p = some state)
    (h : choosePiece env p state s = some (i, s')) :
    Moves s s' ∧ s'.peers.lookup p = some state ∧
      (state.activePiece = some i ∨ state.bitfield.has i = true) := by
  rcases choosePiece_some h with ⟨hact, rfl⟩ | ⟨-, hbit, -, rfl⟩
  · exact ⟨.refl, hp, Or.inl hact⟩
  · exact ⟨.single (.note _ trivial), hp, Or.inr hbit⟩

/-- **One round of the loop** of `fill_request_pipeline`: another round follows, or the loop is
left. -/
def fillRound (env : Env) (p : PeerId) (s : State T) : State T ⊕ State T :=
  match s.peers.lookup p with
  | none => .inr (s.log (.dangling p))
  | some state =>
    if state.outstanding.length < 5 then
      match choosePiece env p state s with
      | none => .inr s
      | some (i, s) =>
        match s.pieceManager.getNextBlock i with
        | (none, pm) =>
          .inl ({ s with pieceManager := pm }.setPeer p { state with activePiece := none })
        | (some block, pm) =>
          .inl (sendMessage env p block.requestMsg
            ({ s with pieceManager := pm }.setPeer p (state.push i block)))
    else .inr s

/-- **What a round can do.** -/
inductive FillRound (env : Env) (p : PeerId) (s : State T) : State T ⊕ State T → Prop
  /-- The entry of the peer is gone. -/
  | gone : s.peers.lookup p = none → FillRound env p s (.inr (s.log (.dangling p)))
  /-- The pipeline is full. -/
  | full (state : PeerState T) : s.peers.lookup p = some state →
      ¬state.outstanding.length < 5 → FillRound env p s (.inr s)
  /-- There is no piece to ask for. -/
  | nothing (state : PeerState T) : s.peers.lookup p = some state →
      state.outstanding.length < 5 → choosePiece env p state s = none →
      FillRound env p s (.inr s)
  /-- The piece has no block to ask for, and is given up. -/
  | giveUp (state : PeerState T) (i : Fin T.count) (pm : PieceManager T) (s₁ : State T) :
      s.peers.lookup p = some state → state.outstanding.length < 5 →
      choosePiece env p state s = some (i, s₁) → s₁.pieceManager.getNextBlock i = (none, pm) →
      FillRound env p s
        (.inl ({ s₁ with pieceManager := pm }.setPeer p { state with activePiece := none }))
  /-- A block is requested. -/
  | ask (state : PeerState T) (i : Fin T.count) (block : Block) (pm : PieceManager T)
      (s₁ : State T) : s.peers.lookup p = some state → state.outstanding.length < 5 →
      choosePiece env p state s = some (i, s₁) →
      s₁.pieceManager.getNextBlock i = (some block, pm) →
      FillRound env p s (.inl (sendMessage env p block.requestMsg
        ({ s₁ with pieceManager := pm }.setPeer p (state.push i block))))

theorem fillRound_spec (env : Env) (p : PeerId) (s : State T) :
    FillRound env p s (fillRound env p s) := by
  rw [fillRound]
  split
  case h_1 hp => exact .gone hp
  case h_2 state hp =>
    split
    case isFalse hfull => exact .full state hp hfull
    case isTrue hlt =>
      split
      case h_1 hc => exact .nothing state hp hlt hc
      case h_2 i s₁ hc =>
        split
        case h_1 pm hg => exact .giveUp state i pm s₁ hp hlt hc hg
        case h_2 block pm hg => exact .ask state i block pm s₁ hp hlt hc hg

/-- **The loop, round by round.** -/
theorem fillLoop_eq_bounded (env : Env) (p : PeerId) (fuel : ℕ) (s : State T) :
    fillLoop env p fuel s = Loops.bounded id (fillRound env p) fuel s := by
  induction fuel generalizing s with
  | zero => rfl
  | succ fuel ih =>
    rw [fillLoop, Loops.bounded, fillRound]
    rcases s.peers.lookup p with _ | state
    · rfl
    · dsimp only
      split
      case isFalse => rfl
      case isTrue =>
        rcases choosePiece env p state s with _ | ⟨i, s₁⟩
        · rfl
        · dsimp only
          rcases s₁.pieceManager.getNextBlock i with ⟨_ | block, pm⟩
          · exact ih _
          · exact ih _

/-- **A round is a chain of moves.** -/
theorem moves_fillRound {r : State T ⊕ State T} (hch : s.choking p = false)
    (hr : FillRound env p s r) : Moves s (r.elim id id) := by
  cases hr with
  | gone => exact .single (.note _ trivial)
  | full => exact .refl
  | nothing => exact .refl
  | giveUp state i pm s₁ hp hlt hc hg =>
    obtain ⟨hs₁, hp₁, -⟩ := moves_choosePiece hp hc
    exact hs₁.tail (.exhaust p state i pm hp₁ hg)
  | ask state i block pm s₁ hp hlt hc hg =>
    obtain ⟨hs₁, hp₁, hfrom⟩ := moves_choosePiece hp hc
    have hm := Move.request p state i block pm hp₁ hlt (hs₁.choking_eq.trans hch) hfrom hg
    exact (hs₁.tail hm).trans (moves_sendMessage env trivial)

theorem moves_fillLoop (fuel : ℕ) (hch : s.choking p = false) :
    Moves s (fillLoop env p fuel s) := by
  rw [fillLoop_eq_bounded]
  refine Loops.bounded_rule (I := Moves s) fuel .refl fun t ht => ?_
  exact ht.trans (moves_fillRound (ht.choking_eq.trans hch) (fillRound_spec env p t))

theorem moves_fillRequestPipeline (env : Env) (p : PeerId) (s : State T) :
    Moves s (fillRequestPipeline env p s) := by
  rw [fillRequestPipeline]
  split
  case isTrue => exact .refl
  case isFalse hch =>
    split
    case h_1 => exact .refl
    case h_2 => exact moves_fillLoop _ (by simpa using hch)

theorem moves_topOff (env : Env) (p : PeerId) (s : State T) : Moves s (topOff env p s) := by
  rw [topOff]
  split
  case isTrue => exact .refl
  case isFalse => exact moves_fillRequestPipeline env p s

/-! ### Finishing a piece is a chain of moves -/

/-- A send starts no piece. -/
theorem inProgress_sendMessage_none (env : Env) (p : PeerId) (m : PeerMessage)
    (h : s.pieceManager.inProgress i = none) :
    (sendMessage env p m s).pieceManager.inProgress i = none := by
  rcases sendMessage_cases env p m s with ⟨-, he⟩ | ⟨-, he | ⟨-, he⟩⟩
  · rwa [he]
  · rwa [he]
  · rw [he]
    rcases disconnect_cases p ((s.setConnection p ((s.connections p).sending m)).log (.sent p m))
      with ⟨-, hd⟩ | ⟨-, hd⟩
    · rwa [hd]
    · rw [hd, unregisterPeer]
      split
      case h_1 => exact h
      case h_2 => exact inProgress_failRequests_none h

theorem moves_deactivate (h : s.peers.lookup q = some state) :
    Moves s (deactivate i q state s) := by
  rw [deactivate]
  split
  case isTrue => exact .single (.deactivate q state h)
  case isFalse => exact .refl

/-- The cancellations of one peer, for a piece that is not in progress. -/
theorem moves_cancelLoop (env : Env) (kept : List RequestedBlock) {rest : List RequestedBlock}
    (hq : s.peers.lookup q = some state) (hn : s.pieceManager.inProgress i = none)
    (ho : state.outstanding = kept ++ rest) :
    Moves s (cancelLoop env i q kept rest s) ∧
      (cancelLoop env i q kept rest s).pieceManager.inProgress i = none := by
  induction rest generalizing kept s state with
  | nil => exact ⟨.refl, hn⟩
  | cons r rest ih =>
    rw [cancelLoop]
    split
    case isFalse => exact ih _ hq hn (by rw [ho, List.append_assoc, List.singleton_append])
    case isTrue hr =>
      have hsend : Moves s (sendMessage env q r.cancelMsg s) := moves_sendMessage env trivial
      have hn₁ := inProgress_sendMessage_none env q r.cancelMsg hn
      dsimp only
      split
      case h_1 => exact ⟨hsend.tail (.note _ trivial), hn₁⟩
      case h_2 state₁ hq₁ =>
        -- the peer is still there, with the entry it had
        obtain rfl : state₁ = state := Option.some.inj ((lookup_of_sendMessage hq₁).symm.trans hq)
        have hm := Move.cancel q state₁ kept rest r hq₁ ho (hr ▸ hn₁)
        have hq₂ : ((sendMessage env q r.cancelMsg s).setPeer q
            { state₁ with outstanding := kept ++ rest }).peers.lookup q =
            some { state₁ with outstanding := kept ++ rest } := by
          rw [lookup_setPeer, if_pos rfl]
        obtain ⟨hrest, hnone⟩ := ih kept hq₂ hn₁ rfl
        exact ⟨hsend.trans (.head hm hrest), hnone⟩

theorem moves_cancelPeer (env : Env) (q : PeerId) (hn : s.pieceManager.inProgress i = none) :
    Moves s (cancelPeer env i s q) ∧ (cancelPeer env i s q).pieceManager.inProgress i = none := by
  rw [cancelPeer]
  split
  case h_1 => exact ⟨.refl, hn⟩
  case h_2 state hq =>
    obtain ⟨hloop, hnone⟩ := moves_cancelLoop env [] hq hn rfl
    dsimp only
    split
    case h_1 => exact ⟨hloop, hnone⟩
    case h_2 state₁ hq₁ =>
      refine ⟨hloop.trans (moves_deactivate hq₁), ?_⟩
      rw [deactivate]
      split <;> exact hnone

theorem moves_cancelPieceRequests (env : Env) (hn : s.pieceManager.inProgress i = none) :
    Moves s (cancelPieceRequests env i s) := by
  rw [cancelPieceRequests]
  generalize env.order s.trace s.peers.keys = keys
  induction keys generalizing s with
  | nil => exact .refl
  | cons q keys ih =>
    obtain ⟨hq, hnone⟩ := moves_cancelPeer env q hn
    exact hq.trans (ih hnone)

/-- The announcement of a completed piece. -/
theorem moves_broadcastHave (env : Env) {idx : UInt32} {d : List UInt8}
    (hd : .pieceCompleted idx.toNat d ∈ s.trace) :
    Moves s (broadcastHave env idx.toNat s) := by
  rw [broadcastHave]
  generalize env.order s.trace s.peers.keys = keys
  induction keys generalizing s with
  | nil => exact .refl
  | cons q keys ih =>
    have hone : Moves s (announce env idx.toNat s q) := by
      have hsend : Moves s (sendMessage env q (.haveMsg (.ofNat idx.toNat)) s) := by
        rw [UInt32.ofNat_toNat]
        exact moves_sendMessage env ⟨d, hd⟩
      rw [announce]
      split
      case h_1 => exact hsend.tail (.note _ trivial)
      case h_2 => exact hsend
    exact hone.trans (ih (hone.mem_trace hd))

theorem moves_lastUse (p : PeerId) (i : ℕ) (s : State T) : Moves s (lastUse p i s) := by
  rw [lastUse]
  split
  case h_1 => exact .single (.note _ trivial)
  case h_2 state hp => exact moves_deactivate hp

/-- What is left to do for a good piece, when the requests for it have been cancelled. -/
theorem moves_cancelled (env : Env) (p : PeerId) (idx : UInt32) (s : State T)
    (hv : s.pieceManager.validatePiece env.sha1 (env.garbage idx.toNat) idx.toNat = true) :
    (settle env p idx.toNat s).pieceManager.inProgress idx.toNat = none ∧
      Moves (cancelPieceRequests env idx.toNat (settle env p idx.toNat s))
        (finishPiece env p idx.toNat s) := by
  rw [settle, finishPiece, log_hashFault]
  dsimp only
  rw [if_pos hv, if_pos hv]
  generalize { s with trace := hashFault T idx.toNat ++ s.trace } = s₀
  have hn : (completePiece env idx.toNat s₀).pieceManager.inProgress idx.toNat = none := by
    rw [completePiece, PieceManager.inProgress_pieceCompleted, if_pos rfl]
  have hd : .pieceCompleted idx.toNat (s₀.pieceManager.getPieceData idx.toNat) ∈
      (completePiece env idx.toNat s₀).trace :=
    List.mem_cons_of_mem _ List.mem_cons_self
  have hcancel := moves_cancelPieceRequests env hn
  exact ⟨hn, (moves_broadcastHave env (hcancel.mem_trace hd)).trans (moves_lastUse p _ _)⟩

theorem moves_finishPiece (env : Env) (p : PeerId) (idx : UInt32) (s : State T) :
    Moves (settle env p idx.toNat s) (finishPiece env p idx.toNat s) := by
  cases hv : s.pieceManager.validatePiece env.sha1 (env.garbage idx.toNat) idx.toNat with
  | true =>
    obtain ⟨hn, hm⟩ := moves_cancelled env p idx s hv
    exact (moves_cancelPieceRequests env hn).trans hm
  | false =>
    rw [settle, finishPiece, log_hashFault]
    dsimp only
    rw [hv]
    exact moves_lastUse p _ _

/-- Settling a piece keeps the entries of the piece manager sound. -/
theorem ok_settle (hok : s.pieceManager.Ok) : (settle env p i s).pieceManager.Ok := by
  rw [settle, log_hashFault]
  dsimp only
  split
  case isTrue => exact hok.pieceCompleted
  case isFalse =>
    rw [onPeerCorrupted]
    split
    case isTrue => exact (moves_disconnect p _).ok hok.pieceFailed
    case isFalse => exact hok.pieceFailed

theorem ok_finishPiece (idx : UInt32) (hok : s.pieceManager.Ok) :
    (finishPiece env p idx.toNat s).pieceManager.Ok :=
  (moves_finishPiece env p idx s).ok (ok_settle hok)

/-! ### The decomposition -/

theorem moves_expressInterest (env : Env) (p : PeerId) (wanted : Bool) (s : State T) :
    Moves s (expressInterest env p wanted s) := by
  rw [expressInterest]
  split
  case isTrue => exact moves_sendMessage env trivial
  case isFalse => exact .refl

theorem moves_handlePeerMessage (env : Env) (m : PeerMessage)
    (hp : s.peers.lookup p = some state) :
    Moves (headMessage env p state s m) (handlePeerMessage env p m s) := by
  rw [handlePeerMessage, hp]
  cases m with
  | unchokeMsg => exact moves_fillRequestPipeline env p s
  | bitfieldMsg bits =>
    exact (moves_expressInterest env p _ _).trans (moves_topOff env p _)
  | haveMsg idx =>
    show Moves (recordHave p idx.toNat state s) (handleHave env p idx.toNat state s)
    rw [handleHave]
    split
    case isTrue => exact moves_expressInterest env p _ _
    case isFalse => exact .refl
  | pieceMsg idx c x =>
    show Moves _ (handlePiece env p idx.toNat c.toNat x state s)
    rw [headMessage, handlePiece]
    rcases deliver p idx.toNat c.toNat x state s with ⟨completed, s₁⟩
    cases completed with
    | true => exact (moves_finishPiece env p idx s₁).trans (moves_topOff env p _)
    | false => exact moves_topOff env p s₁
  | chokeMsg => exact .refl
  | keepAliveMsg => exact .refl
  | interestedMsg => exact .refl
  | notInterestedMsg => exact .refl
  | requestMsg => exact .refl
  | cancelMsg => exact .refl
  | portMsg => exact .refl

/-- **A step is its head and then a chain of moves.** -/
theorem moves_step (env : Env) (s : State T) (a : Input) : Moves (head env s a) (step env s a) := by
  cases a with
  | establish => exact .refl
  | register => exact .refl
  | unregister => exact .refl
  | interested p => exact moves_sendMessage env trivial
  | disconnect p => exact moves_disconnect p s
  | message p m =>
    rw [head, step]
    split
    case isFalse => exact .refl
    case isTrue =>
      split
      case h_1 hp =>
        rw [handlePeerMessage, peers_setConnection, hp]
      case h_2 state hp => exact moves_handlePeerMessage env m hp

/-- A step keeps the entries of the piece manager sound. -/
theorem ok_step (env : Env) (a : Input) (hok : s.pieceManager.Ok) :
    (step env s a).pieceManager.Ok :=
  (moves_step env s a).ok ((head_spec env s a).ok hok)

/-- A step only adds to the trace. -/
theorem suffix_step (env : Env) (s : State T) (a : Input) : s.trace <:+ (step env s a).trace := by
  refine .trans ?_ (moves_step env s a).suffix
  rcases (head_spec env s a).trace_cases with ⟨-, htr⟩ |
    ⟨p, idx, c, x, state, pm, -, -, -, -, -, -, htr⟩ |
    ⟨p, idx, c, x, state, pm, tr, outcome, -, -, -, -, -, -, htr, -, htr'⟩
  · rw [htr]
  · rw [htr, ← List.cons_append]
    exact List.suffix_append _ _
  · rw [htr', htr, ← List.cons_append, ← List.cons_append]
    exact List.suffix_append _ _

/-- A run whose trace has no fault is one whose steps are all defined. -/
theorem reach_of_no_fault {disk : Disk} {l : List Input}
    (h : ∀ e ∈ (run env disk l : State T).trace, e.isFault = false) :
    Runs.Reach (step env) (Defined env) (.init T disk) l (run env disk l) := by
  induction l using List.reverseRecOn with
  | nil => exact .nil
  | append_singleton l a ih =>
    rw [run, List.foldl_append] at h ⊢
    exact (ih fun e he => h e ((suffix_step env _ a).mem he)).snoc h

/-! ### Inside a step -/

/-- **The states of a run**: those between two inputs, and those that the handling of an input
can come through after its head. -/
inductive Visited (env : Env) (ok : State T → Input → Prop) (disk : Disk) : State T → Prop
  /-- Between two inputs. -/
  | between (l : List Input) (s : State T) : Runs.Reach (step env) ok (.init T disk) l s →
      Visited env ok disk s
  /-- While an input is handled. -/
  | inside (l : List Input) (s s' : State T) (a : Input) :
      Runs.Reach (step env) ok (.init T disk) l s → ok s a → Moves (head env s a) s' →
      Visited env ok disk s'

/-- **The invariant rule, inside steps too.** -/
theorem Visited.invariant {ok : State T → Input → Prop} {disk : Disk} {I : State T → Prop}
    (h : Visited env ok disk s) (h₀ : I (.init T disk))
    (hhead : ∀ s a, I s → ok s a → I (head env s a)) (hmove : ∀ s s', I s → Move s s' → I s') :
    I s := by
  have hstep : ∀ s a, I s → ok s a → I (step env s a) := fun s a hs ha =>
    Runs.preserved_chain (moves_step env s a) hmove (hhead s a hs ha)
  cases h with
  | between l s hr => exact hr.invariant h₀ hstep
  | inside l s₀ s a hr ha hm =>
    exact Runs.preserved_chain hm hmove (hhead s₀ a (hr.invariant h₀ hstep) ha)

theorem Visited.ok {ok : State T → Input → Prop} {disk : Disk} (h : Visited env ok disk s) :
    s.pieceManager.Ok :=
  h.invariant (I := fun t => t.pieceManager.Ok) PieceManager.ok_init
    (fun s a hs _ => (head_spec env s a).ok hs) fun _ _ hs hm => hm.ok hs

end Coordinator

end TransferEngine
