import TransferEngine.Coordinator.Moves
import TransferEngine.PieceManager.Pending

/-!
# Filling and cancelling

What the two loops over requests do, when no send in them breaks a connection: filling the
pipeline of a peer (`TransferEngine.Coordinator.fillLoop_rule`) and cancelling the
requests for a piece (`TransferEngine.Coordinator.trims_cancelPieceRequests`).

The loop of `fill_request_pipeline` has no bound in the source. It needs none: a round sends
one of at most five requests, gives up an active piece, or finds out that a piece has no
block to ask for and will not pick it again (`TransferEngine.Coordinator.roundsLeft`). So the
bound that the model gives it is never what ends it, whatever breaks on the way
(`TransferEngine.Coordinator.exits_fillLoop`).
-/

namespace TransferEngine

namespace Coordinator

open State

variable {T : Torrent} {s s' s'' : State T} {env : Env} {p q : PeerId} {state : PeerState T}
  {m : PeerMessage} {i : ℕ}

/-- **Only sends of Interested fail.** -/
def OnlyInterestFails (env : Env) : Prop :=
  ∀ tr p m, env.sendFails tr p m = true → m = .interestedMsg

/-! ### Keeping the peers -/

/-- The same peers are registered, and no use of a removed one has been recorded. -/
structure Keeps (s s' : State T) : Prop where
  /-- The same peers are registered. -/
  registered : ∀ q, (s'.peers.lookup q).isSome = (s.peers.lookup q).isSome
  /-- No use of a removed peer is recorded. -/
  noFault : ∀ q, .dangling q ∈ s'.trace → .dangling q ∈ s.trace

theorem Keeps.refl (s : State T) : Keeps s s := ⟨fun _ => rfl, fun _ h => h⟩

theorem Keeps.trans (h : Keeps s s') (h' : Keeps s' s'') : Keeps s s'' where
  registered := fun q => (h'.registered q).trans (h.registered q)
  noFault := fun q hq => h.noFault q (h'.noFault q hq)

/-- Changing the entry of a registered peer. -/
theorem keeps_setPeer (hp : s.peers.lookup p = some state) {s' : State T}
    {state' : PeerState T} (hpeers : s'.peers = s.peers.insert p state')
    (htr : s'.trace = s.trace) : Keeps s s' where
  registered := by
    intro q
    rw [hpeers]
    by_cases hq : q = p
    · rw [hq, AList.lookup_insert, hp, Option.isSome_some, Option.isSome_some]
    · rw [AList.lookup_insert_ne hq]
  noFault := fun q hq => htr ▸ hq

/-- Recording an event that is no such use. -/
theorem keeps_log {e : Event} (he : ∀ q, e ≠ .dangling q) : Keeps s (s.log e) where
  registered := fun _ => rfl
  noFault := by
    intro q hq
    rcases List.mem_cons.mp hq with rfl | hq
    · exact absurd rfl (he q)
    · exact hq

/-! ### Sends that change nothing -/

/-- Two states that differ in nothing that is looked at here. -/
structure Alike (s s' : State T) : Prop where
  /-- The peers. -/
  peers : s'.peers = s.peers
  /-- The pieces. -/
  pieceManager : s'.pieceManager = s.pieceManager
  /-- Who chokes us. -/
  choking : ∀ q, s'.choking q = s.choking q
  /-- No use of a removed peer is recorded. -/
  noFault : ∀ q, .dangling q ∈ s'.trace → .dangling q ∈ s.trace

theorem Alike.refl (s : State T) : Alike s s := ⟨rfl, rfl, fun _ => rfl, fun _ h => h⟩

theorem Alike.keeps (h : Alike s s') : Keeps s s' := ⟨fun q => by rw [h.peers], h.noFault⟩

/-- Recording an event. -/
theorem alike_log {e : Event} (he : ∀ q, e ≠ .dangling q) : Alike s (s.log e) :=
  ⟨rfl, rfl, fun _ => rfl, (keeps_log he).noFault⟩

/-- A message is recorded. -/
theorem alike_sending (p : PeerId) (m : PeerMessage) (s : State T) :
    Alike s ((s.setConnection p ((s.connections p).sending m)).log (.sent p m)) := by
  refine ⟨rfl, rfl, fun q => ?_, (keeps_log (s := s) (by rintro _ ⟨⟩)).noFault⟩
  rw [choking_log, choking_setConnection]
  split
  case isTrue hq => rw [peerChoking_sending, hq, choking]
  case isFalse => rfl

/-- A send that does not fail changes neither the peers nor the pieces. -/
theorem alike_of_not_sendFails (h : env.sendFails (.sent p m :: s.trace) p m = false) :
    Alike s (sendMessage env p m s) := by
  rcases sendMessage_cases env p m s with ⟨-, he⟩ | ⟨-, he | ⟨hf, -⟩⟩
  · rw [he]
    exact .refl s
  · rw [he]
    exact alike_sending p m s
  · rw [h] at hf
    cases hf

theorem alike_sendMessage (henv : OnlyInterestFails env) (p : PeerId)
    (hm : m ≠ .interestedMsg) (s : State T) : Alike s (sendMessage env p m s) := by
  refine alike_of_not_sendFails ?_
  by_contra hc
  exact hm (henv _ p m (by simpa using hc))

/-- A send after which its peer is still registered changed nothing here. -/
theorem alike_of_lookup_sendMessage
    (h : (sendMessage env p m s).peers.lookup p = some state) :
    Alike s (sendMessage env p m s) := by
  rcases sendMessage_cases env p m s with ⟨-, he⟩ | ⟨-, he | ⟨-, he⟩⟩
  · rw [he]
    exact .refl s
  · rw [he]
    exact alike_sending p m s
  · rw [he] at h ⊢
    rcases disconnect_cases p ((s.setConnection p ((s.connections p).sending m)).log (.sent p m))
      with ⟨-, hd⟩ | ⟨-, hd⟩
    · rw [hd]
      exact alike_sending p m s
    · rw [hd, lookup_unregisterPeer, if_pos rfl] at h
      cases h

/-! ### Filling a pipeline -/

/-- The peer has all it can have: a request is out, or nothing it has is pending. -/
def Served (pm : PieceManager T) (state : PeerState T) : Prop :=
  state.outstanding ≠ [] ∨ ∀ j, state.bitfield.has j = true → pm.hasPendingBlocks j = false

/-- An upper bound for the rounds of the loop that are still to come. A round that sends
a request costs two and may set an active piece, a round that gives up a piece has one
active or pending piece less. -/
def roundsLeft (pm : PieceManager T) (state : PeerState T) : ℕ :=
  2 * (5 - state.outstanding.length) + pm.pendingPieces.card +
    if state.activePiece.isSome then 1 else 0

/-- Filling the pipeline of one peer changes nothing for the others, and makes no piece
pending. -/
structure Fills (p : PeerId) (s s' : State T) : Prop extends Keeps s s' where
  /-- The entries of the others. -/
  lookup : ∀ q, q ≠ p → s'.peers.lookup q = s.peers.lookup q
  /-- Who chokes us. -/
  choking : ∀ q, s'.choking q = s.choking q
  /-- The pending pieces. -/
  pending : ∀ j, s'.pieceManager.hasPendingBlocks j = true →
    s.pieceManager.hasPendingBlocks j = true

theorem Fills.refl (p : PeerId) (s : State T) : Fills p s s :=
  ⟨.refl s, fun _ _ => rfl, fun _ => rfl, fun _ h => h⟩

theorem Fills.trans (h : Fills p s s') (h' : Fills p s' s'') : Fills p s s'' where
  toKeeps := h.toKeeps.trans h'.toKeeps
  lookup := fun q hq => (h'.lookup q hq).trans (h.lookup q hq)
  choking := fun q => (h'.choking q).trans (h.choking q)
  pending := fun j hj => h.pending j (h'.pending j hj)

theorem Alike.fills (h : Alike s s') : Fills p s s' :=
  ⟨h.keeps, fun q _ => by rw [h.peers], h.choking, fun j hj => by rwa [h.pieceManager] at hj⟩

/-- **Nothing is left to do for the peer**: its pipeline is full, or it has no active piece and
nothing that it has is pending. -/
def Filled (pm : PieceManager T) (state : PeerState T) : Prop :=
  ¬state.outstanding.length < 5 ∨
    (state.activePiece = none ∧ ∀ j, state.bitfield.has j = true → pm.hasPendingBlocks j = false)

theorem Filled.served {pm : PieceManager T} (h : Filled pm state) : Served pm state := by
  rcases h with hfull | ⟨-, hnone⟩
  · exact Or.inl fun hc => hfull (by simp [hc])
  · exact Or.inr hnone

/-- The loop finds no piece to ask for only where there is none. -/
theorem filled_of_choosePiece (h : choosePiece env p state s = none) :
    Filled s.pieceManager state := by
  rw [choosePiece] at h
  split at h
  case h_1 => cases h
  case h_2 hact =>
    split at h
    case h_1 hpick =>
      refine Or.inr ⟨hact, fun j hj => ?_⟩
      have hlt : j < T.count := Bitfield.lt_of_has hj
      exact (has_completedOrFull hlt).mp (PiecePicker.pickPiece_eq_none.mp hpick ⟨j, hlt⟩ hj)
    case h_2 => cases h

/-- A request takes two rounds from the bound, and gives back one at most. -/
theorem roundsLeft_push {pm pm' : PieceManager T} (i : Fin T.count) (block : Block)
    (hlt : state.outstanding.length < 5)
    (hsub : ∀ j, pm'.hasPendingBlocks j = true → pm.hasPendingBlocks j = true) :
    roundsLeft pm' (state.push i block) < roundsLeft pm state := by
  have hcard := PieceManager.card_pendingPieces_mono hsub
  simp only [roundsLeft, PeerState.push, List.length_append, List.length_singleton,
    Option.isSome_some, if_true]
  split <;> omega

/-- Giving up a piece takes one round from the bound: the piece was active, or it is not
pending any more. -/
theorem roundsLeft_giveUp {pm : PieceManager T} {i : Fin T.count} (hok : s.pieceManager.Ok)
    (hc : choosePiece env p state s = some (i, s'))
    (hg : s.pieceManager.getNextBlock i = (none, pm)) :
    roundsLeft pm { state with activePiece := none } < roundsLeft s.pieceManager state := by
  have hsub : ∀ j, pm.hasPendingBlocks j = true → s.pieceManager.hasPendingBlocks j = true :=
    fun j hj => PieceManager.hasPendingBlocks_of_getNextBlock hok hg hj
  rcases choosePiece_some hc with ⟨hact, -⟩ | ⟨hact, -, hpend, -⟩
  · have hcard := PieceManager.card_pendingPieces_mono hsub
    simp only [roundsLeft, hact, Option.isSome_some, Option.isSome_none, if_true,
      Bool.false_eq_true, if_false]
    omega
  · have hcard := PieceManager.card_pendingPieces_lt hsub i.isLt hpend
      (PieceManager.hasPendingBlocks_of_getNextBlock_none hok hg)
    simp only [roundsLeft, hact, Option.isSome_none, Bool.false_eq_true, if_false]
    omega

/-- **The loop goes on with less to do.** -/
def Onward (p : PeerId) (s : State T) (state : PeerState T) (s' : State T) : Prop :=
  ∃ state', Fills p s s' ∧ s'.pieceManager.Ok ∧ s'.peers.lookup p = some state' ∧
    roundsLeft s'.pieceManager state' < roundsLeft s.pieceManager state

theorem Onward.alike (h : Onward p s state s') (hsame : Alike s' s'') : Onward p s state s'' := by
  obtain ⟨state', hf, hok, hp, hlt⟩ := h
  refine ⟨state', hf.trans hsame.fills, ?_, ?_, ?_⟩
  · rwa [hsame.pieceManager]
  · rwa [hsame.peers]
  · rwa [hsame.pieceManager]

theorem alike_choosePiece {i : Fin T.count} (hc : choosePiece env p state s = some (i, s')) :
    Alike s s' := by
  rcases choosePiece_some hc with ⟨-, rfl⟩ | ⟨-, -, -, rfl⟩
  · exact .refl s'
  · exact alike_log (by rintro _ ⟨⟩)

/-- A round that asks for a block, whether there is one or not, goes on with less to do if the
peer is left with less to do. -/
theorem onward_setPeer {r : Option Block} {pm : PieceManager T} {state' : PeerState T}
    (hs : Alike s s') (hok : s.pieceManager.Ok) (hp : s.peers.lookup p = some state)
    (hg : s.pieceManager.getNextBlock i = (r, pm))
    (hless : roundsLeft pm state' < roundsLeft s.pieceManager state) :
    Onward p s state ({ s' with pieceManager := pm }.setPeer p state') := by
  have hok' := hok.getNextBlock (i := i)
  rw [hg] at hok'
  have hp' : s'.peers.lookup p = some state := by rw [hs.peers, hp]
  refine ⟨state', ⟨hs.keeps.trans (keeps_setPeer hp' rfl rfl), fun q hq => ?_, hs.choking,
    fun j => PieceManager.hasPendingBlocks_of_getNextBlock hok hg⟩, hok', ?_, hless⟩
  · rw [lookup_setPeer, if_neg hq]
    exact congrArg _ hs.peers
  · rw [lookup_setPeer, if_pos rfl]

/-- **One round** that leads to another one goes on with less to do, or its send has broken the
connection and taken the peer away. -/
theorem onward_or_gone (hok : s.pieceManager.Ok) (hr : FillRound env p s (.inl s')) :
    ∃ state, s.peers.lookup p = some state ∧ (Onward p s state s' ∨
      (s'.pieceManager.Ok ∧ s'.peers.lookup p = none ∧ 0 < roundsLeft s.pieceManager state)) := by
  cases hr with
  | giveUp state i pm s₁ hp hlt hc hg =>
    have hs₁ := alike_choosePiece hc
    rw [hs₁.pieceManager] at hg
    exact ⟨state, hp, Or.inl (onward_setPeer hs₁ hok hp hg (roundsLeft_giveUp hok hc hg))⟩
  | ask state i block pm s₁ hp hlt hc hg =>
    have hs₁ := alike_choosePiece hc
    rw [hs₁.pieceManager] at hg
    have hon := onward_setPeer hs₁ hok hp hg (roundsLeft_push i block hlt
      fun j => PieceManager.hasPendingBlocks_of_getNextBlock hok hg)
    refine ⟨state, hp, ?_⟩
    generalize { s₁ with pieceManager := pm }.setPeer p (state.push i block) = s₂ at hon
    rcases hp₂ : (sendMessage env p block.requestMsg s₂).peers.lookup p with _ | state₂
    · refine Or.inr ⟨?_, rfl, ?_⟩
      · obtain ⟨-, -, hok₂, -⟩ := hon
        exact Moves.ok (moves_sendMessage env trivial) hok₂
      · rw [roundsLeft]
        omega
    · exact Or.inl (hon.alike (alike_of_lookup_sendMessage hp₂))

/-- The rounds that are still to come in a state. -/
def roundsIn (p : PeerId) (s : State T) : ℕ :=
  match s.peers.lookup p with
  | none => 0
  | some state => roundsLeft s.pieceManager state

theorem roundsIn_of_lookup (hp : s.peers.lookup p = some state) :
    roundsIn p s = roundsLeft s.pieceManager state := by
  rw [roundsIn, hp]

/-- **The loop is left**, whatever breaks on the way, and with rounds enough the bound that it is
given here is not what ends it. -/
theorem exits_fillLoop (env : Env) (fuel : ℕ) (hok : s.pieceManager.Ok)
    (hfuel : roundsIn p s < fuel) :
    Loops.Exits (fillRound env p) s (fillLoop env p fuel s) := by
  rw [fillLoop_eq_bounded]
  refine Loops.exits_bounded (I := fun t => t.pieceManager.Ok) id (fun t t' ht hb => ?_) fuel hok
    hfuel
  obtain ⟨state, hp, hcases⟩ := onward_or_gone ht (hb ▸ fillRound_spec env p t)
  rw [roundsIn_of_lookup hp]
  rcases hcases with ⟨state', -, hok', hp', hlt⟩ | ⟨hok', hp', hpos⟩
  · exact ⟨hok', by rwa [roundsIn_of_lookup hp']⟩
  · exact ⟨hok', by rwa [roundsIn, hp']⟩

/-- From a point of the trace on, no Request to a peer fails. -/
def RequestsReach (env : Env) (p : PeerId) (tr : List Event) : Prop :=
  ∀ new block, env.sendFails (new ++ tr) p (Block.requestMsg block) = false

theorem RequestsReach.of_suffix {tr tr' : List Event} (h : RequestsReach env p tr)
    (hs : tr <:+ tr') : RequestsReach env p tr' := by
  obtain ⟨new, rfl⟩ := hs
  intro new' block
  rw [← List.append_assoc]
  exact h (new' ++ new) block

theorem OnlyInterestFails.requestsReach (henv : OnlyInterestFails env) (p : PeerId)
    (tr : List Event) : RequestsReach env p tr := by
  intro new block
  by_contra hc
  cases henv _ p _ (by simpa using hc)

/-- A Request that a round sends changes nothing where it does not fail. -/
theorem alike_request {t : State T} {i : Fin T.count} (block : Block)
    (hreach : RequestsReach env p s.trace) (hc : choosePiece env p state s = some (i, s'))
    (htr : t.trace = s'.trace) : Alike t (sendMessage env p block.requestMsg t) := by
  have hsuffix : s.trace <:+ .sent p block.requestMsg :: t.trace := by
    rw [htr]
    rcases choosePiece_some hc with ⟨-, rfl⟩ | ⟨-, -, -, rfl⟩
    · exact List.suffix_cons _ _
    · exact ⟨[_, _], rfl⟩
  exact alike_of_not_sendFails (hreach.of_suffix hsuffix [] block)

/-- **One round** whose send goes through goes on with less to do. -/
theorem onward_fillRound (hreach : RequestsReach env p s.trace) (hok : s.pieceManager.Ok)
    (hr : FillRound env p s (.inl s')) :
    ∃ state, s.peers.lookup p = some state ∧ Onward p s state s' := by
  obtain ⟨state, hp, hon | ⟨-, hp', -⟩⟩ := onward_or_gone hok hr
  · exact ⟨state, hp, hon⟩
  · refine absurd hp' ?_
    cases hr with
    | giveUp state i pm s₁ =>
      rw [lookup_setPeer, if_pos rfl]
      rintro ⟨⟩
    | ask state i block pm s₁ hp hlt hc hg =>
      rw [(alike_request _ hreach hc (by rfl)).peers, lookup_setPeer, if_pos rfl]
      rintro ⟨⟩

/-- **The rule for the loop**, where no send of a Request fails: it leaves the peer registered
with nothing left to do for it, and what every round keeps. -/
theorem fillLoop_rule {I : State T → PeerState T → Prop} (fuel : ℕ)
    (hreach : RequestsReach env p s.trace) (hok : s.pieceManager.Ok)
    (hp : s.peers.lookup p = some state) (hch : s.choking p = false)
    (hfuel : roundsLeft s.pieceManager state < fuel) (hI : I s state)
    (hround : ∀ t t' state₁ state₂, RequestsReach env p t.trace → t.pieceManager.Ok →
      t.peers.lookup p = some state₁ → t'.peers.lookup p = some state₂ →
      FillRound env p t (.inl t') → I t state₁ → I t' state₂) :
    ∃ state', (fillLoop env p fuel s).peers.lookup p = some state' ∧
      Filled (fillLoop env p fuel s).pieceManager state' ∧ I (fillLoop env p fuel s) state' := by
  have hexits := exits_fillLoop env fuel hok (by rwa [roundsIn_of_lookup hp])
  refine hexits.rule (I := fun t => Moves s t ∧ ∃ state₁, t.peers.lookup p = some state₁ ∧
    I t state₁) (Q := fun t => ∃ state', t.peers.lookup p = some state' ∧
      Filled t.pieceManager state' ∧ I t state') ⟨.refl, state, hp, hI⟩ ?_ ?_
  · rintro t t' ⟨hm, state₁, hp₁, hI₁⟩ hb
    have hr : FillRound env p t (.inl t') := hb ▸ fillRound_spec env p t
    have hreach' := hreach.of_suffix hm.suffix
    obtain ⟨-, -, state₂, -, -, hp₂, -⟩ := onward_fillRound hreach' (hm.ok hok) hr
    exact ⟨hm.trans (moves_fillRound (hm.choking_eq.trans hch) hr), state₂, hp₂,
      hround t t' state₁ state₂ hreach' (hm.ok hok) hp₁ hp₂ hr hI₁⟩
  · rintro t t' ⟨hm, state₁, hp₁, hI₁⟩ hb
    have hr : FillRound env p t (.inr t') := hb ▸ fillRound_spec env p t
    cases hr with
    | gone hnone =>
      rw [hp₁] at hnone
      cases hnone
    | full state₂ hp₂ hfull =>
      obtain rfl := Option.some.inj (hp₁.symm.trans hp₂)
      exact ⟨state₁, hp₁, Or.inl hfull, hI₁⟩
    | nothing state₂ hp₂ hlt hc =>
      obtain rfl := Option.some.inj (hp₁.symm.trans hp₂)
      exact ⟨state₁, hp₁, filled_of_choosePiece hc, hI₁⟩

/-- The rounds that `fill_request_pipeline` is given are enough. -/
theorem roundsLeft_lt (pm : PieceManager T) (state : PeerState T) :
    roundsLeft pm state < T.count + 12 := by
  have hcard := pm.card_pendingPieces_le
  rw [roundsLeft]
  split <;> omega

/-- **The loop serves the peer** and leaves the others alone. -/
theorem fillLoop_served (henv : OnlyInterestFails env) (hok : s.pieceManager.Ok)
    (hp : s.peers.lookup p = some state) (hch : s.choking p = false) :
    Fills p s (fillLoop env p (T.count + 12) s) ∧
      ∃ state', (fillLoop env p (T.count + 12) s).peers.lookup p = some state' ∧
        Served (fillLoop env p (T.count + 12) s).pieceManager state' := by
  obtain ⟨state', hp', hfilled, hfills⟩ := fillLoop_rule (I := fun t _ => Fills p s t)
    (T.count + 12) (henv.requestsReach p _) hok hp hch (roundsLeft_lt _ state) (.refl p s)
    fun t t' _ _ hreach hok _ _ hr hI => by
      obtain ⟨-, -, -, hf, -⟩ := onward_fillRound hreach hok hr
      exact hI.trans hf
  exact ⟨hfills, state', hp', hfilled.served⟩

theorem keeps_fillRequestPipeline (henv : OnlyInterestFails env) (hok : s.pieceManager.Ok) :
    Keeps s (fillRequestPipeline env p s) := by
  rw [fillRequestPipeline]
  split
  case isTrue => exact .refl s
  case isFalse hch =>
    split
    case h_1 => exact .refl s
    case h_2 state hp => exact (fillLoop_served henv hok hp (by simpa using hch)).1.toKeeps

theorem keeps_topOff (henv : OnlyInterestFails env) (hok : s.pieceManager.Ok) :
    Keeps s (topOff env p s) := by
  rw [topOff]
  split
  case isTrue => exact .refl s
  case isFalse => exact keeps_fillRequestPipeline henv hok

/-! ### Cancelling requests -/

/-- No request is taken off a list but for piece `i`. -/
structure Trims (i : ℕ) (s s' : State T) : Prop extends Keeps s s' where
  /-- The entries. -/
  lookup : ∀ q state', s'.peers.lookup q = some state' → ∃ state, s.peers.lookup q = some state ∧
    state'.bitfield = state.bitfield ∧ ∀ r ∈ state.outstanding, r.piece ≠ i → r ∈ state'.outstanding
  /-- Who chokes us. -/
  choking : ∀ q, s'.choking q = s.choking q
  /-- The pieces. -/
  pieceManager : s'.pieceManager = s.pieceManager

theorem Alike.trims (h : Alike s s') : Trims i s s' where
  toKeeps := h.keeps
  lookup := fun _ state' hq => ⟨state', h.peers ▸ hq, rfl, fun _ hr _ => hr⟩
  choking := h.choking
  pieceManager := h.pieceManager

theorem Trims.refl (i : ℕ) (s : State T) : Trims i s s := (Alike.refl s).trims

theorem Trims.trans (h : Trims i s s') (h' : Trims i s' s'') : Trims i s s'' where
  toKeeps := h.toKeeps.trans h'.toKeeps
  lookup := by
    intro q state'' hq
    obtain ⟨state', hq', hb', ho'⟩ := h'.lookup q state'' hq
    obtain ⟨state, hq, hb, ho⟩ := h.lookup q state' hq'
    exact ⟨state, hq, hb'.trans hb, fun r hr hne => ho' r (ho r hr hne) hne⟩
  choking := fun q => (h'.choking q).trans (h.choking q)
  pieceManager := h'.pieceManager.trans h.pieceManager

theorem trims_setPeer {state' : PeerState T} (hq : s.peers.lookup q = some state)
    (hb : state'.bitfield = state.bitfield)
    (ho : ∀ r ∈ state.outstanding, r.piece ≠ i → r ∈ state'.outstanding) :
    Trims i s (s.setPeer q state') where
  toKeeps := keeps_setPeer hq rfl rfl
  lookup := by
    intro q' st hst
    rw [lookup_setPeer] at hst
    split at hst
    case isTrue hqq =>
      cases hst
      exact ⟨state, hqq ▸ hq, hb, ho⟩
    case isFalse => exact ⟨st, hst, rfl, fun _ hr _ => hr⟩
  choking := fun _ => rfl
  pieceManager := rfl

theorem trims_deactivate (hq : s.peers.lookup q = some state) :
    Trims i s (deactivate i q state s) := by
  rw [deactivate]
  split
  case isTrue => exact trims_setPeer hq rfl fun _ hr _ => hr
  case isFalse => exact .refl i s

theorem trims_cancelLoop (henv : OnlyInterestFails env) (kept : List RequestedBlock)
    {rest : List RequestedBlock} (hq : s.peers.lookup q = some state)
    (ho : state.outstanding = kept ++ rest) : Trims i s (cancelLoop env i q kept rest s) := by
  induction rest generalizing kept s state with
  | nil => exact .refl i s
  | cons r rest ih =>
    rw [cancelLoop]
    split
    case isFalse => exact ih _ hq (by rw [ho, List.append_assoc, List.singleton_append])
    case isTrue hr =>
      have hsend : Trims i s (sendMessage env q r.cancelMsg s) :=
        (alike_sendMessage henv q (by rintro ⟨⟩) s).trims
      have hq₁ : (sendMessage env q r.cancelMsg s).peers.lookup q = some state := by
        rw [(alike_sendMessage henv q (m := r.cancelMsg) (by rintro ⟨⟩) s).peers, hq]
      dsimp only
      rw [hq₁]
      have hset : Trims i (sendMessage env q r.cancelMsg s)
          ((sendMessage env q r.cancelMsg s).setPeer q
            { state with outstanding := kept ++ rest }) := by
        refine trims_setPeer hq₁ rfl fun r' hr' hne => ?_
        -- what is taken off the list is the request at hand, which is for the piece
        rw [ho, List.mem_append, List.mem_cons] at hr'
        rcases hr' with hr' | rfl | hr'
        · exact List.mem_append_left _ hr'
        · exact absurd hr hne
        · exact List.mem_append_right _ hr'
      exact hsend.trans (hset.trans (ih kept (by rw [lookup_setPeer, if_pos rfl]) rfl))

theorem trims_cancelPieceRequests (henv : OnlyInterestFails env) (i : ℕ) (s : State T) :
    Trims i s (cancelPieceRequests env i s) := by
  rw [cancelPieceRequests]
  generalize env.order s.trace s.peers.keys = keys
  induction keys generalizing s with
  | nil => exact .refl i s
  | cons q keys ih =>
    have hone : Trims i s (cancelPeer env i s q) := by
      rw [cancelPeer]
      split
      case h_1 => exact .refl i s
      case h_2 state hq =>
        have hloop : Trims i s (cancelLoop env i q [] state.outstanding s) :=
          trims_cancelLoop henv [] hq rfl
        dsimp only
        split
        case h_1 => exact hloop
        case h_2 state₁ hq₁ => exact hloop.trans (trims_deactivate hq₁)
    exact hone.trans (ih _)

theorem trims_broadcastHave (henv : OnlyInterestFails env) (i : ℕ) (s : State T) :
    Trims i s (broadcastHave env i s) := by
  -- the walk meets registered peers only
  have hkeys : ∀ q ∈ env.order s.trace s.peers.keys, (s.peers.lookup q).isSome := by
    intro q hq
    rw [AList.lookup_isSome, AList.mem_keys]
    exact (env.order_perm _ _).subset hq
  rw [broadcastHave]
  generalize env.order s.trace s.peers.keys = keys at hkeys
  induction keys generalizing s with
  | nil => exact .refl i s
  | cons q keys ih =>
    have hsend : Trims i s (sendMessage env q (.haveMsg (.ofNat i)) s) :=
      (alike_sendMessage henv q (by rintro ⟨⟩) s).trims
    have hone : announce env i s q = sendMessage env q (.haveMsg (.ofNat i)) s := by
      obtain ⟨state, hstate⟩ := Option.isSome_iff_exists.mp
        ((hsend.registered q).trans (hkeys q List.mem_cons_self))
      rw [announce, hstate]
    rw [List.foldl_cons, hone]
    refine hsend.trans (ih _ fun q' hq' => ?_)
    rw [hsend.registered]
    exact hkeys q' (List.mem_cons_of_mem _ hq')

end Coordinator

end TransferEngine
