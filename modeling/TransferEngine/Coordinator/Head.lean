import TransferEngine.Coordinator.Basic

/-!
# What an input itself changes

The **head** of a step is what its input changes before anything is sent
(`TransferEngine.Coordinator.head`). The moves that follow it are in
`TransferEngine.Coordinator.Moves`.

`TransferEngine.Coordinator.Head` says once what a head can do to the piece manager, the
registered peers and the trace; `TransferEngine.Coordinator.head_spec` is all that later
proofs use of the handlers.
-/

namespace TransferEngine

/-- The peer after a block has come in: the first request for it is off the list. -/
def PeerState.answered {T : Torrent} (state : PeerState T) (pieceIdx begin : ℕ) : PeerState T :=
  { state with
    outstanding := state.outstanding.eraseP fun r => r.piece == pieceIdx && r.begin == begin }

namespace Coordinator

open State

variable {T : Torrent} {s s' : State T} {p q : PeerId} {state state' : PeerState T} {i : ℕ}
  {env : Env} {a : Input}

/-- What finishing a piece does before anything is sent. Where a bad piece closes the
connection of its peer, that is part of it. -/
def settle (env : Env) (p : PeerId) (pieceIdx : ℕ) (s : State T) : State T :=
  let s := if pieceIdx < T.pieceHashes.length then s else s.log (.hashOutOfBounds pieceIdx)
  if s.pieceManager.validatePiece env.sha1 (env.garbage pieceIdx) pieceIdx then
    completePiece env pieceIdx s
  else onPeerCorrupted env p { s with pieceManager := s.pieceManager.pieceFailed pieceIdx }

/-- What a message itself changes. -/
def headMessage (env : Env) (p : PeerId) (state : PeerState T) (s : State T) :
    PeerMessage → State T
  | .chokeMsg => handleChoke p state s
  | .bitfieldMsg bits => recordBitfield p bits state s
  | .haveMsg idx => recordHave p idx.toNat state s
  | .pieceMsg idx begin block =>
    let (completed, s) := deliver p idx.toNat begin.toNat block state s
    if completed then settle env p idx.toNat s else s
  | _ => s

/-- **The head of a step**: what its input changes, before anything is sent. -/
def head (env : Env) (s : State T) : Input → State T
  | .establish p =>
    let c := s.connections p
    if c.state = .disconnected then s else s.setConnection p { c with state := .active }
  | .register p => registerPeer p s
  | .unregister p => unregisterPeer p s
  | .interested _ => s
  | .disconnect _ => s
  | .message p m =>
    let c := s.connections p
    if c.state = .active then
      match s.peers.lookup p with
      | none => s.setConnection p (c.received m)
      | some state => headMessage env p state (s.setConnection p (c.received m)) m
    else s

/-- The fault that validating a piece without a digest is. -/
def hashFault (T : Torrent) (i : ℕ) : List Event :=
  if i < T.pieceHashes.length then [] else [.hashOutOfBounds i]

/-- **What the head of a step can do** to the piece manager, the peers and the trace. -/
inductive Head (env : Env) (s : State T) : Input → State T → Prop
  /-- Nothing. -/
  | quiet (a : Input) (s' : State T) : s'.pieceManager = s.pieceManager → s'.peers = s.peers →
      s'.trace = s.trace → Head env s a s'
  /-- A peer is registered. -/
  | register (p : PeerId) (s' : State T) : s'.pieceManager = s.pieceManager →
      s'.peers = s.peers.insert p {} → s'.trace = s.trace → Head env s (.register p) s'
  /-- A peer is unregistered. -/
  | unregister (p : PeerId) : Head env s (.unregister p) (unregisterPeer p s)
  /-- A peer chokes us. -/
  | choke (p : PeerId) (state : PeerState T) (s' : State T) : s.peers.lookup p = some state →
      s'.pieceManager = failRequests s.pieceManager state.outstanding →
      s'.peers = s.peers.insert p { state with outstanding := [], activePiece := none } →
      s'.trace = s.trace → Head env s (.message p .chokeMsg) s'
  /-- A peer tells what it has. -/
  | bitfield (p : PeerId) (m : PeerMessage) (state : PeerState T) (b : Bitfield T.count)
      (s' : State T) : s.peers.lookup p = some state → s'.pieceManager = s.pieceManager →
      s'.peers = s.peers.insert p { state with bitfield := b } → s'.trace = s.trace →
      Head env s (.message p m) s'
  /-- A block comes in. -/
  | block (p : PeerId) (idx c : UInt32) (x : List UInt8) (state : PeerState T)
      (pm : PieceManager T) (s' : State T) : (s.connections p).state = .active →
      s.peers.lookup p = some state →
      s.pieceManager.blockReceived idx.toNat c.toNat x = (false, pm) →
      s'.pieceManager = pm → s'.peers = s.peers.insert p (state.answered idx.toNat c.toNat) →
      s'.trace = s.trace → Head env s (.message p (.pieceMsg idx c x)) s'
  /-- A block comes in, and its piece is received and good. -/
  | completed (p : PeerId) (idx c : UInt32) (x : List UInt8) (state : PeerState T)
      (pm : PieceManager T) (tr : List Event) (outcome : WriteOutcome) (s' : State T) :
      (s.connections p).state = .active → s.peers.lookup p = some state →
      s.pieceManager.blockReceived idx.toNat c.toNat x = (true, pm) →
      pm.validatePiece env.sha1 (env.garbage idx.toNat) idx.toNat = true →
      tr = .pieceCompleted idx.toNat (pm.getPieceData idx.toNat) ::
        (hashFault T idx.toNat ++ s.trace) →
      outcome = DiskIOManager.writeOutcome T (env.io tr) env.outputDir idx.toNat
        (pm.getPieceData idx.toNat) s.disk →
      s'.pieceManager = pm.pieceCompleted idx.toNat →
      s'.peers = s.peers.insert p (state.answered idx.toNat c.toNat) →
      s'.trace = .wrote idx.toNat (pm.getPieceData idx.toNat) outcome :: tr →
      Head env s (.message p (.pieceMsg idx c x)) s'
  /-- A block comes in, and its piece is received and bad. -/
  | corrupted (p : PeerId) (idx c : UInt32) (x : List UInt8) (state : PeerState T)
      (pm : PieceManager T) (s' : State T) : (s.connections p).state = .active →
      s.peers.lookup p = some state →
      s.pieceManager.blockReceived idx.toNat c.toNat x = (true, pm) →
      pm.validatePiece env.sha1 (env.garbage idx.toNat) idx.toNat = false →
      env.blacklists = false → s'.pieceManager = pm.pieceFailed idx.toNat →
      s'.peers = s.peers.insert p (state.answered idx.toNat c.toNat) →
      s'.trace = .peerCorrupted p :: (hashFault T idx.toNat ++ s.trace) →
      Head env s (.message p (.pieceMsg idx c x)) s'
  /-- A block comes in, its piece is received and bad, and the peer is thrown out. -/
  | banned (p : PeerId) (idx c : UInt32) (x : List UInt8) (state : PeerState T)
      (pm : PieceManager T) (s' : State T) : (s.connections p).state = .active →
      s.peers.lookup p = some state →
      s.pieceManager.blockReceived idx.toNat c.toNat x = (true, pm) →
      pm.validatePiece env.sha1 (env.garbage idx.toNat) idx.toNat = false →
      env.blacklists = true →
      s'.pieceManager = failRequests (pm.pieceFailed idx.toNat)
        (state.answered idx.toNat c.toNat).outstanding →
      s'.peers = (s.peers.insert p (state.answered idx.toNat c.toNat)).erase p →
      s'.trace = .peerCorrupted p :: (hashFault T idx.toNat ++ s.trace) →
      Head env s (.message p (.pieceMsg idx c x)) s'

/-- Validation is the same with a recorded fault and without. -/
theorem log_hashFault (s : State T) (i : ℕ) :
    (if i < T.pieceHashes.length then s else s.log (.hashOutOfBounds i)) =
      { s with trace := hashFault T i ++ s.trace } := by
  rw [hashFault]
  split <;> rfl

/-- What a block does when it comes in. -/
theorem deliver_eq {c : ℕ} {x : List UInt8} {completed : Bool} {pm : PieceManager T}
    (hb : s.pieceManager.blockReceived i c x = (completed, pm)) :
    deliver p i c x state s =
      (completed, { s.setPeer p (state.answered i c) with pieceManager := pm }) := by
  rw [deliver]
  simp only [pieceManager_setPeer, hb]
  rfl

/-- The head of a Piece message. -/
theorem head_pieceMsg (env : Env) {x : PeerConnection} {idx c : UInt32} {y : List UInt8}
    (hact : (s.connections p).state = .active) (hx : x.state = .active)
    (hp : s.peers.lookup p = some state) :
    Head env s (.message p (.pieceMsg idx c y))
      (headMessage env p state (s.setConnection p x) (.pieceMsg idx c y)) := by
  rcases hb : s.pieceManager.blockReceived idx.toNat c.toNat y with ⟨completed, pm⟩
  rw [headMessage, deliver_eq (s := s.setConnection p x) hb]
  cases completed with
  | false => exact .block p idx c y state pm _ hact hp hb rfl rfl rfl
  | true =>
    simp only [if_true]
    rw [settle, log_hashFault]
    dsimp only
    split
    case isTrue hv =>
      exact .completed p idx c y state pm _ _ _ hact hp hb hv rfl rfl rfl rfl rfl
    case isFalse hv =>
      have hv' : pm.validatePiece env.sha1 (env.garbage idx.toNat) idx.toNat = false := by
        simpa using hv
      rw [onPeerCorrupted]
      cases hban : env.blacklists with
      | false => exact .corrupted p idx c y state pm _ hact hp hb hv' hban rfl rfl rfl
      | true =>
        -- the connection is active, so closing it makes the peer leave
        have hopen : ((s.setConnection p x).connections p).state ≠ .disconnected := by
          rw [connections_setConnection, if_pos rfl, hx]
          decide
        have hlook : (s.peers.insert p (state.answered idx.toNat c.toNat)).lookup p =
            some (state.answered idx.toNat c.toNat) := AList.lookup_insert _
        simp only [if_true]
        rw [disconnect, if_neg (by exact hopen), unregisterPeer_of_some (by exact hlook)]
        exact .banned p idx c y state pm _ hact hp hb hv' hban rfl rfl rfl

/-- **What the head of a step does.** -/
theorem head_spec (env : Env) (s : State T) (a : Input) : Head env s a (head env s a) := by
  cases a with
  | establish p =>
    rw [head]
    split
    case isTrue => exact .quiet _ _ rfl rfl rfl
    case isFalse => exact .quiet _ _ rfl rfl rfl
  | register p => exact .register p _ rfl rfl rfl
  | unregister p => exact .unregister p
  | interested p => exact .quiet _ _ rfl rfl rfl
  | disconnect p => exact .quiet _ _ rfl rfl rfl
  | message p m =>
    rw [head]
    split
    case isFalse => exact .quiet _ _ rfl rfl rfl
    case isTrue hact =>
      split
      case h_1 => exact .quiet _ _ rfl rfl rfl
      case h_2 state hp =>
        cases m with
        | chokeMsg => exact .choke p state _ hp rfl rfl rfl
        | bitfieldMsg bits => exact .bitfield p _ state _ _ hp rfl rfl rfl
        -- a Have for a piece out of range, or one the peer has, is dropped
        | haveMsg idx =>
          rw [headMessage, recordHave]
          split
          case isTrue => exact .bitfield p _ state _ _ hp rfl rfl rfl
          case isFalse => exact .quiet _ _ rfl rfl rfl
        | pieceMsg idx c x => exact head_pieceMsg env hact hact hp
        | keepAliveMsg => exact .quiet _ _ rfl rfl rfl
        | unchokeMsg => exact .quiet _ _ rfl rfl rfl
        | interestedMsg => exact .quiet _ _ rfl rfl rfl
        | notInterestedMsg => exact .quiet _ _ rfl rfl rfl
        | requestMsg => exact .quiet _ _ rfl rfl rfl
        | cancelMsg => exact .quiet _ _ rfl rfl rfl
        | portMsg => exact .quiet _ _ rfl rfl rfl

/-! ### Bits and events -/

/-- The head of a step keeps the entries of the piece manager sound. -/
theorem Head.ok (hh : Head env s a s') (h : s.pieceManager.Ok) : s'.pieceManager.Ok := by
  cases hh with
  | quiet a s' hpm => exact hpm ▸ h
  | register p s' hpm => exact hpm ▸ h
  | unregister p =>
    rw [unregisterPeer]
    split
    case h_1 => exact h
    case h_2 => exact ok_failRequests h
  | choke p state s' hp hpm => exact hpm ▸ ok_failRequests h
  | bitfield p m state b s' hp hpm => exact hpm ▸ h
  | block p idx c x state pm s' hact hp hb hpm => exact hpm ▸ h.of_blockReceived hb
  | completed p idx c x state pm tr outcome s' hact hp hb hv htr hret hpm =>
    exact hpm ▸ (h.of_blockReceived hb).pieceCompleted
  | corrupted p idx c x state pm s' hact hp hb hv hban hpm =>
    exact hpm ▸ (h.of_blockReceived hb).pieceFailed
  | banned p idx c x state pm s' hact hp hb hv hban hpm =>
    exact hpm ▸ ok_failRequests (h.of_blockReceived hb).pieceFailed

/-- The head keeps every bit and records nothing. -/
def Silent (s s' : State T) : Prop :=
  (∀ j, s'.pieceManager.hasPiece j = s.pieceManager.hasPiece j) ∧ s'.trace = s.trace

/-- The head keeps every bit and records that the block of a peer completed a bad piece. -/
def Blames (env : Env) (s : State T) (a : Input) (s' : State T) : Prop :=
  ∃ p idx c x state pm, a = .message p (.pieceMsg idx c x) ∧
    (s.connections p).state = .active ∧ s.peers.lookup p = some state ∧
    s.pieceManager.blockReceived idx.toNat c.toNat x = (true, pm) ∧
    pm.validatePiece env.sha1 (env.garbage idx.toNat) idx.toNat = false ∧
    (∀ j, s'.pieceManager.hasPiece j = s.pieceManager.hasPiece j) ∧
    s'.trace = .peerCorrupted p :: (hashFault T idx.toNat ++ s.trace)

/-- The head sets the bit of a good piece, hands the piece on and records the result of
writing it. -/
def Completes (env : Env) (s : State T) (a : Input) (s' : State T) : Prop :=
  ∃ p idx c x state pm tr outcome, a = .message p (.pieceMsg idx c x) ∧
    (s.connections p).state = .active ∧ s.peers.lookup p = some state ∧
    s.pieceManager.blockReceived idx.toNat c.toNat x = (true, pm) ∧
    pm.validatePiece env.sha1 (env.garbage idx.toNat) idx.toNat = true ∧
    (∀ j, s'.pieceManager.hasPiece j = true ↔
      (idx.toNat = j ∧ idx.toNat < T.count) ∨ s.pieceManager.hasPiece j = true) ∧
    tr = .pieceCompleted idx.toNat (pm.getPieceData idx.toNat) ::
      (hashFault T idx.toNat ++ s.trace) ∧
    outcome = DiskIOManager.writeOutcome T (env.io tr) env.outputDir idx.toNat
      (pm.getPieceData idx.toNat) s.disk ∧
    s'.trace = .wrote idx.toNat (pm.getPieceData idx.toNat) outcome :: tr

/-- **What the head of a step does to the bits and to the trace.** -/
theorem Head.trace_cases (hh : Head env s a s') :
    Silent s s' ∨ Blames env s a s' ∨ Completes env s a s' := by
  cases hh with
  | quiet a s' hpm hpeers htr => exact Or.inl ⟨fun j => by rw [hpm], htr⟩
  | register p s' hpm hpeers htr => exact Or.inl ⟨fun j => by rw [hpm], htr⟩
  | unregister p =>
    refine Or.inl ⟨fun j => ?_, trace_unregisterPeer⟩
    rw [PieceManager.hasPiece, bitfield_unregisterPeer, PieceManager.hasPiece]
  | choke p state s' hp hpm hpeers htr =>
    exact Or.inl ⟨fun j => by rw [hpm, hasPiece_failRequests], htr⟩
  | bitfield p m state b s' hp hpm hpeers htr => exact Or.inl ⟨fun j => by rw [hpm], htr⟩
  | block p idx c x state pm s' hact hp hb hpm hpeers htr =>
    exact Or.inl ⟨fun j => by rw [hpm, PieceManager.hasPiece_of_blockReceived hb], htr⟩
  | completed p idx c x state pm tr outcome s' hact hp hb hv htr hret hpm hpeers htr' =>
    refine Or.inr (Or.inr ⟨p, idx, c, x, state, pm, tr, outcome, rfl, hact, hp, hb, hv,
      fun j => ?_, htr, hret, htr'⟩)
    rw [hpm, PieceManager.hasPiece_pieceCompleted, PieceManager.hasPiece_of_blockReceived hb]
  | corrupted p idx c x state pm s' hact hp hb hv hban hpm hpeers htr =>
    refine Or.inr (Or.inl ⟨p, idx, c, x, state, pm, rfl, hact, hp, hb, hv, fun j => ?_, htr⟩)
    rw [hpm, PieceManager.hasPiece_pieceFailed, PieceManager.hasPiece_of_blockReceived hb]
  | banned p idx c x state pm s' hact hp hb hv hban hpm hpeers htr =>
    refine Or.inr (Or.inl ⟨p, idx, c, x, state, pm, rfl, hact, hp, hb, hv, fun j => ?_, htr⟩)
    rw [hpm, hasPiece_failRequests, PieceManager.hasPiece_pieceFailed,
      PieceManager.hasPiece_of_blockReceived hb]

end Coordinator

end TransferEngine
