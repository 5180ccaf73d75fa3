import TransferEngine.Client.Slots
import TransferEngine.Receiving.Handshake

/-!
# Whose peers get registered

A connection hands every well-formed handshake on, and the callback that the peer manager
installs has the coordinator register the peer without looking at it. So the coordinator
knows only peers of its own torrent exactly as long as the first 68 bytes that a connection
waiting for its handshake has received are none for another torrent when they are looked at
(`TransferEngine.Client.ownTorrent_iff`). Together with what a single connection does on
any stream of bytes this is `TransferEngine.Client.ownHandshakes_iff`.

Until its handshake a connection drops nothing, so what it has received is its buffer
(`TransferEngine.Client.Hears`).
-/

namespace TransferEngine

namespace Coordinator

variable {T : Torrent} {s s' : State T} {env : Env} {p q : PeerId} {m : PeerMessage}

theorem Move.isSome_lookup (h : Move s s') (hq : (s'.peers.lookup q).isSome) :
    (s.peers.lookup q).isSome := by
  -- every entry that a move writes was there before
  have hset : ∀ {s₁ : State T} {r : PeerId} {state state' : PeerState T},
      s₁.peers = s.peers → s.peers.lookup r = some state →
      ((s₁.setPeer r state').peers.lookup q).isSome → (s.peers.lookup q).isSome := by
    intro s₁ r state state' hs₁ hr hq'
    rw [State.lookup_setPeer, hs₁] at hq'
    split at hq'
    case isTrue hqr => rw [hqr, hr]; rfl
    case isFalse => exact hq'
  cases h with
  | note => exact hq
  | connection => exact hq
  | leave r =>
    rw [lookup_unregisterPeer] at hq
    split at hq
    case isTrue => cases hq
    case isFalse => exact hq
  | request r state i block pm hr => exact hset rfl hr hq
  | exhaust r state i pm hr => exact hset rfl hr hq
  | cancel r state kept rest x hr => exact hset rfl hr hq
  | deactivate r state hr => exact hset rfl hr hq

theorem Move.keeps (h : Move s s') (q : PeerId) : (s.connections q).Keeps (s'.connections q) := by
  cases h with
  | connection p x _ hx =>
    rw [State.connections_setConnection]
    split
    case isTrue hq => exact hq ▸ hx
    case isFalse => exact .refl _
  | leave p =>
    rw [connections_unregisterPeer]
    exact .refl _
  | _ => exact .refl _

theorem keeps_setConnection {x : PeerConnection} (hx : (s.connections p).Keeps x) (q : PeerId) :
    (s.connections q).Keeps ((s.setConnection p x).connections q) := by
  rw [State.connections_setConnection]
  split
  case isTrue hq => exact hq ▸ hx
  case isFalse => exact .refl _

theorem Moves.keeps (h : Moves s s') (q : PeerId) : (s.connections q).Keeps (s'.connections q) :=
  Runs.preserved_chain (I := fun t => (s.connections q).Keeps (t.connections q)) h
    (fun _ _ ht hm => ht.trans (hm.keeps q)) (.refl _)

/-- The head of a message closes connections and changes flags. -/
theorem keeps_head (env : Env) (s : State T) (p : PeerId) (m : PeerMessage) (q : PeerId) :
    (s.connections q).Keeps ((head env s (.message p m)).connections q) := by
  rw [head]
  split
  case isFalse => exact .refl _
  case isTrue =>
    have hset := keeps_setConnection (PeerConnection.keeps_received (s.connections p) m) q
    split
    case h_1 => exact hset
    case h_2 state _ =>
      refine hset.trans ?_
      cases m with
      | haveMsg idx =>
        rw [headMessage, recordHave]
        split <;> exact .refl _
      | pieceMsg idx c x =>
        rcases hb : s.pieceManager.blockReceived idx.toNat c.toNat x with ⟨completed, pm⟩
        rw [headMessage, deliver_eq (by exact hb)]
        cases completed with
        | false => exact .refl _
        | true =>
          simp only [if_true]
          rw [settle, log_hashFault]
          dsimp only
          split
          case isTrue => exact .refl _
          case isFalse =>
            rw [onPeerCorrupted]
            split
            case isTrue => exact Moves.keeps (moves_disconnect p _) q
            case isFalse => exact .refl _
      | _ => exact .refl _

/-- **A message closes connections and changes flags**: no other connection gets into another
state or loses what it has received. -/
theorem keeps_of_message (env : Env) (s : State T) (p : PeerId) (m : PeerMessage) (q : PeerId) :
    (s.connections q).Keeps ((step env s (.message p m)).connections q) :=
  (keeps_head env s p m q).trans (Moves.keeps (moves_step env s (.message p m)) q)

/-- **A message registers nobody.** -/
theorem isSome_lookup_of_message (hq : ((step env s (.message p m)).peers.lookup q).isSome) :
    (s.peers.lookup q).isSome := by
  -- whoever is registered after the moves of a step was so after its head
  have hhead : ((head env s (.message p m)).peers.lookup q).isSome :=
    Runs.preserved_chain
      (I := fun t => (t.peers.lookup q).isSome →
        ((head env s (.message p m)).peers.lookup q).isSome)
      (moves_step env s (.message p m)) (fun _ _ ht hm h => ht (hm.isSome_lookup h)) id hq
  -- to write the entry of a registered peer registers nobody
  have hins : ∀ {r : PeerId} {state state' : PeerState T}, s.peers.lookup r = some state →
      ((s.peers.insert r state').lookup q).isSome → (s.peers.lookup q).isSome := by
    intro r state state' hr hq'
    by_cases hqr : q = r
    · rw [hqr, hr]
      rfl
    · rwa [AList.lookup_insert_ne hqr] at hq'
  generalize hs' : head env s (.message p m) = s' at hhead
  have hspec := head_spec env s (.message p m)
  rw [hs'] at hspec
  cases hspec with
  | quiet _ _ _ hpeers => rwa [hpeers] at hhead
  | choke _ state _ hp _ hpeers => exact hins hp (hpeers ▸ hhead)
  | bitfield _ _ state _ _ hp _ hpeers => exact hins hp (hpeers ▸ hhead)
  | block _ idx c x state pm _ _ hp _ _ hpeers => exact hins hp (hpeers ▸ hhead)
  | completed _ idx c x state pm tr outcome _ _ hp _ _ _ _ _ hpeers =>
    exact hins hp (hpeers ▸ hhead)
  | corrupted _ idx c x state pm _ _ hp _ _ _ _ hpeers => exact hins hp (hpeers ▸ hhead)
  | banned _ idx c x state pm _ _ hp _ _ _ _ hpeers =>
    rw [hpeers] at hhead
    by_cases hqp : q = p
    · rw [hqp, hp]
      rfl
    · rw [AList.lookup_erase_ne hqp] at hhead
      exact hins hp hhead

end Coordinator

namespace Client

variable {T : Torrent} {env : Env} {maxConnections : ℕ} {w : State T} {p : PeerId}
  {h : HandshakeMsg} {infoHash : Vector UInt8 20}

/-- **The coordinator knows peers of one torrent only**: every peer it has registered has
had a handshake accepted, and every accepted handshake carries the info hash. -/
structure OwnTorrent (infoHash : Vector UInt8 20) (w : State T) : Prop where
  accepted : ∀ p, (w.coordinator.peers.lookup p).isSome → ∃ h, (p, h) ∈ w.handshakes
  own : ∀ p h, (p, h) ∈ w.handshakes → h.infoHash = infoHash

/-- The step accepts a handshake. -/
def Accepts (w : State T) (a : Input) (p : PeerId) (h : HandshakeMsg) : Prop :=
  a = .pass p ∧ p < w.created ∧ ∃ c, (w.connection p).rxPass = .ok (.handshake h c)

/-! ### Steps that register nobody -/

/-- No handshake is accepted, and nobody is registered. -/
structure RegistersNobody (w w' : State T) : Prop where
  handshakes_eq : w'.handshakes = w.handshakes
  isSome_lookup : ∀ q, (w'.coordinator.peers.lookup q).isSome →
    (w.coordinator.peers.lookup q).isSome

variable {w' w'' : State T}

theorem RegistersNobody.refl (w : State T) : RegistersNobody w w := ⟨rfl, fun _ h => h⟩

theorem RegistersNobody.trans (h : RegistersNobody w w') (h' : RegistersNobody w' w'') :
    RegistersNobody w w'' where
  handshakes_eq := h'.handshakes_eq.trans h.handshakes_eq
  isSome_lookup := fun q hq => h.isSome_lookup q (h'.isSome_lookup q hq)

theorem registersNobody_disconnect (p : PeerId) (w : State T) :
    RegistersNobody w (disconnect p w) := by
  rw [disconnect]
  split
  case isTrue => exact .refl w
  case isFalse hs =>
    refine ⟨rfl, fun q hq => ?_⟩
    have hq' : ((Coordinator.disconnect p w.coordinator).peers.lookup q).isSome := hq
    rw [Coordinator.disconnect, if_neg (by exact hs), Coordinator.lookup_unregisterPeer] at hq'
    split at hq'
    case isTrue => cases hq'
    case isFalse => exact hq'

theorem registersNobody_connect (p : PeerId) (w : State T) (status : ConnectStatus) :
    RegistersNobody w (connect p w status) := by
  cases status with
  | error => exact registersNobody_disconnect p w
  | unregistered => exact registersNobody_disconnect p w
  | inProgress => exact ⟨rfl, fun _ h => h⟩
  | connected sent =>
    have hset : RegistersNobody w
        (w.setConnection p { w.connection p with state := .handshaking }) := ⟨rfl, fun _ h => h⟩
    cases sent with
    | true => exact hset
    | false => exact hset.trans (registersNobody_disconnect p _)

theorem registersNobody_connectToPeer (maxConnections : ℕ) (w : State T) (a : Address)
    (status : ConnectStatus) :
    RegistersNobody w (connectToPeer maxConnections w a status) := by
  rw [connectToPeer]
  dsimp only
  split
  case isTrue => exact .refl w
  case isFalse =>
    split
    case isTrue => exact .refl w
    case isFalse =>
      split
      case isTrue => exact .refl w
      case isFalse =>
        have hres : RegistersNobody w (reserve a w) := ⟨rfl, fun _ h => h⟩
        exact hres.trans (registersNobody_connect _ _ status)

theorem registersNobody_addPeers (maxConnections : ℕ) (peers : List (Address × ConnectStatus))
    (w : State T) : RegistersNobody w (addPeers maxConnections peers w) := by
  induction peers generalizing w with
  | nil => exact .refl w
  | cons x peers ih =>
    rw [addPeers]
    split
    case isTrue => exact .refl w
    case isFalse =>
      split
      case isTrue => exact ih w
      case isFalse =>
        split
        case isTrue => exact ih w
        case isFalse => exact (registersNobody_connectToPeer _ w _ _).trans (ih _)

theorem registersNobody_blacklistPeer (a : Address) (w : State T) :
    RegistersNobody w (blacklistPeer a w) := by
  have hban : RegistersNobody w { w with blacklist := makePeerKey a :: w.blacklist } :=
    ⟨rfl, fun _ h => h⟩
  rw [blacklistPeer]
  dsimp only
  split
  case h_1 => exact hban
  case h_2 => exact hban.trans (registersNobody_disconnect _ _)

theorem registersNobody_established (p : PeerId) (ok : Bool) (w : State T) :
    RegistersNobody w (established p ok w) := by
  rw [established]
  split
  case isFalse => exact .refl w
  case isTrue =>
    cases ok with
    | true => exact ⟨rfl, fun _ h => h⟩
    | false => exact registersNobody_disconnect p w

/-! ### Steps that register a peer -/

/-- A handshake is accepted, and its peer registered. -/
structure Registers (p : PeerId) (h : HandshakeMsg) (w w' : State T) : Prop where
  handshakes_eq : w'.handshakes = (p, h) :: w.handshakes
  isSome_lookup : ∀ q, (w'.coordinator.peers.lookup q).isSome →
    q = p ∨ (w.coordinator.peers.lookup q).isSome

theorem registers_onHandshake (env : Env) (p : PeerId) (h : HandshakeMsg) (w : State T) :
    Registers p h w (onHandshake env p h w) := by
  refine ⟨rfl, fun q hq => ?_⟩
  obtain ⟨state, hstate⟩ := Option.isSome_iff_exists.mp hq
  have hlook : (Coordinator.registerPeer p w.coordinator).peers.lookup q = some state :=
    Coordinator.lookup_of_sendMessage hstate
  rw [Coordinator.registerPeer, Coordinator.State.lookup_setPeer] at hlook
  split at hlook
  case isTrue hqp => exact Or.inl hqp
  case isFalse => exact Or.inr (by rw [hlook]; rfl)

theorem pass_cases (env : Env) (p : PeerId) (w : State T) :
    (RegistersNobody w (pass env p w) ∧
        ∀ h c, (w.connection p).rxPass ≠ .ok (.handshake h c)) ∨
      ∃ h c, (w.connection p).rxPass = .ok (.handshake h c) ∧ Registers p h w (pass env p w) := by
  have hset : ∀ c, RegistersNobody w (w.setConnection p c) := fun _ => ⟨rfl, fun _ h => h⟩
  rw [pass]
  rcases hpass : (w.connection p).rxPass with _ | (c | c | ⟨h, c⟩ | ⟨_ | m, c⟩)
  · exact Or.inl ⟨.refl w, by simp⟩
  · exact Or.inl ⟨hset c, by simp⟩
  · exact Or.inl ⟨(hset c).trans (registersNobody_disconnect p _), by simp⟩
  · have hreg := registers_onHandshake env p h (w.setConnection p c)
    exact Or.inr ⟨h, c, rfl, hreg.handshakes_eq, hreg.isSome_lookup⟩
  · exact Or.inl ⟨hset c, by simp⟩
  · refine Or.inl ⟨⟨rfl, fun q hq => ?_⟩, by simp⟩
    exact Coordinator.isSome_lookup_of_message (s := w.coordinator.setConnection p c) hq

/-- **What a step does to the registered peers.** -/
theorem step_cases (env : Env) (maxConnections : ℕ) (w : State T) (a : Input) :
    (RegistersNobody w (step env maxConnections w a) ∧ ∀ p h, ¬Accepts w a p h) ∨
      ∃ p h, Accepts w a p h ∧ Registers p h w (step env maxConnections w a) := by
  cases a with
  | addPeers peers =>
    exact Or.inl ⟨registersNobody_addPeers maxConnections peers w, by rintro p h ⟨⟨⟩, -⟩⟩
  | connectToPeer a status =>
    exact Or.inl ⟨registersNobody_connectToPeer maxConnections w a status, by rintro p h ⟨⟨⟩, -⟩⟩
  | blacklistPeer a => exact Or.inl ⟨registersNobody_blacklistPeer a w, by rintro p h ⟨⟨⟩, -⟩⟩
  | established p ok =>
    refine Or.inl ⟨?_, by rintro p h ⟨⟨⟩, -⟩⟩
    rw [step]
    split
    case isTrue => exact registersNobody_established p ok w
    case isFalse => exact .refl w
  | received p bytes =>
    refine Or.inl ⟨?_, by rintro p h ⟨⟨⟩, -⟩⟩
    rw [step]
    split
    case isTrue =>
      rw [receive]
      dsimp only
      split
      case isTrue => exact ⟨rfl, fun _ h => h⟩
      case isFalse => exact .refl w
    case isFalse => exact .refl w
  | disconnect p =>
    refine Or.inl ⟨?_, by rintro p h ⟨⟨⟩, -⟩⟩
    rw [step]
    split
    case isTrue => exact registersNobody_disconnect p w
    case isFalse => exact .refl w
  | pass p =>
    rw [step]
    split
    case isFalse hp =>
      refine Or.inl ⟨.refl w, ?_⟩
      rintro q h ⟨ha, hq, -⟩
      cases ha
      exact hp hq
    case isTrue hp =>
      rcases pass_cases (wired env) p w with ⟨hnone, hno⟩ | ⟨h, c, hpass, hreg⟩
      · refine Or.inl ⟨hnone, ?_⟩
        rintro q h ⟨ha, -, c, hc⟩
        cases ha
        exact hno h c hc
      · exact Or.inr ⟨p, h, ⟨rfl, hp, c, hpass⟩, hreg⟩

/-- Every registered peer has had a handshake accepted. -/
def Accepted (w : State T) : Prop :=
  ∀ p, (w.coordinator.peers.lookup p).isSome → ∃ h, (p, h) ∈ w.handshakes

theorem Accepted.step (hw : Accepted w) (a : Input) : Accepted (step env maxConnections w a) := by
  intro q hq
  rcases step_cases env maxConnections w a with ⟨hnone, -⟩ | ⟨p, h, -, hreg⟩
  · rw [hnone.handshakes_eq]
    exact hw q (hnone.isSome_lookup q hq)
  · rw [hreg.handshakes_eq]
    rcases hreg.isSome_lookup q hq with rfl | hold
    · exact ⟨h, List.mem_cons_self⟩
    · obtain ⟨h', hh'⟩ := hw q hold
      exact ⟨h', List.mem_cons_of_mem _ hh'⟩

theorem accepted_run (env : Env) (maxConnections : ℕ) (disk : Disk) (l : List Input) :
    Accepted (l.foldl (step env maxConnections) (.init T disk)) := by
  have hreach : Runs.Reach (step env maxConnections) Runs.free (.init T disk) l
      (l.foldl (step env maxConnections) (.init T disk)) := Runs.reach_free l
  exact hreach.invariant nofun fun _ a hw _ => hw.step a

/-- One step. -/
theorem ownTorrent_step_iff (hw : Accepted w) (a : Input) :
    OwnTorrent infoHash (step env maxConnections w a) ↔
      OwnTorrent infoHash w ∧ ∀ p h, Accepts w a p h → h.infoHash = infoHash := by
  have hacc : Accepted (step env maxConnections w a) := hw.step a
  rcases step_cases env maxConnections w a with ⟨hnone, hno⟩ | ⟨p, h, ha, hreg⟩
  · constructor
    · intro hown
      exact ⟨⟨hw, fun q h' hh => hown.own q h' (hnone.handshakes_eq ▸ hh)⟩,
        fun q h' hc => absurd hc (hno q h')⟩
    · rintro ⟨hown, -⟩
      exact ⟨hacc, fun q h' hh => hown.own q h' (hnone.handshakes_eq ▸ hh)⟩
  · constructor
    · intro hown
      refine ⟨⟨hw, fun q h' hh => hown.own q h' ?_⟩, ?_⟩
      · rw [hreg.handshakes_eq]
        exact List.mem_cons_of_mem _ hh
      · -- a step accepts one handshake
        rintro q h' ⟨ha', -, c', hc'⟩
        obtain ⟨rfl, -, c, hc⟩ := ha
        cases ha'
        rw [hc] at hc'
        cases hc'
        exact hown.own p h (hreg.handshakes_eq ▸ List.mem_cons_self)
    · rintro ⟨hown, hall⟩
      refine ⟨hacc, fun q h' hh => ?_⟩
      rw [hreg.handshakes_eq] at hh
      rcases List.mem_cons.mp hh with heq | hh
      · cases heq
        exact hall p h ha
      · exact hown.own q h' hh

/-! ### What has been received -/

/-- **Until its handshake a connection drops nothing**: its buffer is what it has received. -/
structure Hears (w : State T) : Prop where
  /-- A connection that is not made yet has received nothing. -/
  fresh : ∀ p, w.created ≤ p → (w.connection p).rxBuffer = [] ∧ w.heard p = []
  /-- Neither has one that is connecting. -/
  connecting : ∀ p, (w.connection p).state = .connecting →
    (w.connection p).rxBuffer = [] ∧ w.heard p = []
  /-- One that waits for its handshake has it all in its buffer. -/
  handshaking : ∀ p, (w.connection p).state = .handshaking → (w.connection p).rxBuffer = w.heard p

theorem hears_init (disk : Disk) : Hears (.init T disk) where
  fresh := fun _ _ => ⟨rfl, rfl⟩
  connecting := nofun
  handshaking := nofun

/-- Connections may be closed, as long as the others stay where they are. -/
theorem Hears.keeps (hw : Hears w) (hcreated : w'.created = w.created) (hheard : w'.heard = w.heard)
    (hk : ∀ q, (w.connection q).Keeps (w'.connection q)) : Hears w' where
  fresh := by
    intro q hq
    rw [hheard]
    obtain ⟨hb, hh⟩ := hw.fresh q (hcreated ▸ hq)
    obtain ⟨-, hb'⟩ | ⟨-, hb'⟩ := hk q
    · exact ⟨hb', hh⟩
    · exact ⟨hb'.trans hb, hh⟩
  connecting := by
    intro q hq
    obtain ⟨hs, -⟩ | ⟨hs, hb⟩ := hk q
    · cases hs.symm.trans hq
    · rw [hheard, hb]
      exact hw.connecting q (hs.symm.trans hq)
  handshaking := by
    intro q hq
    obtain ⟨hs, -⟩ | ⟨hs, hb⟩ := hk q
    · cases hs.symm.trans hq
    · rw [hheard, hb]
      exact hw.handshaking q (hs.symm.trans hq)

/-- A connection changes that has been made, or is made now. -/
theorem Hears.setConnection (hw : Hears w) {x : PeerConnection}
    (hfresh : w.created ≤ p → x.rxBuffer = [])
    (hconnecting : x.state = .connecting → x.rxBuffer = [] ∧ w.heard p = [])
    (hhandshaking : x.state = .handshaking → x.rxBuffer = w.heard p) :
    Hears (w.setConnection p x) where
  fresh := by
    intro q hq
    rw [connection_setConnection]
    split
    case isTrue hqp => exact ⟨hfresh (hqp ▸ hq), (hw.fresh q hq).2⟩
    case isFalse => exact hw.fresh q hq
  connecting := by
    intro q hq
    rw [connection_setConnection] at hq ⊢
    split at hq
    case isTrue hqp =>
      rw [if_pos hqp, hqp]
      exact hconnecting hq
    case isFalse hqp =>
      rw [if_neg hqp]
      exact hw.connecting q hq
  handshaking := by
    intro q hq
    rw [connection_setConnection] at hq ⊢
    split at hq
    case isTrue hqp =>
      rw [if_pos hqp, hqp]
      exact hhandshaking hq
    case isFalse hqp =>
      rw [if_neg hqp]
      exact hw.handshaking q hq

/-- A change of a connection that has had its handshake. -/
theorem Hears.setActive (hw : Hears w) (hp : p < w.created) {x : PeerConnection}
    (hx : x.state = .active) : Hears (w.setConnection p x) :=
  hw.setConnection (fun hle => absurd hle (Nat.not_le_of_lt hp))
    (fun hc => nomatch hx.symm.trans hc) fun hc => nomatch hx.symm.trans hc

theorem keeps_disconnect (p : PeerId) (w : State T) (q : PeerId) :
    (w.connection q).Keeps ((disconnect p w).connection q) := by
  rw [disconnect]
  split
  case isTrue => exact .refl _
  case isFalse => exact Coordinator.Moves.keeps (Coordinator.moves_disconnect p w.coordinator) q

@[simp] theorem heard_disconnect : (disconnect p w).heard = w.heard := by
  rw [disconnect]
  split <;> rfl

theorem Hears.disconnect (hw : Hears w) (p : PeerId) : Hears (disconnect p w) :=
  hw.keeps created_disconnect heard_disconnect (keeps_disconnect p w)

/-- A connection without bytes goes on to its handshake. -/
theorem Hears.handshake (hw : Hears w)
    (hb : (w.connection p).rxBuffer = [] ∧ w.heard p = []) :
    Hears (w.setConnection p { w.connection p with state := .handshaking }) :=
  hw.setConnection (fun _ => hb.1) nofun fun _ => hb.1.trans hb.2.symm

theorem Hears.connect (hw : Hears w)
    (hb : (w.connection p).rxBuffer = [] ∧ w.heard p = []) (status : ConnectStatus) :
    Hears (connect p w status) := by
  cases status with
  | error => exact hw.disconnect p
  | unregistered => exact hw.disconnect p
  | inProgress => exact hw.setConnection (fun _ => hb.1) (fun _ => hb) nofun
  | connected sent =>
    cases sent with
    | true => exact hw.handshake hb
    | false => exact (hw.handshake hb).disconnect p

theorem Hears.connectToPeer (hw : Hears w) (maxConnections : ℕ) (a : Address)
    (status : ConnectStatus) : Hears (connectToPeer maxConnections w a status) := by
  rw [Client.connectToPeer]
  dsimp only
  split
  case isTrue => exact hw
  case isFalse =>
    split
    case isTrue => exact hw
    case isFalse =>
      split
      case isTrue => exact hw
      case isFalse =>
        have hres : Hears (reserve a w) :=
          ⟨fun q hq => hw.fresh q (Nat.le_of_succ_le hq), hw.connecting, hw.handshaking⟩
        exact hres.connect (hw.fresh w.created (Nat.le_refl _)) status

theorem Hears.addPeers (hw : Hears w) (maxConnections : ℕ)
    (peers : List (Address × ConnectStatus)) : Hears (addPeers maxConnections peers w) := by
  induction peers generalizing w with
  | nil => exact hw
  | cons x peers ih =>
    rw [Client.addPeers]
    split
    case isTrue => exact hw
    case isFalse =>
      split
      case isTrue => exact ih hw
      case isFalse =>
        split
        case isTrue => exact ih hw
        case isFalse => exact ih (hw.connectToPeer maxConnections _ _)

theorem Hears.blacklistPeer (hw : Hears w) (a : Address) : Hears (blacklistPeer a w) := by
  have hban : Hears { w with blacklist := makePeerKey a :: w.blacklist } :=
    ⟨hw.fresh, hw.connecting, hw.handshaking⟩
  rw [Client.blacklistPeer]
  dsimp only
  split
  case h_1 => exact hban
  case h_2 => exact hban.disconnect _

/-- What is received goes to the end of the buffer. -/
theorem Hears.receive (hw : Hears w) (hp : p < w.created) (bytes : List UInt8) :
    Hears (receive p bytes w) := by
  rw [Client.receive]
  dsimp only
  split
  case isFalse => exact hw
  case isTrue hopen =>
    refine ⟨fun q hq => ?_, fun q hq => ?_, fun q hq => ?_⟩
    · have hqp : q ≠ p := Nat.ne_of_gt (Nat.lt_of_lt_of_le hp hq)
      show ((w.setConnection p _).connection q).rxBuffer = [] ∧
        Function.update w.heard p (w.heard p ++ bytes) q = []
      rw [connection_setConnection, if_neg hqp, Function.update_of_ne hqp]
      exact hw.fresh q hq
    · have hq' : ((w.setConnection p { w.connection p with
          rxBuffer := (w.connection p).rxBuffer ++ bytes }).connection q).state = .connecting := hq
      rw [connection_setConnection] at hq'
      split at hq'
      case isTrue => rcases hopen with hs | hs <;> cases hs.symm.trans hq'
      case isFalse hqp =>
        show ((w.setConnection p _).connection q).rxBuffer = [] ∧
          Function.update w.heard p (w.heard p ++ bytes) q = []
        rw [connection_setConnection, if_neg hqp, Function.update_of_ne hqp]
        exact hw.connecting q hq'
    · have hq' : ((w.setConnection p { w.connection p with
          rxBuffer := (w.connection p).rxBuffer ++ bytes }).connection q).state = .handshaking := hq
      show ((w.setConnection p _).connection q).rxBuffer =
        Function.update w.heard p (w.heard p ++ bytes) q
      rw [connection_setConnection] at hq' ⊢
      split at hq'
      case isTrue hqp =>
        rw [if_pos hqp, hqp, Function.update_self, hw.handshaking p hq']
      case isFalse hqp =>
        rw [if_neg hqp, Function.update_of_ne hqp]
        exact hw.handshaking q hq'

theorem Hears.pass (hw : Hears w) (hp : p < w.created) : Hears (pass env p w) := by
  rw [Client.pass]
  split
  case h_1 => exact hw
  case h_2 c hpass =>
    -- a connection that waits keeps its buffer, and one that is connecting has none
    refine hw.setConnection (fun hle => absurd hle (Nat.not_le_of_lt hp)) ?_ ?_
    · intro hc
      cases PeerConnection.passes_of_rxPass hpass with
      | stop c hs _ =>
        obtain ⟨hb, hh⟩ := hw.connecting p (hs.symm.trans hc)
        rw [PeerConnection.rxPass, if_pos hb] at hpass
        cases hpass
        exact ⟨hb, hh⟩
    · intro hc
      cases PeerConnection.passes_of_rxPass hpass with
      | stop c hs hwait =>
        rw [(hwait (hs.symm.trans hc)).1]
        exact hw.handshaking p (hs.symm.trans hc)
  case h_3 c hpass =>
    cases PeerConnection.passes_of_rxPass hpass with
    | refuse hs _ _ =>
      have hset : Hears (w.setConnection p (w.connection p)) :=
        hw.setConnection (fun hle => absurd hle (Nat.not_le_of_lt hp)) (hw.connecting p)
          (hw.handshaking p)
      exact hset.disconnect p
  case h_4 h c hpass =>
    cases PeerConnection.passes_of_rxPass hpass with
    | handshake h hs _ _ =>
      have hset : Hears (w.setConnection p { w.connection p with
          rxBuffer := (w.connection p).rxBuffer.drop 68, state := .active }) := hw.setActive hp rfl
      refine hset.keeps rfl rfl fun q => ?_
      exact Coordinator.Moves.keeps
        (Coordinator.moves_sendMessage env (m := .interestedMsg) trivial) q
  case h_5 c hpass =>
    cases PeerConnection.passes_of_rxPass hpass with
    | frame _ c _ hc => exact hw.setActive hp hc
  case h_6 m c hpass =>
    cases PeerConnection.passes_of_rxPass hpass with
    | frame _ c _ hc =>
      exact (hw.setActive hp hc).keeps rfl rfl fun q =>
        Coordinator.keeps_of_message env (w.coordinator.setConnection p c) p m q

theorem Hears.step (hw : Hears w) (a : Input) : Hears (step env maxConnections w a) := by
  cases a with
  | addPeers peers => exact hw.addPeers maxConnections peers
  | connectToPeer a status => exact hw.connectToPeer maxConnections a status
  | blacklistPeer a => exact hw.blacklistPeer a
  | established p ok =>
    rw [Client.step]
    split
    case isFalse => exact hw
    case isTrue =>
      rw [Client.established]
      split
      case isFalse => exact hw
      case isTrue hs =>
        cases ok with
        | true => exact hw.handshake (hw.connecting p hs)
        | false => exact hw.disconnect p
  | received p bytes =>
    rw [Client.step]
    split
    case isFalse => exact hw
    case isTrue hp => exact hw.receive hp bytes
  | pass p =>
    rw [Client.step]
    split
    case isFalse => exact hw
    case isTrue hp => exact hw.pass hp
  | disconnect p =>
    rw [Client.step]
    split
    case isFalse => exact hw
    case isTrue => exact hw.disconnect p

theorem hears_run (env : Env) (maxConnections : ℕ) (disk : Disk) (l : List Input) :
    Hears (l.foldl (step env maxConnections) (.init T disk)) :=
  (Runs.reach_free l).invariant (hears_init disk) fun _ a hw _ => hw.step a

/-- **What is accepted** is the first 68 bytes received, if they spell a handshake. -/
theorem accepts_iff (hw : Hears w) {a : Input} : Accepts w a p h ↔
    a = .pass p ∧ p < w.created ∧ (w.connection p).state = .handshaking ∧
      (w.heard p).take 68 = h.serialize := by
  refine and_congr_right fun _ => and_congr_right fun _ => ?_
  constructor
  · rintro ⟨c, hpass⟩
    cases PeerConnection.passes_of_rxPass hpass with
    | handshake h hs hge hd =>
      rw [← hw.handshaking p hs]
      exact ⟨hs, (HandshakeMsg.deserialize_eq_some (List.length_take_of_le hge)).mp hd⟩
  · rintro ⟨hs, hh⟩
    rw [← hw.handshaking p hs] at hh
    have hge : 68 ≤ (w.connection p).rxBuffer.length := by
      have hlen := congrArg List.length hh
      rw [HandshakeMsg.length_serialize, List.length_take] at hlen
      omega
    exact ⟨_, PeerConnection.rxPass_accept hs hge
      ((HandshakeMsg.deserialize_eq_some (List.length_take_of_le hge)).mpr hh)⟩

/-- **No other torrent's handshake is looked at**: where a pass is made on a connection that waits
for its handshake, the first 68 bytes it has received are none with another info hash. -/
def HearsOwn (infoHash : Vector UInt8 20) (w : State T) (a : Input) : Prop :=
  ∀ p, a = .pass p → p < w.created → (w.connection p).state = .handshaking →
    ∀ h : HandshakeMsg, (w.heard p).take 68 = h.serialize → h.infoHash = infoHash

theorem hearsOwn_iff (hw : Hears w) {a : Input} :
    HearsOwn infoHash w a ↔ ∀ p h, Accepts w a p h → h.infoHash = infoHash := by
  simp only [HearsOwn, accepts_iff hw, and_imp]
  exact forall_congr' fun p =>
    ⟨fun hall h ha hp hs => hall ha hp hs h, fun hall ha hp hs h => hall h ha hp hs⟩

/-- **When the coordinator knows peers of one torrent only**: when no handshake for another
is received. -/
theorem ownTorrent_iff (infoHash : Vector UInt8 20) (env : Env) (maxConnections : ℕ) (disk : Disk)
    (l : List Input) :
    OwnTorrent infoHash (l.foldl (step env maxConnections) (.init T disk)) ↔
      Runs.Throughout (step env maxConnections) (.init T disk) l (HearsOwn infoHash) := by
  induction l using List.reverseRecOn with
  | nil => exact iff_of_true ⟨nofun, nofun⟩ (Runs.throughout_nil _)
  | append_singleton l a ih =>
    rw [Runs.throughout_snoc, List.foldl_append, List.foldl_cons, List.foldl_nil,
      ownTorrent_step_iff (accepted_run env maxConnections disk l), iff_iff_eq.mp ih,
      hearsOwn_iff (hears_run env maxConnections disk l)]

/-- **When a handshake is for the own torrent**, on one connection and in the whole program:
when the first 68 bytes received are none for another. -/
theorem ownHandshakes_iff (infoHash : Vector UInt8 20) :
    (∀ (callbacks : Callbacks) (chunks : List (List UInt8)),
      Receiver.AdmitsOwn infoHash chunks.flatten
          (chunks.foldl (Receiver.feed callbacks) Receiver.start) ↔
        ∀ h : HandshakeMsg, chunks.flatten.take 68 = h.serialize → h.infoHash = infoHash) ∧
    ∀ (T : Torrent) (env : Env) (maxConnections : ℕ) (disk : Disk) (l : List Input),
      OwnTorrent infoHash (l.foldl (step env maxConnections) (.init T disk)) ↔
        Runs.Throughout (step env maxConnections) (.init T disk) l (HearsOwn infoHash) :=
  ⟨fun callbacks chunks => Receiver.admitsOwn_iff infoHash callbacks chunks,
    fun _ env maxConnections disk l => ownTorrent_iff infoHash env maxConnections disk l⟩

/-- **A handshake for another torrent** is handed on, and its peer registered. -/
theorem not_ownHandshakes_blank :
    ¬Receiver.AdmitsOwn (Vector.replicate 20 1) HandshakeMsg.blank.serialize
        (Receiver.feed .quiet .start HandshakeMsg.blank.serialize) ∧
      ¬OwnTorrent (Vector.replicate 20 1)
        ((meet 0 .blank).foldl (step .calm 1) (.init .oneByte .oneByte)) := by
  constructor
  · intro h
    obtain ⟨h', hh', hinfo⟩ := h.of_active (Or.inl (by decide))
    rw [List.take_of_length_le (by rw [HandshakeMsg.length_serialize])] at hh'
    have heq := congrArg HandshakeMsg.deserialize hh'
    rw [HandshakeMsg.deserialize_serialize, HandshakeMsg.deserialize_serialize] at heq
    rw [← Option.some.inj heq] at hinfo
    exact absurd hinfo (by decide)
  · intro h
    exact absurd (h.own 0 .blank (by decide)) (by decide)

end Client

end TransferEngine
