import TransferEngine.Client.Model
import TransferEngine.Coordinator.Calm
import TransferEngine.Receiving.Reassembly

/-!
# The slots of the peer manager

`active_peers_` limits the number of connections and keeps an address from being connected
twice. A connection is to leave it when it is closed
(`TransferEngine.Client.SlotsFreed`). It does so as long as no connection is closed after
its handshake (`TransferEngine.Client.slotsFreed_of_spares`); one that is stays there for
good (`TransferEngine.Client.not_slotsFreed_afterHandshake`).
-/

namespace TransferEngine

namespace Client

variable {T : Torrent} {env : Env} {maxConnections : ℕ} {w w' : State T} {p q : PeerId}
  {key : Key} {a : Address}

/-- **Closed connections take up no slot.** -/
structure SlotsFreed (maxConnections : ℕ) (w : State T) : Prop where
  /-- No connection in `active_peers_` is closed. -/
  live : ∀ key p, w.activePeers.lookup key = some p → (w.connection p).state ≠ .disconnected
  /-- `active_connection_count` counts connections that are not closed. -/
  count : w.activeConnectionCount = w.activePeers.entries.countP fun e =>
    (w.connection e.2).state ≠ .disconnected
  /-- An address that is not blacklisted and has no open connection can be connected. -/
  reconnects : ∀ a status, w.isBlacklisted (makePeerKey a) = false →
    (∀ p < w.created, w.key p = makePeerKey a → (w.connection p).state = .disconnected) →
    w.activeConnectionCount < maxConnections →
    (connectToPeer maxConnections w a status).created = w.created + 1
  /-- No blacklisted key is in `active_peers_`. -/
  blacklisted : ∀ key, w.isBlacklisted key = true → w.activePeers.lookup key = none

/-- **The step closes no connection after its handshake**: it is not told to, and no bad
piece is completed. -/
def Spares (env : Env) (w : State T) : Input → Prop
  | .disconnect p => w.registered p = false
  | .blacklistPeer a => ∀ p, w.activePeers.lookup (makePeerKey a) = some p → w.registered p = false
  | .pass p => ∀ m c, (w.connection p).rxPass = .ok (.frame (some m) c) →
    Coordinator.NoBadPiece (wired env) (w.coordinator.setConnection p c) (.message p m)
  | _ => True

/-- **The invariant**: the connections in `active_peers_` are open, and those that are
registered are active. -/
structure Slots (w : State T) : Prop where
  created : ∀ key p, w.activePeers.lookup key = some p → p < w.created ∧ w.key p = key
  live : ∀ key p, w.activePeers.lookup key = some p → (w.connection p).state ≠ .disconnected
  fresh : ∀ p, w.created ≤ p → (w.connection p).state = .idle
  active : ∀ p, w.registered p = true → (w.connection p).state = .active
  blacklisted : ∀ key, key ∈ w.blacklist → w.activePeers.lookup key = none
  trusted : ∀ p, .peerCorrupted p ∉ w.coordinator.trace

theorem slots_init (disk : Disk) : Slots (.init T disk) where
  created := nofun
  live := nofun
  fresh := fun _ _ => rfl
  active := nofun
  blacklisted := nofun
  trusted := nofun

/-- The corrupted peers are those reported. -/
theorem mem_corrupted : p ∈ w.corrupted ↔ .peerCorrupted p ∈ w.coordinator.trace := by
  rw [State.corrupted, List.mem_filterMap]
  constructor
  · rintro ⟨e, he, hp⟩
    cases e <;> cases hp
    exact he
  · exact fun h => ⟨_, h, rfl⟩

theorem Slots.isBlacklisted_iff (h : Slots w) : w.isBlacklisted key = true ↔ key ∈ w.blacklist := by
  have hnil : w.corrupted = [] := by
    rw [List.eq_nil_iff_forall_not_mem]
    exact fun p hp => h.trusted p (mem_corrupted.mp hp)
  simp [State.isBlacklisted, hnil]

/-! ### Closing and connecting -/

@[simp] theorem created_disconnect : (disconnect p w).created = w.created := by
  rw [disconnect]
  split <;> rfl

@[simp] theorem created_connect {status : ConnectStatus} :
    (connect p w status).created = w.created := by
  cases status with
  | error => exact created_disconnect
  | unregistered => exact created_disconnect
  | inProgress => rfl
  | connected sent =>
    cases sent with
    | true => rfl
    | false => exact created_disconnect

theorem connection_setConnection {x : PeerConnection} :
    (w.setConnection p x).connection q = if q = p then x else w.connection q :=
  Coordinator.State.connections_setConnection

/-- Closing a connection changes no other one. -/
theorem connection_disconnect_ne (h : q ≠ p) : (disconnect p w).connection q = w.connection q := by
  rw [disconnect]
  split
  case isTrue => rfl
  case isFalse hs =>
    show (Coordinator.disconnect p w.coordinator).connections q = _
    rw [Coordinator.disconnect, if_neg (by exact hs), Coordinator.connections_unregisterPeer,
      Coordinator.State.connections_setConnection, if_neg h]
    rfl

/-- **Closing a connection before its handshake** frees its slot. -/
theorem Slots.disconnect (h : Slots w) (hp : p < w.created) (hr : w.registered p = false) :
    Slots (disconnect p w) := by
  by_cases hs : (w.connection p).state = .disconnected
  · rwa [Client.disconnect, if_pos hs]
  -- a slot that is still taken is that of another connection
  have hlook : ∀ key q, (Client.disconnect p w).activePeers.lookup key = some q →
      w.activePeers.lookup key = some q ∧ q ≠ p := by
    intro key q hq
    rw [Client.disconnect, if_neg hs] at hq
    simp only [hr, Bool.false_eq_true, if_false] at hq
    obtain ⟨hk, hold⟩ := AList.of_lookup_erase hq
    refine ⟨hold, ?_⟩
    rintro rfl
    exact hk (h.created key q hold).2.symm
  have hkey : ∀ q, (Client.disconnect p w).key q = w.key q := by
    intro q
    rw [Client.disconnect, if_neg hs]
    rfl
  have hreg : (Client.disconnect p w).registered = w.registered := by
    rw [Client.disconnect, if_neg hs]
  have htrace : (Client.disconnect p w).coordinator.trace = w.coordinator.trace := by
    rw [Client.disconnect, if_neg hs]
    exact Coordinator.trace_disconnect p w.coordinator
  refine ⟨?_, ?_, ?_, ?_, ?_, ?_⟩
  · intro key q hq
    rw [created_disconnect, hkey]
    exact h.created key q (hlook key q hq).1
  · intro key q hq
    rw [connection_disconnect_ne (hlook key q hq).2]
    exact h.live key q (hlook key q hq).1
  · intro q hq
    rw [created_disconnect] at hq
    rw [connection_disconnect_ne (Nat.ne_of_gt (Nat.lt_of_lt_of_le hp hq))]
    exact h.fresh q hq
  · intro q hq
    rw [hreg] at hq
    have hne : q ≠ p := by
      rintro rfl
      rw [hr] at hq
      cases hq
    rw [connection_disconnect_ne hne]
    exact h.active q hq
  · intro key hb
    rw [Option.eq_none_iff_forall_ne_some]
    intro q hq
    have hb' : key ∈ w.blacklist := by
      rw [Client.disconnect, if_neg hs] at hb
      exact hb
    have := h.blacklisted key hb'
    rw [(hlook key q hq).1] at this
    cases this
  · intro q hq
    rw [htrace] at hq
    exact h.trusted q hq

/-- Changing an existing connection, without closing it. -/
theorem Slots.setConnection (h : Slots w) (hp : p < w.created) {x : PeerConnection}
    (hlive : (w.connection p).state ≠ .disconnected → x.state ≠ .disconnected)
    (hact : w.registered p = true → x.state = .active) : Slots (w.setConnection p x) where
  created := h.created
  live := by
    intro key q hq
    rw [connection_setConnection]
    split
    case isTrue hqp => exact hlive (hqp ▸ h.live key q hq)
    case isFalse => exact h.live key q hq
  fresh := by
    intro q hq
    rw [connection_setConnection, if_neg (Nat.ne_of_gt (Nat.lt_of_lt_of_le hp hq))]
    exact h.fresh q hq
  active := by
    intro q hq
    rw [connection_setConnection]
    split
    case isTrue hqp => exact hact (hqp ▸ hq)
    case isFalse => exact h.active q hq
  blacklisted := h.blacklisted
  trusted := h.trusted

/-- Whatever the coordinator does, as long as it closes no connection and reports no peer. -/
theorem Slots.coordinator (h : Slots w) {s : Coordinator.State T}
    (hs : Coordinator.SameStates w.coordinator s)
    (htr : ∀ q, .peerCorrupted q ∈ s.trace → .peerCorrupted q ∈ w.coordinator.trace) :
    Slots { w with coordinator := s } where
  created := h.created
  live := fun key q hq hd => h.live key q hq ((hs q).symm.trans hd)
  fresh := fun q hq => (hs q).trans (h.fresh q hq)
  active := fun q hq => (hs q).trans (h.active q hq)
  blacklisted := h.blacklisted
  trusted := fun q hq => h.trusted q (htr q hq)

/-- The program with a slot for a new connection. -/
def reserve (a : Address) (w : State T) : State T :=
  { w with
    activePeers := w.activePeers.insert (makePeerKey a) w.created
    created := w.created + 1
    address := Function.update w.address w.created a }

/-- **A new connection takes a slot.** -/
theorem Slots.reserve (h : Slots w) (hb : makePeerKey a ∉ w.blacklist) : Slots (reserve a w) := by
  have hlook : ∀ key q, (Client.reserve a w).activePeers.lookup key = some q →
      (key = makePeerKey a ∧ q = w.created) ∨ w.activePeers.lookup key = some q := by
    intro key q hq
    exact (AList.of_lookup_insert hq).imp_right And.right
  have hkey : ∀ q, q < w.created → (Client.reserve a w).key q = w.key q := by
    intro q hq
    show makePeerKey (Function.update w.address w.created a q) = _
    rw [Function.update_of_ne (Nat.ne_of_lt hq)]
    rfl
  refine ⟨?_, ?_, ?_, ?_, ?_, ?_⟩
  · intro key q hq
    rcases hlook key q hq with ⟨rfl, rfl⟩ | hold
    · refine ⟨Nat.lt_succ_self _, ?_⟩
      show makePeerKey (Function.update w.address w.created a w.created) = _
      rw [Function.update_self]
    · obtain ⟨hlt, hq'⟩ := h.created key q hold
      exact ⟨Nat.lt_succ_of_lt hlt, (hkey q hlt).trans hq'⟩
  · intro key q hq
    rcases hlook key q hq with ⟨rfl, rfl⟩ | hold
    -- a connection that was not made yet is in `Idle`
    · show (w.connection w.created).state ≠ _
      rw [h.fresh w.created (Nat.le_refl _)]
      exact nofun
    · exact h.live key q hold
  · exact fun q hq => h.fresh q (Nat.le_of_succ_le hq)
  · exact h.active
  · intro key hbl
    rw [Option.eq_none_iff_forall_ne_some]
    intro q hq
    rcases hlook key q hq with ⟨rfl, -⟩ | hold
    · exact hb hbl
    · have := h.blacklisted key hbl
      rw [hold] at this
      cases this
  · exact h.trusted

/-- A connection that has not been registered, as long as it is not active. -/
theorem Slots.unregistered (h : Slots w) (hs : (w.connection p).state ≠ .active) :
    w.registered p = false := by
  by_contra hr
  exact hs (h.active p (by simpa using hr))

/-- Connecting a new connection, which may fail at once. -/
theorem Slots.connect (h : Slots w) (hp : p < w.created) (hs : (w.connection p).state = .idle)
    (status : ConnectStatus) : Slots (connect p w status) := by
  have hr : w.registered p = false := h.unregistered (by rw [hs]; exact nofun)
  have hreg : ∀ st : ConnectionState, w.registered p = true → st = .active := by
    intro st hc
    rw [hr] at hc
    cases hc
  cases status with
  | error => exact h.disconnect hp hr
  | unregistered => exact h.disconnect hp hr
  | inProgress => exact h.setConnection hp (fun _ => nofun) (hreg _)
  | connected sent =>
    have hset : Slots (w.setConnection p { w.connection p with state := .handshaking }) :=
      h.setConnection hp (fun _ => nofun) (hreg _)
    cases sent with
    | true => exact hset
    | false => exact hset.disconnect hp hr

theorem Slots.connectToPeer (h : Slots w) (maxConnections : ℕ) (a : Address)
    (status : ConnectStatus) : Slots (connectToPeer maxConnections w a status) := by
  rw [Client.connectToPeer]
  dsimp only
  split
  case isTrue => exact h
  case isFalse =>
    split
    case isTrue => exact h
    case isFalse hb =>
      split
      case isTrue => exact h
      case isFalse =>
        have hres : Slots (Client.reserve a w) :=
          h.reserve fun hc => hb (h.isBlacklisted_iff.mpr hc)
        exact hres.connect (Nat.lt_succ_self _) (h.fresh _ (Nat.le_refl _)) status

theorem Slots.addPeers (h : Slots w) (maxConnections : ℕ) (peers : List (Address × ConnectStatus)) :
    Slots (addPeers maxConnections peers w) := by
  induction peers generalizing w with
  | nil => exact h
  | cons x peers ih =>
    rw [Client.addPeers]
    split
    case isTrue => exact h
    case isFalse =>
      split
      case isTrue => exact ih h
      case isFalse =>
        split
        case isTrue => exact ih h
        case isFalse => exact ih (h.connectToPeer maxConnections _ _)

/-- A key that no connection has is blacklisted. -/
theorem Slots.ban (h : Slots w) (hk : w.activePeers.lookup key = none) :
    Slots { w with blacklist := key :: w.blacklist } where
  created := h.created
  live := h.live
  fresh := h.fresh
  active := h.active
  blacklisted := by
    intro key' hb
    rcases List.mem_cons.mp hb with rfl | hb
    · exact hk
    · exact h.blacklisted key' hb
  trusted := h.trusted

/-- Blacklisting a key whose connection, if there is one, is not registered. -/
theorem Slots.blacklistPeer (h : Slots w)
    (hr : ∀ p, w.activePeers.lookup (makePeerKey a) = some p → w.registered p = false) :
    Slots (blacklistPeer a w) := by
  rw [Client.blacklistPeer]
  dsimp only
  split
  case h_1 hnone => exact h.ban hnone
  case h_2 p hp =>
    -- closing the connection and noting the key can be done in either order
    have hcomm : Client.disconnect p { w with blacklist := makePeerKey a :: w.blacklist } =
        { Client.disconnect p w with
          blacklist := makePeerKey a :: (Client.disconnect p w).blacklist } := by
      rw [Client.disconnect, if_neg (by exact h.live _ p hp), Client.disconnect.eq_def p w,
        if_neg (h.live _ p hp)]
      rfl
    obtain ⟨hlt, hkey⟩ := h.created _ p hp
    have hgone : (Client.disconnect p w).activePeers.lookup (makePeerKey a) = none := by
      rw [Client.disconnect, if_neg (h.live _ p hp)]
      simp only [hr p hp, Bool.false_eq_true, if_false, hkey, AList.lookup_erase]
    rw [hcomm]
    exact (h.disconnect hlt (hr p hp)).ban hgone

/-! ### Passes -/

/-- A handshake is accepted. -/
theorem Slots.onHandshake (henv : env.NoSendFails) (h : Slots w)
    (hs : (w.connection p).state = .active) (hm : HandshakeMsg) :
    Slots (onHandshake env p hm w) := by
  -- registering and sending Interested leave every connection in its state
  have hsame : Coordinator.SameStates w.coordinator (Coordinator.sendMessage env p .interestedMsg
      (Coordinator.registerPeer p w.coordinator)) := by
    have hreg : Coordinator.SameStates w.coordinator (Coordinator.registerPeer p w.coordinator) :=
      Coordinator.sameStates_of_eq rfl
    exact hreg.trans (Coordinator.sameStates_sendMessage henv p _ _)
  have htrace : ∀ q, .peerCorrupted q ∈ (Coordinator.sendMessage env p .interestedMsg
      (Coordinator.registerPeer p w.coordinator)).trace →
      .peerCorrupted q ∈ w.coordinator.trace := by
    intro q hq
    rcases Coordinator.sendMessage_cases env p .interestedMsg
      (Coordinator.registerPeer p w.coordinator) with ⟨-, he⟩ | ⟨-, he | ⟨-, he⟩⟩
    · rwa [he] at hq
    · rw [he] at hq
      simpa [Coordinator.registerPeer] using hq
    · rw [he, Coordinator.trace_disconnect] at hq
      simpa [Coordinator.registerPeer] using hq
  have hco := h.coordinator hsame htrace
  refine ⟨hco.created, hco.live, hco.fresh, ?_, hco.blacklisted, hco.trusted⟩
  intro q hq
  by_cases hqp : q = p
  · rw [hqp]
    exact (hsame p).trans hs
  · refine hco.active q ?_
    have hq' : Function.update w.registered p true q = true := hq
    rwa [Function.update_of_ne hqp] at hq'

theorem noSendFails_wired (henv : env.NoSendFails) : (wired env).NoSendFails := henv

/-- **A pass of the receive loop.** -/
theorem Slots.pass (henv : env.NoSendFails) (h : Slots w) (hp : p < w.created)
    (hsp : Spares env w (.pass p)) : Slots (pass (wired env) p w) := by
  rw [Client.pass]
  split
  case h_1 => exact h
  case h_2 c hpass =>
    cases PeerConnection.passes_of_rxPass hpass with
    | stop c hc _ =>
      exact h.setConnection hp (fun hl => hc ▸ hl) fun hr => hc.trans (h.active p hr)
  case h_3 c hpass =>
    cases PeerConnection.passes_of_rxPass hpass with
    | refuse hs _ _ =>
      -- a handshake that is refused is that of a connection not registered yet
      have hr : w.registered p = false := h.unregistered (by rw [hs]; exact nofun)
      exact (h.setConnection hp (fun hl => hl) (h.active p)).disconnect hp hr
  case h_4 hm c hpass =>
    cases PeerConnection.passes_of_rxPass hpass with
    | handshake hm hs _ _ =>
      refine Slots.onHandshake (noSendFails_wired henv)
        (h.setConnection hp (fun _ hc => by cases hc) fun _ => rfl) ?_ hm
      rw [connection_setConnection, if_pos rfl]
  case h_5 c hpass =>
    cases PeerConnection.passes_of_rxPass hpass with
    | frame _ c _ hc =>
      exact h.setConnection hp (fun _ => by rw [hc]; exact nofun) fun _ => hc
  case h_6 m c hpass =>
    cases PeerConnection.passes_of_rxPass hpass with
    | frame _ c _ hc =>
      have hset : Slots (w.setConnection p c) :=
        h.setConnection hp (fun _ => by rw [hc]; exact nofun) fun _ => hc
      -- no block completes a bad piece, so no peer is thrown out
      have hbad := hsp m c hpass
      exact hset.coordinator
        (Coordinator.sameStates_message (noSendFails_wired henv) rfl hbad)
        fun q hq => Coordinator.peerCorrupted_of_mem_message rfl hbad hq

/-! ### Runs -/

/-- **The invariant gives what is asked of the slots.** -/
theorem Slots.slotsFreed (h : Slots w) : SlotsFreed maxConnections w where
  live := h.live
  count := by
    rw [State.activeConnectionCount, eq_comm, AList.keys, List.keys, List.length_map,
      List.countP_eq_length]
    rintro ⟨key, p⟩ he
    exact decide_eq_true (h.live key p (AList.mem_lookup_iff.mpr he))
  reconnects := by
    intro a status hb hclosed hroom
    have hnone : w.activePeers.lookup (makePeerKey a) = none := by
      rw [Option.eq_none_iff_forall_ne_some]
      intro p hp
      obtain ⟨hlt, hkey⟩ := h.created _ p hp
      exact h.live _ p hp (hclosed p hlt hkey)
    rw [Client.connectToPeer, if_neg (by omega), hb, if_neg (by simp), hnone, if_neg (by simp)]
    exact created_connect
  blacklisted := fun key hb => h.blacklisted key (h.isBlacklisted_iff.mp hb)

theorem Slots.step (henv : env.NoSendFails) (h : Slots w) {a : Input} (ha : Spares env w a) :
    Slots (step env maxConnections w a) := by
  cases a with
  | addPeers peers => exact h.addPeers maxConnections peers
  | connectToPeer a status => exact h.connectToPeer maxConnections a status
  | blacklistPeer a => exact h.blacklistPeer ha
  | established p ok =>
    rw [Client.step]
    split
    case isFalse => exact h
    case isTrue hp =>
      rw [Client.established]
      split
      case isFalse => exact h
      case isTrue hs =>
        have hr : w.registered p = false := h.unregistered (by rw [hs]; exact nofun)
        cases ok with
        | true =>
          refine h.setConnection hp (fun _ => nofun) fun hc => ?_
          rw [hr] at hc
          cases hc
        | false => exact h.disconnect hp hr
  | received p bytes =>
    rw [Client.step]
    split
    case isFalse => exact h
    case isTrue hp =>
      rw [Client.receive]
      dsimp only
      split
      case isFalse => exact h
      case isTrue =>
        have hset := h.setConnection hp
          (x := { w.connection p with rxBuffer := (w.connection p).rxBuffer ++ bytes })
          (fun hl => hl) (h.active p)
        exact ⟨hset.created, hset.live, hset.fresh, hset.active, hset.blacklisted, hset.trusted⟩
  | pass p =>
    rw [Client.step]
    split
    case isFalse => exact h
    case isTrue hp => exact Slots.pass henv h hp ha
  | disconnect p =>
    rw [Client.step]
    split
    case isFalse => exact h
    case isTrue hp => exact h.disconnect hp ha

/-- **Closed connections take up no slot**, in every run in which no connection is closed
after its handshake. -/
theorem slotsFreed_of_spares (henv : env.NoSendFails) (maxConnections : ℕ) {disk : Disk}
    {l : List Input} {w : State T}
    (h : Runs.Reach (step env maxConnections) (Spares env) (.init T disk) l w) :
    SlotsFreed maxConnections w :=
  (h.invariant (slots_init disk) fun _ _ hw ha => hw.step henv ha).slotsFreed

/-- A peer on the same machine. -/
def localPeer : Address := ⟨[0x31, 0x32, 0x37, 0x2e, 0x30, 0x2e, 0x30, 0x2e, 0x31], 6881⟩

/-- A peer is connected, and its handshake received and accepted. -/
def meet (p : PeerId) (h : HandshakeMsg) : List Input :=
  [.connectToPeer localPeer .inProgress, .established p true, .received p h.serialize, .pass p]

/-- The slot of a connection that fails is taken by the next, which is registered. -/
theorem slotsFreed_of_spares_meet :
    let l := Input.connectToPeer localPeer .inProgress :: .established 0 false :: meet 1 .blank
    let w := l.foldl (step .calm 1) (.init .oneByte .oneByte)
    SlotsFreed 1 w ∧ w.activePeers.lookup (makePeerKey localPeer) = some 1 ∧
      w.registered 1 = true := by
  refine ⟨slotsFreed_of_spares (fun _ _ _ => rfl) 1 (Runs.reach_iff.mpr ⟨rfl, ?_⟩),
    by decide, by decide⟩
  simp only [meet, Runs.throughout_cons]
  refine ⟨trivial, trivial, trivial, trivial, trivial, ?_, Runs.throughout_nil _⟩
  intro m c hpass
  cases PeerConnection.passes_of_rxPass hpass with
  | frame _ c hs _ => exact absurd hs (by decide)

/-- **A connection that is closed after its handshake** stays in `active_peers_`. -/
theorem not_slotsFreed_afterHandshake :
    ¬SlotsFreed 1 ((meet 0 .blank ++ [Input.disconnect 0]).foldl (step .calm 1)
      (.init .oneByte .oneByte)) := by
  intro h
  exact h.live (makePeerKey localPeer) 0 (by decide) (by decide)

end Client

end TransferEngine
