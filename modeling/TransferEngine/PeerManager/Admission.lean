import TransferEngine.PeerManager.Model

/-!
# Whom the peer manager connects to

A connection that is not closed stands in `active_peers_` under its key. That is all there is to
it (`TransferEngine.PeerManager.Inv`): two open connections with one key would be one, there are
no more of them than entries, and an entry whose key is blacklisted is closed. An entry is taken
out in one place, at the end of the manager's `on_disconnect` callback; by then the connection is
closed, and since no other can be made under the key while the entry is there, the entry is still
its own.

A connection whose callback was replaced stays in the map when it is closed. It then keeps its
address from being connected again, which is a loss and no danger.
-/

namespace TransferEngine

namespace PeerManager

open Client (Key makePeerKey)

variable {maxConnections : ℕ} {w w' : State} {p q : ℕ} {a : Address} {k : Key}
  {status : Client.ConnectStatus}

/-! ### Keys -/

/-- The keys that are about to be taken out of `active_peers_`. -/
def erasing (todo : List Task) : List Key :=
  todo.filterMap fun
    | .erase k => some k
    | _ => none

/-- **What every step keeps.** -/
structure Inv (maxConnections : ℕ) (w : State) : Prop where
  /-- An open connection stands in the map. -/
  live : ∀ p < w.created, (w.peer p).state ≠ .disconnected →
    w.activePeers.lookup (w.key p) = some p
  /-- What stands in the map was made. -/
  made : ∀ k p, w.activePeers.lookup k = some p → p < w.created
  /-- There is room for what stands in the map. -/
  room : w.activeConnectionCount ≤ maxConnections
  /-- What is about to be taken out is closed. -/
  closed : ∀ k ∈ erasing w.todo, ∃ p, w.activePeers.lookup k = some p ∧
    (w.peer p).state = .disconnected
  /-- Nothing is taken out twice. -/
  once : (erasing w.todo).Nodup
  /-- A connection whose key is blacklisted is closed. -/
  barred : ∀ p < w.created, w.key p ∈ w.blacklist → (w.peer p).state = .disconnected
  /-- Only connections that were made are worked on. -/
  known : ∀ p, .connect p ∈ w.todo ∨ .interested p ∈ w.todo → p < w.created

theorem inv_new : Inv maxConnections {} where
  live := by simp
  made := by simp
  room := Nat.zero_le _
  closed := by simp [erasing]
  once := List.nodup_nil
  barred := by simp
  known := by simp

theorem peer_setState {σ : ConnectionState} :
    (w.setState p σ).peer q = if q = p then { w.peer p with state := σ } else w.peer q :=
  Function.update_apply w.peer p _ q

/-- Replacing the callback of a connection changes neither addresses nor states. -/
theorem update_managed (peer : ℕ → Peer) (p q : ℕ) :
    (Function.update peer p { peer p with managed := false } q).address = (peer q).address ∧
      (Function.update peer p { peer p with managed := false } q).state = (peer q).state := by
  rw [Function.update_apply]
  split
  case isTrue h => exact h ▸ ⟨rfl, rfl⟩
  case isFalse => exact ⟨rfl, rfl⟩

@[simp] theorem todo_setState {σ : ConnectionState} : (w.setState p σ).todo = w.todo := rfl

@[simp] theorem key_setState {σ : ConnectionState} : (w.setState p σ).key q = w.key q := by
  rw [State.key, peer_setState]
  split
  case isTrue h => rw [h, State.key]
  case isFalse => rfl

/-! ### Closing a connection -/

@[simp] theorem state_disconnect : ((disconnect p w).peer p).state = .disconnected := by
  rw [disconnect]
  split
  case isTrue h => exact h
  case isFalse =>
    dsimp only
    rw [peer_setState, if_pos rfl]

@[simp] theorem activePeers_disconnect : (disconnect p w).activePeers = w.activePeers := by
  rw [disconnect]
  split <;> rfl

@[simp] theorem created_disconnect : (disconnect p w).created = w.created := by
  rw [disconnect]
  split <;> rfl

@[simp] theorem blacklist_disconnect : (disconnect p w).blacklist = w.blacklist := by
  rw [disconnect]
  split <;> rfl

@[simp] theorem key_disconnect : (disconnect p w).key q = w.key q := by
  rw [disconnect]
  split
  case isTrue => rfl
  case isFalse => exact key_setState

/-- Closing a connection and adding to the blacklist may be exchanged. -/
theorem disconnect_blacklist (blacklist : List Key) :
    disconnect p { w with blacklist } = { disconnect p w with blacklist } := by
  rw [disconnect, disconnect]
  split <;> rfl

/-! ### Making a connection -/

/-- The state in which a new connection is about to be started. -/
def reserve (a : Address) (w : State) : State :=
  { w with
    activePeers := w.activePeers.insert (makePeerKey a) w.created
    created := w.created + 1
    peer := Function.update w.peer w.created { address := a }
    todo := .connect w.created :: w.todo }

theorem peer_reserve (h : q < w.created) : (reserve a w).peer q = w.peer q :=
  Function.update_of_ne h.ne _ _

theorem key_reserve (h : q < w.created) : (reserve a w).key q = w.key q := by
  rw [State.key, peer_reserve h, State.key]

theorem key_reserve_self : (reserve a w).key w.created = makePeerKey a := by
  simp [State.key, reserve]

/-- **What `connect_to_peer` does**: nothing, or it makes a connection under a key that is free
and not blacklisted, if there is room. -/
theorem connectToPeer_cases (maxConnections : ℕ) (a : Address) (w : State) :
    connectToPeer maxConnections a w = w ∨
      (w.activeConnectionCount < maxConnections ∧ makePeerKey a ∉ w.blacklist ∧
        w.activePeers.lookup (makePeerKey a) = none ∧
        connectToPeer maxConnections a w = reserve a w) := by
  rw [connectToPeer]
  split
  case isTrue => exact Or.inl rfl
  case isFalse hroom =>
    split
    case isTrue => exact Or.inl rfl
    case isFalse hb =>
      split
      case isTrue => exact Or.inl rfl
      case isFalse hfree =>
        exact Or.inr ⟨Nat.not_le.mp hroom, by simpa [State.isBlacklisted] using hb,
          by simpa using hfree, rfl⟩

namespace Inv

/-- Other things may be under way, as long as the same is taken out of the map. -/
theorem withTodo (h : Inv maxConnections w) {todo : List Task}
    (herase : (erasing todo).Sublist (erasing w.todo))
    (hknown : ∀ p, .connect p ∈ todo ∨ .interested p ∈ todo → p < w.created) :
    Inv maxConnections { w with todo } :=
  { h with
    closed := fun k hk => h.closed k (herase.subset hk)
    once := h.once.sublist herase
    known := hknown }

theorem tail (h : Inv maxConnections w) : Inv maxConnections { w with todo := w.todo.tail } :=
  h.withTodo ((List.tail_sublist w.todo).filterMap _) fun p hp =>
    h.known p (hp.imp List.mem_of_mem_tail List.mem_of_mem_tail)

/-- The connections may move on, as long as what is closed stays so. -/
theorem withPeer (h : Inv maxConnections w) {peer : ℕ → Peer}
    (haddress : ∀ q, (peer q).address = (w.peer q).address)
    (hclosed : ∀ q, (w.peer q).state = .disconnected → (peer q).state = .disconnected) :
    Inv maxConnections { w with peer } := by
  have hkey : ∀ q, State.key { w with peer } q = w.key q := by
    intro q
    rw [State.key, State.key]
    exact congrArg makePeerKey (haddress q)
  refine { h with live := ?_, closed := ?_, barred := ?_ }
  · intro q hq hlive
    rw [hkey]
    exact h.live q hq fun hc => hlive (hclosed q hc)
  · intro k hk
    obtain ⟨q, hq, hc⟩ := h.closed k hk
    exact ⟨q, hq, hclosed q hc⟩
  · intro q hq hmem
    rw [hkey] at hmem
    exact hclosed q (h.barred q hq hmem)

/-- A connection that is open may move on. -/
theorem setState (h : Inv maxConnections w) (hs : (w.peer p).state ≠ .disconnected)
    (σ : ConnectionState) : Inv maxConnections (w.setState p σ) := by
  refine h.withPeer (fun q => ?_) (fun q hq => ?_)
  · rw [Function.update_apply]
    split
    case isTrue hqp => rw [hqp]
    case isFalse => rfl
  · rw [Function.update_of_ne, hq]
    rintro rfl
    exact hs hq

/-- **Closing a connection**, whichever callback it has. -/
theorem disconnect (h : Inv maxConnections w) (hp : p < w.created) :
    Inv maxConnections (disconnect p w) := by
  rw [PeerManager.disconnect]
  split
  case isTrue => exact h
  case isFalse hs =>
    have hentry := h.live p hp hs
    -- an open connection is not about to be taken out of the map
    have hnew : w.key p ∉ erasing w.todo := by
      intro hmem
      obtain ⟨q, hq, hqs⟩ := h.closed _ hmem
      obtain rfl : p = q := Option.some.inj (hentry.symm.trans hq)
      exact hs hqs
    have hmid := h.setState hs .disconnected
    dsimp only
    split
    case isTrue =>
      refine { hmid with closed := ?_, once := ?_, known := ?_ }
      · intro k hk
        rcases List.mem_cons.mp hk with rfl | hk
        · refine ⟨p, ?_, by rw [peer_setState, if_pos rfl]⟩
          rw [key_setState]
          exact hentry
        · exact hmid.closed k hk
      · refine List.nodup_cons.mpr ⟨?_, h.once⟩
        rw [key_setState]
        exact hnew
      · exact fun q hq => h.known q (by simpa using hq)
    -- the callback of the manager was replaced: the entry stays
    case isFalse =>
      exact hmid.withTodo (List.Sublist.refl _) fun q hq => h.known q (by simpa using hq)

/-- **Making a connection** under a key that is free. -/
theorem reserve (h : Inv maxConnections w) (hroom : w.activeConnectionCount < maxConnections)
    (hb : makePeerKey a ∉ w.blacklist) (hfree : w.activePeers.lookup (makePeerKey a) = none) :
    Inv maxConnections (reserve a w) := by
  have htaken : ∀ k q, w.activePeers.lookup k = some q →
      (PeerManager.reserve a w).activePeers.lookup k = some q := by
    intro k q hq
    have hne : k ≠ makePeerKey a := by
      rintro rfl
      rw [hfree] at hq
      cases hq
    rw [← hq]
    exact AList.lookup_insert_ne hne
  refine ⟨?_, ?_, ?_, ?_, h.once, ?_, ?_⟩
  · intro q hq hlive
    rcases Nat.lt_succ_iff_lt_or_eq.mp hq with hlt | rfl
    · rw [peer_reserve hlt] at hlive
      rw [key_reserve hlt]
      exact htaken _ q (h.live q hlt hlive)
    · rw [key_reserve_self]
      exact AList.lookup_insert _
  · intro k q hq
    rcases AList.of_lookup_insert hq with ⟨-, rfl⟩ | ⟨-, hold⟩
    · exact Nat.lt_succ_self _
    · exact (h.made k q hold).trans (Nat.lt_succ_self _)
  · have hcount : (PeerManager.reserve a w).activeConnectionCount = w.activeConnectionCount + 1 :=
      AList.length_keys_insert.trans (congrArg (· + 1) (AList.length_keys_erase_of_none hfree))
    rw [hcount]
    exact hroom
  · intro k hk
    obtain ⟨q, hq, hclosed⟩ := h.closed k hk
    exact ⟨q, htaken k q hq, by rw [peer_reserve (h.made k q hq), hclosed]⟩
  · intro q hq hmem
    rcases Nat.lt_succ_iff_lt_or_eq.mp hq with hlt | rfl
    · rw [key_reserve hlt] at hmem
      rw [peer_reserve hlt]
      exact h.barred q hlt hmem
    · rw [key_reserve_self] at hmem
      exact absurd hmem hb
  · intro q hq
    have hq' : q = w.created ∨ (.connect q ∈ w.todo ∨ .interested q ∈ w.todo) := by
      simpa [PeerManager.reserve, or_assoc] using hq
    rcases hq' with rfl | hq'
    · exact Nat.lt_succ_self _
    · exact (h.known q hq').trans (Nat.lt_succ_self _)

theorem connectToPeer (h : Inv maxConnections w) (a : Address) :
    Inv maxConnections (connectToPeer maxConnections a w) := by
  rcases connectToPeer_cases maxConnections a w with he | ⟨hroom, hb, hfree, he⟩
  · rw [he]
    exact h
  · rw [he]
    exact h.reserve hroom hb hfree

theorem addPeersRound (h : Inv maxConnections w) (peers : List Address) :
    Inv maxConnections (addPeersRound maxConnections peers w) := by
  have hnext : ∀ peers', Inv maxConnections { w with todo := .addPeers peers' :: w.todo } :=
    fun peers' => h.withTodo (List.Sublist.refl _) fun p hp => h.known p (by simpa using hp)
  cases peers with
  | nil => exact h
  | cons a peers' =>
    rw [PeerManager.addPeersRound]
    split
    case isTrue => exact h
    case isFalse =>
      split
      case isTrue => exact hnext peers'
      case isFalse =>
        split
        case isTrue => exact hnext peers'
        case isFalse => exact (hnext peers').connectToPeer a

/-- **Taking a closed connection out of the map.** -/
theorem erase (h : Inv maxConnections w) {rest : List Task} (htodo : w.todo = .erase k :: rest) :
    Inv maxConnections { w with activePeers := w.activePeers.erase k, todo := rest } := by
  have hmem : k ∈ erasing w.todo := by simp [htodo, erasing]
  have honce : k ∉ erasing rest ∧ (erasing rest).Nodup := by
    have := h.once
    rw [htodo] at this
    exact List.nodup_cons.mp this
  have hkept : ∀ k' p, k' ≠ k → w.activePeers.lookup k' = some p →
      (w.activePeers.erase k).lookup k' = some p := by
    intro k' p hne hp
    rw [AList.lookup_erase_ne hne, hp]
  obtain ⟨p₀, hp₀, hclosed₀⟩ := h.closed k hmem
  have hsub : ∀ k', k' ∈ erasing rest → k' ∈ erasing w.todo := by
    intro k' hk'
    rw [htodo]
    exact List.mem_cons_of_mem _ hk'
  refine ⟨?_, ?_, ?_, ?_, honce.2, h.barred, ?_⟩
  · intro p hp hlive
    have hentry := h.live p hp hlive
    refine hkept _ p (fun hkey => ?_) hentry
    -- the entry of the key is closed, so it is not this one
    have hkey' : w.key p = k := hkey
    rw [hkey', hp₀] at hentry
    obtain rfl : p₀ = p := Option.some.inj hentry
    exact hlive hclosed₀
  · exact fun k' p hp => h.made k' p (AList.of_lookup_erase hp).2
  · have hlen := AList.length_keys_of_lookup hp₀
    have hroom := h.room
    rw [State.activeConnectionCount] at hroom ⊢
    dsimp only
    omega
  · intro k' hk'
    obtain ⟨p, hp, hclosed⟩ := h.closed k' (hsub k' hk')
    refine ⟨p, hkept k' p ?_ hp, hclosed⟩
    rintro rfl
    exact honce.1 hk'
  · intro p hp
    refine h.known p ?_
    rw [htodo]
    exact hp.imp (List.mem_cons_of_mem _) (List.mem_cons_of_mem _)

/-- **Blacklisting** an address closes its connection. -/
theorem blacklistPeer (h : Inv maxConnections w) (a : Address) :
    Inv maxConnections (blacklistPeer a w) := by
  rw [PeerManager.blacklistPeer]
  dsimp only
  split
  case h_1 hfree =>
    refine { h with barred := fun p hp hmem => ?_ }
    rcases List.mem_cons.mp hmem with hkey | hmem
    · by_contra hlive
      have hentry := h.live p hp hlive
      have hkey' : w.key p = makePeerKey a := hkey
      rw [hkey', hfree] at hentry
      cases hentry
    · exact h.barred p hp hmem
  case h_2 q hq =>
    -- the source blacklists first and disconnects then; it comes to the same
    have hclosed := h.disconnect (h.made _ q hq)
    rw [disconnect_blacklist]
    refine { hclosed with barred := fun p hp hmem => ?_ }
    by_contra hlive
    rcases List.mem_cons.mp hmem with hkey | hmem
    · -- the entry of the key was just closed
      have hentry := hclosed.live p hp hlive
      have hkey' : (PeerManager.disconnect q w).key p = makePeerKey a := hkey
      rw [hkey', activePeers_disconnect, hq] at hentry
      obtain rfl : q = p := Option.some.inj hentry
      exact hlive state_disconnect
    · exact hlive (hclosed.barred p hp (by rwa [blacklist_disconnect]))

theorem connect (h : Inv maxConnections w) (hp : p < w.created) (status : Client.ConnectStatus) :
    Inv maxConnections (connect p status w) := by
  by_cases hidle : (w.peer p).state = .idle
  · have hs : (w.peer p).state ≠ .disconnected := by
      rw [hidle]
      simp
    rw [PeerManager.connect.eq_def, if_neg (not_not.mpr hidle)]
    cases status with
    | error => exact h.disconnect hp
    | unregistered => exact h.disconnect hp
    | inProgress => exact h.setState hs _
    | connected sent =>
      cases sent with
      | true => exact h.setState hs _
      | false => exact (h.setState hs _).disconnect hp
  · rw [PeerManager.connect.eq_def, if_pos hidle]
    exact h

theorem work (h : Inv maxConnections w) (status : Client.ConnectStatus) (sent : Bool) :
    Inv maxConnections (work maxConnections status sent w) := by
  rw [PeerManager.work]
  dsimp only
  split
  case h_1 peers _ _ => exact h.tail.addPeersRound peers
  case h_2 p rest htodo =>
    exact h.tail.connect (h.known p (Or.inl (by simp [htodo]))) status
  case h_3 p rest htodo =>
    split
    case isTrue => exact h.tail
    case isFalse => exact h.tail.disconnect (h.known p (Or.inr (by simp [htodo])))
  case h_4 k rest htodo =>
    rw [htodo, List.tail_cons]
    exact h.erase htodo
  case h_5 => exact h

/-- **One step.** -/
theorem step (h : Inv maxConnections w) {a : Input} (ha : Enabled w a) :
    Inv maxConnections (step maxConnections w a) := by
  cases a with
  | addPeers peers =>
    exact h.withTodo (List.Sublist.refl _) fun p hp => h.known p (by simpa using hp)
  | connectToPeer a => exact h.connectToPeer a
  | blacklistPeer a => exact h.blacklistPeer a
  | onDisconnect p =>
    exact h.withPeer (fun q => (update_managed w.peer p q).1)
      fun q hq => (update_managed w.peer p q).2.trans hq
  | disconnect p => exact h.disconnect ha.2
  | established p sent =>
    obtain ⟨-, hp, hs⟩ := ha
    have hmid := h.setState (p := p) (by rw [hs]; simp) .handshaking
    rw [PeerManager.step]
    split
    case isTrue => exact hmid
    case isFalse => exact hmid.disconnect hp
  | handshake p =>
    obtain ⟨-, hp, hs⟩ := ha
    have hmid := h.setState (p := p) (by rw [hs]; simp) .active
    refine hmid.withTodo (List.Sublist.refl _) fun q hq => ?_
    have hq' : q = p ∨ (.connect q ∈ w.todo ∨ .interested q ∈ w.todo) := by
      rcases hq with hq | hq
      · exact Or.inr (Or.inl (by simpa using hq))
      · rcases List.mem_cons.mp hq with hq | hq
        · cases hq
        · rcases List.mem_cons.mp hq with hq | hq
          · exact Or.inl (Task.interested.inj hq)
          · exact Or.inr (Or.inr hq)
    rcases hq' with rfl | hq'
    · exact hp
    · exact h.known q hq'
  | returns => exact h.tail
  | work status sent => exact h.work status sent

end Inv

/-! ### Connections that are made -/

/-- **What a step makes**: connections keep their keys, and none is made under a key that was
blacklisted. -/
structure Grows (w w' : State) : Prop where
  /-- No connection is forgotten. -/
  created : w.created ≤ w'.created
  /-- No key leaves the blacklist. -/
  blacklist : ∀ k ∈ w.blacklist, k ∈ w'.blacklist
  /-- A connection keeps its key. -/
  old : ∀ p < w.created, w'.key p = w.key p
  /-- No new connection has a blacklisted key. -/
  new : ∀ p, w.created ≤ p → p < w'.created → w'.key p ∉ w.blacklist

namespace Grows

theorem of_eq (hc : w'.created = w.created) (hb : ∀ k ∈ w.blacklist, k ∈ w'.blacklist)
    (hk : ∀ p, w'.key p = w.key p) : Grows w w' where
  created := hc.ge
  blacklist := hb
  old := fun p _ => hk p
  new := fun _ hle hlt => absurd (hc ▸ hlt) (Nat.not_lt.mpr hle)

theorem refl (w : State) : Grows w w := .of_eq rfl (fun _ h => h) fun _ => rfl

theorem trans {w'' : State} (h : Grows w w') (h' : Grows w' w'') : Grows w w'' where
  created := h.created.trans h'.created
  blacklist := fun k hk => h'.blacklist k (h.blacklist k hk)
  old := fun p hp => (h'.old p (hp.trans_le h.created)).trans (h.old p hp)
  new := by
    intro p hle hlt
    rcases Nat.lt_or_ge p w'.created with hp | hp
    · rw [h'.old p hp]
      exact h.new p hle hp
    · exact fun hmem => h'.new p hp hlt (h.blacklist _ hmem)

theorem disconnect (p : ℕ) (w : State) : Grows w (disconnect p w) :=
  .of_eq created_disconnect (by simp) fun _ => key_disconnect

theorem setState (p : ℕ) (σ : ConnectionState) (w : State) : Grows w (w.setState p σ) :=
  .of_eq rfl (fun _ h => h) fun _ => key_setState

theorem connectToPeer (a : Address) (w : State) : Grows w (connectToPeer maxConnections a w) := by
  rcases connectToPeer_cases maxConnections a w with he | ⟨-, hb, -, he⟩
  · rw [he]
    exact refl w
  · rw [he]
    refine ⟨Nat.le_succ _, fun k hk => hk, fun p hp => key_reserve hp, fun p hle hlt => ?_⟩
    obtain rfl : p = w.created := Nat.le_antisymm (Nat.lt_succ_iff.mp hlt) hle
    rw [key_reserve_self]
    exact hb

theorem addPeersRound (peers : List Address) (w : State) :
    Grows w (addPeersRound maxConnections peers w) := by
  have hnext : ∀ peers', Grows w { w with todo := .addPeers peers' :: w.todo } :=
    fun peers' => .of_eq rfl (fun _ h => h) fun _ => rfl
  cases peers with
  | nil => exact refl w
  | cons a peers' =>
    rw [PeerManager.addPeersRound]
    split
    case isTrue => exact refl w
    case isFalse =>
      split
      case isTrue => exact hnext peers'
      case isFalse =>
        split
        case isTrue => exact hnext peers'
        case isFalse => exact (hnext peers').trans (connectToPeer a _)

theorem blacklistPeer (a : Address) (w : State) : Grows w (blacklistPeer a w) := by
  have hadd : Grows w { w with blacklist := makePeerKey a :: w.blacklist } :=
    .of_eq rfl (fun k hk => List.mem_cons_of_mem _ hk) fun _ => rfl
  rw [PeerManager.blacklistPeer]
  dsimp only
  split
  case h_1 => exact hadd
  case h_2 q _ => exact hadd.trans (disconnect q _)

theorem connect (p : ℕ) (status : Client.ConnectStatus) (w : State) :
    Grows w (connect p status w) := by
  rw [PeerManager.connect.eq_def]
  split
  case isTrue => exact refl w
  case isFalse =>
    cases status with
    | error => exact disconnect p w
    | unregistered => exact disconnect p w
    | inProgress => exact setState p _ w
    | connected sent =>
      cases sent with
      | true => exact setState p _ w
      | false => exact (setState p _ w).trans (disconnect p _)

theorem work (status : Client.ConnectStatus) (sent : Bool) (w : State) :
    Grows w (work maxConnections status sent w) := by
  have htail : Grows w { w with todo := w.todo.tail } := .of_eq rfl (fun _ h => h) fun _ => rfl
  rw [PeerManager.work]
  dsimp only
  split
  case h_1 peers _ _ => exact htail.trans (addPeersRound peers _)
  case h_2 p _ _ => exact htail.trans (connect p status _)
  case h_3 p _ _ =>
    split
    case isTrue => exact htail
    case isFalse => exact htail.trans (disconnect p _)
  case h_4 => exact .of_eq rfl (fun _ h => h) fun _ => rfl
  case h_5 => exact refl w

theorem step (w : State) (a : Input) : Grows w (step maxConnections w a) := by
  cases a with
  | addPeers peers => exact .of_eq rfl (fun _ h => h) fun _ => rfl
  | connectToPeer a => exact connectToPeer a w
  | blacklistPeer a => exact blacklistPeer a w
  | onDisconnect p =>
    exact .of_eq rfl (fun _ h => h) fun q => congrArg makePeerKey (update_managed w.peer p q).1
  | disconnect p => exact disconnect p w
  | established p sent =>
    rw [PeerManager.step]
    split
    case isTrue => exact setState p _ w
    case isFalse => exact (setState p _ w).trans (disconnect p _)
  | handshake p => exact (setState p .active w).trans (.of_eq rfl (fun _ h => h) fun _ => rfl)
  | returns => exact .of_eq rfl (fun _ h => h) fun _ => rfl
  | work status sent => exact work status sent w

end Grows

/-! ### Whole runs -/

theorem Inv.bounded (h : Inv maxConnections w) :
    (List.range w.created).countP w.live ≤ maxConnections := by
  have hlive : ∀ p ∈ (List.range w.created).filter w.live,
      w.activePeers.lookup (w.key p) = some p := by
    intro p hp
    obtain ⟨hlt, hs⟩ := List.mem_filter.mp hp
    exact h.live p (List.mem_range.mp hlt) (by simpa [State.live] using hs)
  have hnodup : (((List.range w.created).filter w.live).map w.key).Nodup := by
    refine List.Nodup.map_on (fun p hp q hq hkey => ?_) (List.nodup_range.filter _)
    have hp' := hlive p hp
    rw [hkey, hlive q hq] at hp'
    exact (Option.some.inj hp').symm
  have hsub : ((List.range w.created).filter w.live).map w.key ⊆ w.activePeers.keys := by
    intro k hk
    obtain ⟨p, hp, rfl⟩ := List.mem_map.mp hk
    exact AList.mem_keys.mp (AList.lookup_isSome.mp (by rw [hlive p hp]; rfl))
  calc (List.range w.created).countP w.live
      = (((List.range w.created).filter w.live).map w.key).length := by
        rw [List.length_map, List.countP_eq_length_filter]
    _ ≤ w.activePeers.keys.length := (hnodup.subperm hsub).length_le
    _ ≤ maxConnections := h.room

end PeerManager

end TransferEngine
