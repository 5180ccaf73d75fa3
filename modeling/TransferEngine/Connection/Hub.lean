import TransferEngine.Connection.Lifecycle
import TransferEngine.EventLoop.Descriptors

/-!
# Connections on one event loop

Any number of connections with their sockets on one event loop (`TransferEngine.Hub`). A
connection gets a socket when it connects, and registers it; it unregisters and closes it when it
disconnects; and whenever it has tried to write, it tells the loop whether it waits to write more.
The kernel gives out the numbers of sockets, and uses them again.

Between a connection and its socket nothing gets out of step
(`TransferEngine.Hub.sockets_kept`): no socket is shared, leaked or closed twice, the loop has a
callback for those that are open and for no others, and it is asked to watch for a socket that can
be written to exactly when the connection waits for that. Nor does the loop call a connection that
has none, which is what the runs of a single connection take for granted
(`TransferEngine.Endpoint.Enabled`).
-/

namespace TransferEngine

open Descriptors

/-- The events a connection asks for when it registers its socket. -/
def allEvents : UInt32 := epollIn ||| epollOut ||| epollRdhup ||| epollErr ||| epollHup

namespace Endpoint

/-- The events that `update_epoll_interests` asks for. -/
def interests (c : Endpoint) : UInt32 :=
  let events := epollIn ||| epollRdhup ||| epollErr ||| epollHup
  if c.txBuffer ≠ [] ∨ c.connection.state = .connecting then events ||| epollOut else events

/-- What `handle_events` makes of the events, with what `getsockopt` reports. -/
def readiness (events : UInt32) (socketError : Bool) : Readiness where
  failure := events &&& (epollErr ||| epollHup) ≠ 0
  rdhup := events &&& epollRdhup ≠ 0
  readable := events &&& epollIn ≠ 0
  writable := events &&& epollOut ≠ 0
  socketError := socketError

end Endpoint

/-- **Connections on one event loop.** -/
structure Hub where
  /-- The connections, by a number of ours. -/
  conns : ℕ → Endpoint := fun _ => {}
  /-- The sockets of the connections, -1 for none. -/
  fds : ℕ → ℤ := fun _ => -1
  /-- What the kernel and the loop know of sockets. A callback is the connection it calls. -/
  descriptors : Descriptors ℕ := {}
  /-- The events whose turn is still to come. -/
  pending : List (ℤ × UInt32) := []

namespace Hub

/-- Another state of a connection. -/
def setConn (x : Hub) (i : ℕ) (c : Endpoint) : Hub :=
  { x with conns := Function.update x.conns i c }

/-- `update_epoll_interests`. -/
def updateEpollInterests (x : Hub) (i : ℕ) : Hub :=
  let c := x.conns i
  if c.connection.state = .disconnected ∨ c.connection.state = .idle then x
  else { x with descriptors := (x.descriptors.modifyFd (x.fds i) c.interests).2 }

/-- What `disconnect` does with the socket. -/
def closeSocket (x : Hub) (i : ℕ) : Hub :=
  { x with
    descriptors := (x.descriptors.unregisterFd (x.fds i)).2.closeFd (x.fds i)
    fds := Function.update x.fds i (-1) }

variable (infoHash ourPeerId : Vector UInt8 20)

/-- A connection goes on, in any way but connecting. -/
def act (x : Hub) (i : ℕ) (a : Endpoint.Input) : Hub :=
  let c := x.conns i
  let c' := c.step infoHash ourPeerId a
  let x := x.setConn i c'
  if c.registered ∧ c'.registered = false then x.closeSocket i
  else
    match a with
    | .handleWrite _ => x.updateEpollInterests i
    | _ => x

/-- `connect`: what `connect_async` comes to, the socket and whether it is connected already, and
whether the kernel grants a place in the epoll instance. Where it is connected already,
`handle_write` is called first, and leaves nothing for `update_epoll_interests` to do. -/
def connect (x : Hub) (i : ℕ) (outcome : Option (ℤ × Bool)) (granted : Bool) : Hub :=
  let c := x.conns i
  if c.connection.state ≠ .idle then x
  else
    match outcome with
    | none => x.setConn i (c.connect infoHash ourPeerId .error false)
    | some (fd, connected) =>
      let status := if connected then .connected else .inProgress
      let (regOk, d) := (x.descriptors.openFd fd).registerFd granted fd allEvents (some i)
      let x := x.setConn i (c.connect infoHash ourPeerId status regOk)
      if regOk then
        let x := { x with descriptors := d, fds := Function.update x.fds i fd }
        if connected then x else x.updateEpollInterests i
      else { x with descriptors := d.closeFd fd }

/-- What can happen next. -/
inductive Input
  /-- A connection connects. -/
  | connect (i : ℕ) (outcome : Option (ℤ × Bool)) (granted : Bool)
  /-- A connection goes on. -/
  | act (i : ℕ) (a : Endpoint.Input)
  /-- `epoll_wait` returns events. -/
  | epollWait (reported : List (ℤ × UInt32))
  /-- The loop takes up the next event. -/
  | dispatch (socketError : Bool)

/-- **One step.** -/
def step (x : Hub) : Input → Hub
  | .connect i outcome granted => x.connect infoHash ourPeerId i outcome granted
  | .act i a => x.act infoHash ourPeerId i a
  | .epollWait reported => { x with pending := reported }
  | .dispatch socketError =>
    match x.pending with
    | [] => x
    | (fd, events) :: pending =>
      let x := { x with pending }
      match x.descriptors.fdCallbacks.lookup fd with
      | none => x
      | some i => x.act infoHash ourPeerId i (.events (Endpoint.readiness events socketError))

/-- An input that is not one of the loop, and not a call of `connect`. -/
def IsOwn : Endpoint.Input → Prop
  | .connect _ _ | .events _ => False
  | .disconnect | .sendMessage _ | .returns | .handleRead _ | .rxStep | .handleWrite _ => True

/-- **What can happen** where the connections stand. The loop takes up an event when nothing of the
connection it calls is under way; that the connection has a socket is not asked. -/
def Enabled (x : Hub) : Input → Prop
  | .connect i outcome _ =>
    (x.conns i).InCaller ∧ ∀ p ∈ outcome, 0 ≤ p.1 ∧ p.1 ∉ x.descriptors.opened
  | .act i a => (x.conns i).Enabled a ∧ IsOwn a
  | .epollWait reported => x.pending = [] ∧ ∀ p ∈ reported, p.1 ∈ x.descriptors.interest
  | .dispatch _ => ∀ p ∈ x.pending.head?, ∀ i ∈ x.descriptors.fdCallbacks.lookup p.1,
      (x.conns i).todo = []

instance : (a : Endpoint.Input) → Decidable (IsOwn a)
  | .connect _ _ | .events _ => inferInstanceAs (Decidable False)
  | .disconnect | .sendMessage _ | .returns | .handleRead _ | .rxStep | .handleWrite _ =>
    inferInstanceAs (Decidable True)

instance (c : Endpoint) : Decidable c.InCaller := inferInstanceAs (Decidable (_ ∨ _))

instance (x : Hub) : (a : Input) → Decidable (Enabled x a)
  | .connect _ _ _ => inferInstanceAs (Decidable (_ ∧ _))
  | .act _ _ => inferInstanceAs (Decidable (_ ∧ _))
  | .epollWait _ => inferInstanceAs (Decidable (_ ∧ _))
  | .dispatch _ => inferInstanceAs (Decidable (∀ p ∈ _, ∀ i ∈ _, _))

/-- **A run** from connections that are all new. -/
abbrev Run (infoHash ourPeerId : Vector UInt8 20) : List Input → Hub → Prop :=
  Runs.Reach (step infoHash ourPeerId) Enabled {}

end Hub

/-! ### One connection -/

namespace Endpoint

variable {c c' : Endpoint} {infoHash ourPeerId : Vector UInt8 20} {a : Input}

/-- **What a step means for the socket**, unless it connects or writes: the socket is kept or given
up, and what the connection waits for does not change, or it is about to write. -/
structure Tends (c c' : Endpoint) : Prop where
  registered_or : c'.registered = c.registered ∨ c'.registered = false
  interests_or : c'.registered = true →
    .handleWrite ∈ c'.todo ∨ (c'.interests = c.interests ∧ .handleWrite ∉ c.todo)

/-- The socket and what is to be sent stay as they are. -/
theorem Tends.of_eq (hr : c'.registered = c.registered) (hi : c'.interests = c.interests)
    (ht : .handleWrite ∈ c.todo → .handleWrite ∈ c'.todo) : Tends c c' :=
  ⟨Or.inl hr, fun _ => (em (.handleWrite ∈ c.todo)).imp ht fun hno => ⟨hi, hno⟩⟩

/-- The socket is given up. -/
theorem Tends.of_closed (hr : c'.registered = false) : Tends c c' :=
  ⟨Or.inr hr, fun h => absurd (hr.symm.trans h) Bool.false_ne_true⟩

/-- The connection is about to write. -/
theorem Tends.of_writing (hr : c'.registered = c.registered) (ht : .handleWrite ∈ c'.todo) :
    Tends c c' :=
  ⟨Or.inl hr, fun _ => Or.inl ht⟩

theorem tends_disconnect (hr : c'.registered = c.registered) (hi : c'.interests = c.interests)
    (ht : .handleWrite ∈ c.todo → .handleWrite ∈ c'.todo) : Tends c c'.disconnect := by
  rw [disconnect]
  split
  case isTrue => exact .of_eq hr hi ht
  case isFalse => exact .of_closed rfl

theorem tends_sendMessage (hidle : c.connection.state = .idle → c.registered = false)
    (m : PeerMessage) : Tends c (c.sendMessage m) := by
  rcases sendMessage_cases c m with ⟨-, he⟩ | ⟨-, -, he⟩ | ⟨hs, bytes, -, he⟩ <;> rw [he]
  · exact .of_eq rfl rfl id
  · exact .of_eq rfl (by simp [interests, push]) (by simp [push])
  · by_cases htalk : c.connection.state = .handshaking ∨ c.connection.state = .active
    · exact .of_writing rfl (by simp [htalk])
    · by_cases hi : c.connection.state = .idle
      · exact .of_closed (hidle hi)
      · -- while connecting the connection waits for the socket to be writable anyway
        have hcon : c.connection.state = .connecting := by
          cases h : c.connection.state <;> simp_all
        exact .of_eq rfl (by simp [interests, hcon]) (by simp [htalk])

theorem tends_handleEvents (e : Readiness) : Tends c (c.handleEvents infoHash ourPeerId e) := by
  rw [handleEvents]
  split
  case isTrue => exact tends_disconnect rfl rfl id
  case isFalse =>
    split
    case isTrue => exact tends_disconnect rfl rfl id
    case isFalse =>
      split
      case isTrue =>
        split
        case isTrue => exact tends_disconnect rfl rfl id
        case isFalse => exact .of_writing rfl (by simp [sendHandshake, enter, queue, push])
      case isFalse => exact .of_eq rfl rfl fun h => List.mem_append_right _ h

theorem tends_handleRead (answers : List Recv) : Tends c (c.handleRead answers) := by
  rw [handleRead]
  dsimp only
  split
  case h_1 => exact tends_disconnect rfl rfl id
  case h_2 => exact tends_disconnect rfl rfl id
  case h_3 => exact .of_eq rfl rfl fun h => List.mem_cons_of_mem _ h

theorem tends_rxStep : Tends c c.rxStep := by
  rw [rxStep]
  rcases hpass : c.connection.rxPass with e | pass
  · exact .of_eq rfl rfl fun h => List.mem_cons_of_mem _ h
  cases PeerConnection.passes_of_rxPass hpass with
  | stop conn hstate _ => exact .of_eq rfl (by simp only [interests, hstate]) id
  | refuse _ _ _ => exact tends_disconnect rfl rfl id
  | handshake m hstate _ _ =>
    refine .of_eq rfl ?_ fun h => List.mem_cons_of_mem _ (List.mem_cons_of_mem _ h)
    simp [interests, call, push, enter, hstate]
  | frame m conn hstate hstate' =>
    cases m with
    | none =>
      exact .of_eq rfl (by simp [interests, push, hstate, hstate']) fun h =>
        List.mem_cons_of_mem _ h
    | some m =>
      exact .of_eq rfl (by simp [interests, call, push, hstate, hstate']) fun h =>
        List.mem_cons_of_mem _ (List.mem_cons_of_mem _ h)

/-- What is done next is under way no more. -/
theorem Tends.of_tail (h : Tends { c with todo := c.todo.tail } c') {t : Task}
    (ht : c.todo.head? = some t) (hne : t ≠ .handleWrite) : Tends c c' := by
  refine ⟨h.registered_or, fun hr => (h.interests_or hr).imp_right fun ⟨hi, hno⟩ => ⟨hi, ?_⟩⟩
  have hcons : c.todo = t :: c.todo.tail := List.eq_cons_of_mem_head? ht
  rw [hcons, List.mem_cons, not_or]
  exact ⟨hne.symm, hno⟩

/-- **One step but `connect` and `handle_write`.** -/
theorem step_tends (hidle : c.connection.state = .idle → c.registered = false)
    (ha : Enabled c a) (hcon : ∀ status regOk, a ≠ .connect status regOk)
    (hwrite : ∀ answers, a ≠ .handleWrite answers) : Tends c (c.step infoHash ourPeerId a) := by
  cases a with
  | connect status regOk => exact absurd rfl (hcon status regOk)
  | disconnect => exact tends_disconnect rfl rfl id
  | sendMessage m => exact tends_sendMessage hidle m
  | returns =>
    have h : Tends { c with todo := c.todo.tail } { c with todo := c.todo.tail } :=
      .of_eq rfl rfl id
    exact h.of_tail ha nofun
  | events e => exact tends_handleEvents e
  | handleRead answers => exact (tends_handleRead answers).of_tail ha nofun
  | rxStep => exact tends_rxStep.of_tail ha nofun
  | handleWrite answers => exact absurd rfl (hwrite answers)

/-- Writing keeps the socket or gives it up. -/
theorem registered_handleWrite (answers : List Sent) :
    (c.handleWrite answers).registered = c.registered ∨
      (c.handleWrite answers).registered = false := by
  rw [handleWrite]
  split
  case isTrue => exact Or.inl rfl
  case isFalse =>
    generalize (if c.registered then answers else [.error]) = answers'
    dsimp only
    split
    case isTrue => exact (tends_disconnect rfl rfl id).registered_or
    case isFalse => exact Or.inl rfl

end Endpoint

/-! ### All connections -/

namespace Hub

/-- A connection has the socket `fd`. -/
def Owns (x : Hub) (i : ℕ) (fd : ℤ) : Prop := (x.conns i).registered = true ∧ x.fds i = fd

/-- **The sockets and what is known of them agree.** -/
structure Tidy (infoHash ourPeerId : Vector UInt8 20) (x : Hub) : Prop where
  /-- Each connection does what it may do on its own. -/
  run : ∀ i, ∃ l, Endpoint.Run infoHash ourPeerId l (x.conns i)
  /-- A connection without a socket has no number. -/
  fds_eq : ∀ i, (x.conns i).registered = false → x.fds i = -1
  nonneg : ∀ i fd, x.Owns i fd → 0 ≤ fd
  /-- No two connections share a socket. -/
  unique : ∀ i j fd, x.Owns i fd → x.Owns j fd → i = j
  /-- The open sockets are those of the connections. -/
  mem_opened : ∀ fd, fd ∈ x.descriptors.opened ↔ ∃ i, x.Owns i fd
  /-- The loop calls the connection whose socket it is. -/
  lookup_eq : ∀ fd i, x.descriptors.fdCallbacks.lookup fd = some i ↔ x.Owns i fd
  /-- The kernel watches the open sockets. -/
  mem_interest : ∀ fd, fd ∈ x.descriptors.interest ↔ ∃ i, x.Owns i fd

/-- **What is watched is what a connection waits for**, unless it is about to write. -/
def Attentive (x : Hub) (i : ℕ) : Prop :=
  ∀ fd, x.Owns i fd → .handleWrite ∈ (x.conns i).todo ∨
    x.descriptors.interest.lookup fd = some (x.conns i).interests

variable {infoHash ourPeerId : Vector UInt8 20} {x : Hub} {i j : ℕ} {fd : ℤ} {c : Endpoint}

theorem tidy_new : Tidy infoHash ourPeerId {} where
  run := fun _ => ⟨[], .nil⟩
  fds_eq := fun _ _ => rfl
  nonneg := fun _ _ h => absurd h.1 Bool.false_ne_true
  unique := fun _ _ _ h => absurd h.1 Bool.false_ne_true
  mem_opened := fun _ => iff_of_false (Finset.notMem_empty _) fun ⟨_, h⟩ =>
    Bool.false_ne_true h.1
  lookup_eq := fun _ _ => iff_of_false (by rw [AList.lookup_empty]; exact nofun) fun h =>
    Bool.false_ne_true h.1
  mem_interest := fun _ => iff_of_false (AList.notMem_empty _) fun ⟨_, h⟩ => Bool.false_ne_true h.1

@[simp] theorem conns_setConn_self : (x.setConn i c).conns i = c := Function.update_self ..

theorem conns_setConn_of_ne (h : j ≠ i) : (x.setConn i c).conns j = x.conns j :=
  Function.update_of_ne h ..

namespace Tidy

/-- What a connection keeps on its own. -/
theorem inv (h : Tidy infoHash ourPeerId x) (i : ℕ) : (x.conns i).Inv :=
  let ⟨_, hr⟩ := h.run i
  hr.invariant Endpoint.inv_new fun _ _ hI ha => hI.step ha

theorem run_setConn (h : Tidy infoHash ourPeerId x) {a : Endpoint.Input}
    (ha : (x.conns i).Enabled a) (j : ℕ) : ∃ l, Endpoint.Run infoHash ourPeerId l
      ((x.setConn i ((x.conns i).step infoHash ourPeerId a)).conns j) := by
  by_cases hj : j = i
  · subst hj
    obtain ⟨l, hl⟩ := h.run j
    exact ⟨l ++ [a], by rw [conns_setConn_self]; exact hl.snoc ha⟩
  · rw [conns_setConn_of_ne hj]
    exact h.run j

/-- A connection goes on with the socket it has. -/
theorem setConn (h : Tidy infoHash ourPeerId x)
    (hrun : ∀ j, ∃ l, Endpoint.Run infoHash ourPeerId l ((x.setConn i c).conns j))
    (hreg : c.registered = (x.conns i).registered) : Tidy infoHash ourPeerId (x.setConn i c) := by
  have hsame : ∀ j, ((x.setConn i c).conns j).registered = (x.conns j).registered := by
    intro j
    by_cases hj : j = i
    · rw [hj, conns_setConn_self, hreg]
    · rw [conns_setConn_of_ne hj]
  have howns : ∀ j fd, (x.setConn i c).Owns j fd ↔ x.Owns j fd := fun j fd => by
    rw [Owns, Owns, hsame j]
    rfl
  refine ⟨hrun, fun j hj => h.fds_eq j (hsame j ▸ hj), ?_, ?_, ?_, ?_, ?_⟩ <;> simp only [howns]
  · exact h.nonneg
  · exact h.unique
  · exact h.mem_opened
  · exact h.lookup_eq
  · exact h.mem_interest

theorem unregisterFd_eq (h : Tidy infoHash ourPeerId x) (ho : x.Owns i fd) :
    x.descriptors.unregisterFd fd = (true, { x.descriptors with
      interest := x.descriptors.interest.erase fd
      fdCallbacks := x.descriptors.fdCallbacks.erase fd }) := by
  have hmem : fd ∈ x.descriptors.fdCallbacks :=
    AList.lookup_isSome.mp (by rw [(h.lookup_eq fd i).mpr ho]; rfl)
  have hnonneg := h.nonneg i fd ho
  rw [unregisterFd, if_neg (by rintro (hlt | hno); exacts [by omega, hno hmem])]

/-- A connection gives up its socket. -/
theorem closeSocket (h : Tidy infoHash ourPeerId x)
    (hrun : ∀ j, ∃ l, Endpoint.Run infoHash ourPeerId l ((x.setConn i c).conns j))
    (ho : x.Owns i fd) (hreg : c.registered = false) :
    Tidy infoHash ourPeerId ((x.setConn i c).closeSocket i) := by
  obtain ⟨hreg₀, rfl⟩ := ho
  have hdesc : ((x.setConn i c).closeSocket i).descriptors =
      { opened := x.descriptors.opened.erase (x.fds i)
        interest := (x.descriptors.interest.erase (x.fds i)).erase (x.fds i)
        fdCallbacks := x.descriptors.fdCallbacks.erase (x.fds i) } := by
    show ((x.descriptors.unregisterFd (x.fds i)).2.closeFd (x.fds i)) = _
    rw [h.unregisterFd_eq ⟨hreg₀, rfl⟩]
    rfl
  -- every other connection has what it had
  have howns : ∀ j fd, ((x.setConn i c).closeSocket i).Owns j fd ↔
      x.Owns j fd ∧ fd ≠ x.fds i := by
    intro j fd
    by_cases hj : j = i
    · subst hj
      refine iff_of_false (fun hc => ?_) fun hc => hc.2 hc.1.2.symm
      have := hc.1
      rw [show ((x.setConn j c).closeSocket j).conns j = c from conns_setConn_self, hreg] at this
      exact Bool.false_ne_true this
    · have hfds : ((x.setConn i c).closeSocket i).fds j = x.fds j := Function.update_of_ne hj ..
      rw [Owns, hfds, show ((x.setConn i c).closeSocket i).conns j = x.conns j from
        conns_setConn_of_ne hj]
      refine ⟨fun hc => ⟨hc, fun he => hj ?_⟩, fun hc => hc.1⟩
      exact h.unique j i _ hc ⟨hreg₀, he.symm⟩
  refine ⟨hrun, fun j hj => ?_, fun j fd ho => ?_, fun j k fd ho ho' => ?_, fun fd => ?_,
    fun fd j => ?_, fun fd => ?_⟩
  · by_cases hji : j = i
    · rw [hji]
      exact Function.update_self ..
    · show Function.update x.fds i (-1) j = -1
      rw [Function.update_of_ne hji]
      refine h.fds_eq j ?_
      rwa [show ((x.setConn i c).closeSocket i).conns j = x.conns j from
        conns_setConn_of_ne hji] at hj
  · exact h.nonneg j fd ((howns j fd).mp ho).1
  · exact h.unique j k fd ((howns j fd).mp ho).1 ((howns k fd).mp ho').1
  · rw [hdesc, Finset.mem_erase, h.mem_opened]
    simp only [howns, exists_and_right]
    exact and_comm
  · rw [hdesc, howns, ← h.lookup_eq]
    by_cases hfd : fd = x.fds i
    · rw [hfd, AList.lookup_erase]
      simp
    · rw [AList.lookup_erase_ne hfd]
      exact (and_iff_left hfd).symm
  · rw [hdesc, AList.mem_erase, AList.mem_erase, h.mem_interest]
    simp only [howns, exists_and_right]
    tauto

/-- The kernel watches for other events. -/
theorem insert_interest (h : Tidy infoHash ourPeerId x) (ho : x.Owns i fd) (events : UInt32) :
    Tidy infoHash ourPeerId { x with descriptors := { x.descriptors with
      interest := x.descriptors.interest.insert fd events } } := by
  refine ⟨h.run, h.fds_eq, h.nonneg, h.unique, h.mem_opened, h.lookup_eq, fun fd' => ?_⟩
  rw [AList.mem_insert]
  refine Iff.trans ?_ (h.mem_interest fd')
  exact or_iff_right_of_imp fun he => (h.mem_interest fd').mpr ⟨i, he ▸ ho⟩

/-- A connection gets a socket and registers it. -/
theorem openSocket (h : Tidy infoHash ourPeerId x)
    (hrun : ∀ j, ∃ l, Endpoint.Run infoHash ourPeerId l ((x.setConn i c).conns j))
    (hno : (x.conns i).registered = false) (hreg : c.registered = true) (hfd : 0 ≤ fd)
    (hfresh : fd ∉ x.descriptors.opened) (events : UInt32) :
    Tidy infoHash ourPeerId { x.setConn i c with
      descriptors := {
        opened := insert fd x.descriptors.opened
        interest := x.descriptors.interest.insert fd events
        fdCallbacks := x.descriptors.fdCallbacks.insert fd i }
      fds := Function.update x.fds i fd } := by
  set x' : Hub := { x.setConn i c with
    descriptors := {
      opened := insert fd x.descriptors.opened
      interest := x.descriptors.interest.insert fd events
      fdCallbacks := x.descriptors.fdCallbacks.insert fd i }
    fds := Function.update x.fds i fd }
  have hself : x'.conns i = c := Function.update_self ..
  have hother : ∀ {j}, j ≠ i → x'.conns j = x.conns j ∧ x'.fds j = x.fds j := fun hj =>
    ⟨Function.update_of_ne hj .., Function.update_of_ne hj ..⟩
  have hunowned : ∀ j, ¬x.Owns j fd := fun j ho => hfresh ((h.mem_opened fd).mpr ⟨j, ho⟩)
  have howns : ∀ j fd', x'.Owns j fd' ↔ (j = i ∧ fd' = fd) ∨ x.Owns j fd' := by
    intro j fd'
    by_cases hj : j = i
    · subst hj
      have hfds : x'.fds j = fd := Function.update_self ..
      rw [Owns, hself, hfds, and_iff_right hreg, or_iff_left fun ho => Bool.false_ne_true
        (hno.symm.trans ho.1), and_iff_right rfl]
      exact eq_comm
    · rw [Owns, (hother hj).1, (hother hj).2, or_iff_right fun hc => hj hc.1]
      exact Iff.rfl
  refine ⟨hrun, fun j hj => ?_, fun j fd' ho => ?_, fun j k fd' ho ho' => ?_, fun fd' => ?_,
    fun fd' j => ?_, fun fd' => ?_⟩
  · by_cases hji : j = i
    · rw [hji, hself, hreg] at hj
      cases hj
    · rw [(hother hji).2]
      rw [(hother hji).1] at hj
      exact h.fds_eq j hj
  · rcases (howns j fd').mp ho with ⟨-, rfl⟩ | ho₀
    · exact hfd
    · exact h.nonneg j fd' ho₀
  · rcases (howns j fd').mp ho with ⟨rfl, rfl⟩ | ho₀ <;>
      rcases (howns k _).mp ho' with ⟨rfl, he⟩ | ho₁
    · rfl
    · exact absurd ho₁ (hunowned k)
    · exact absurd (he ▸ ho₀) (hunowned j)
    · exact h.unique j k fd' ho₀ ho₁
  · show fd' ∈ insert fd x.descriptors.opened ↔ _
    rw [Finset.mem_insert, h.mem_opened]
    simp only [howns, exists_or, exists_and_right, exists_eq, true_and]
  · show (x.descriptors.fdCallbacks.insert fd i).lookup fd' = some j ↔ _
    rw [howns]
    by_cases he : fd' = fd
    · rw [he, AList.lookup_insert, Option.some.injEq, or_iff_left (hunowned j), and_iff_left rfl]
      exact eq_comm
    · rw [AList.lookup_insert_ne he, h.lookup_eq, or_iff_right fun hc => he hc.2]
  · show fd' ∈ x.descriptors.interest.insert fd events ↔ _
    rw [AList.mem_insert, h.mem_interest]
    simp only [howns, exists_or, exists_and_right, exists_eq, true_and]

/-- **`update_epoll_interests`** has the kernel watch for what the connection waits for. -/
theorem updateEpollInterests (h : Tidy infoHash ourPeerId x) (i : ℕ) :
    Tidy infoHash ourPeerId (x.updateEpollInterests i) ∧ (x.updateEpollInterests i).Attentive i ∧
      ∀ j, j ≠ i → x.Attentive j → (x.updateEpollInterests i).Attentive j := by
  by_cases ho : x.Owns i (x.fds i)
  · have hs : ¬((x.conns i).connection.state = .disconnected ∨
        (x.conns i).connection.state = .idle) := by
      rintro (hs | hs)
      · exact Bool.false_ne_true (((h.inv i).closed hs).1.symm.trans ho.1)
      · exact Bool.false_ne_true (((h.inv i).idle hs).1.symm.trans ho.1)
    have hmod : x.updateEpollInterests i = { x with descriptors := { x.descriptors with
        interest := x.descriptors.interest.insert (x.fds i) (x.conns i).interests } } := by
      have hin : x.fds i ∈ x.descriptors.interest := (h.mem_interest _).mpr ⟨i, ho⟩
      have hcb : x.fds i ∈ x.descriptors.fdCallbacks :=
        AList.lookup_isSome.mp (by rw [(h.lookup_eq _ i).mpr ho]; rfl)
      have hnonneg := h.nonneg i _ ho
      rw [Hub.updateEpollInterests, if_neg hs, modifyFd, if_neg, epollCtlMod, if_pos hin]
      rintro (hlt | hno)
      · omega
      · exact hno hcb
    rw [hmod]
    refine ⟨h.insert_interest ho _, fun fd ho' => Or.inr ?_, fun j hj hatt fd ho' => ?_⟩
    · obtain rfl : x.fds i = fd := ho'.2
      exact AList.lookup_insert _
    · have hne : fd ≠ x.fds i := fun he => hj (h.unique j i _ ho' (he ▸ ho))
      exact (hatt fd ho').imp_right fun hlook => (AList.lookup_insert_ne hne).trans hlook
  · -- without a socket there is nothing to modify
    have hreg : (x.conns i).registered = false := Bool.eq_false_iff.mpr fun hc => ho ⟨hc, rfl⟩
    have hmod : x.updateEpollInterests i = x := by
      rw [Hub.updateEpollInterests]
      split
      case isTrue => rfl
      case isFalse => rw [h.fds_eq i hreg, modifyFd, if_pos (Or.inl (by decide))]
    rw [hmod]
    exact ⟨h, fun fd ho' => absurd (hreg.symm.trans ho'.1) Bool.false_ne_true, fun _ _ => id⟩

/-- If the other connections are attentive, all are. -/
theorem updateEpollInterests_of_ne (h : Tidy infoHash ourPeerId x)
    (hothers : ∀ j, j ≠ i → x.Attentive j) :
    Tidy infoHash ourPeerId (x.updateEpollInterests i) ∧
      ∀ j, (x.updateEpollInterests i).Attentive j := by
  obtain ⟨htidy, hi, hj⟩ := h.updateEpollInterests i
  refine ⟨htidy, fun j => ?_⟩
  by_cases hji : j = i
  · exact hji ▸ hi
  · exact hj j hji (hothers j hji)

end Tidy

theorem attentive_setConn_of_ne (hj : j ≠ i) (h : x.Attentive j) :
    (x.setConn i c).Attentive j := by
  intro fd ho
  rw [Owns, conns_setConn_of_ne hj] at ho
  rw [conns_setConn_of_ne hj]
  exact h fd ho

/-- A connection that goes on without writing. -/
theorem attentive_setConn_self (h : x.Attentive i) (ht : Endpoint.Tends (x.conns i) c)
    (hreg : c.registered = (x.conns i).registered) : (x.setConn i c).Attentive i := by
  intro fd ho
  rw [Owns, conns_setConn_self] at ho
  rw [conns_setConn_self]
  rcases ht.interests_or ho.1 with hw | ⟨hi, hno⟩
  · exact Or.inl hw
  · exact Or.inr (hi ▸ (h fd ⟨hreg ▸ ho.1, ho.2⟩).resolve_left hno)

/-- A connection goes on without writing, and the others do nothing. -/
theorem attentive_setConn (hatt : ∀ j, x.Attentive j) (ht : Endpoint.Tends (x.conns i) c)
    (hreg : c.registered = (x.conns i).registered) : ∀ j, (x.setConn i c).Attentive j := by
  intro j
  by_cases hji : j = i
  · subst hji
    exact attentive_setConn_self (hatt j) ht hreg
  · exact attentive_setConn_of_ne hji (hatt j)

theorem attentive_closeSocket (h : Tidy infoHash ourPeerId x) (hatt : ∀ j, x.Attentive j)
    (hreg : c.registered = false) (ho : x.Owns i (x.fds i)) :
    ∀ j, ((x.setConn i c).closeSocket i).Attentive j := by
  intro j fd ho'
  by_cases hj : j = i
  · have := ho'.1
    rw [hj, show ((x.setConn i c).closeSocket i).conns i = c from conns_setConn_self, hreg] at this
    cases this
  · have hconn : ((x.setConn i c).closeSocket i).conns j = x.conns j := conns_setConn_of_ne hj
    have hfds : ((x.setConn i c).closeSocket i).fds j = x.fds j := Function.update_of_ne hj ..
    rw [Owns, hconn, hfds] at ho'
    have hne : fd ≠ x.fds i := fun he => hj (h.unique j i _ ho' (he ▸ ho))
    have hlook : ((x.setConn i c).closeSocket i).descriptors.interest.lookup fd =
        x.descriptors.interest.lookup fd := by
      show ((x.descriptors.unregisterFd (x.fds i)).2.closeFd (x.fds i)).interest.lookup fd = _
      rw [h.unregisterFd_eq ho]
      exact (AList.lookup_erase_ne hne).trans (AList.lookup_erase_ne hne)
    rw [hconn, hlook]
    exact hatt j fd ho'

/-- **A connection goes on.** -/
theorem Tidy.act (h : Tidy infoHash ourPeerId x) (hatt : ∀ j, x.Attentive j)
    {a : Endpoint.Input} (ha : (x.conns i).Enabled a)
    (hcon : ∀ status regOk, a ≠ .connect status regOk) :
    Tidy infoHash ourPeerId (x.act infoHash ourPeerId i a) ∧
      ∀ j, (x.act infoHash ourPeerId i a).Attentive j := by
  have hrun := h.run_setConn ha
  have hor : ((x.conns i).step infoHash ourPeerId a).registered = (x.conns i).registered ∨
      ((x.conns i).step infoHash ourPeerId a).registered = false := by
    by_cases hw : ∃ answers, a = .handleWrite answers
    · obtain ⟨answers, rfl⟩ := hw
      exact Endpoint.registered_handleWrite answers
    · exact (Endpoint.step_tends (fun hs => ((h.inv i).idle hs).1) ha hcon
        fun answers hc => hw ⟨answers, hc⟩).registered_or
  rw [Hub.act.eq_def]
  dsimp only
  split
  case isTrue hclose =>
    have ho : x.Owns i (x.fds i) := ⟨hclose.1, rfl⟩
    exact ⟨h.closeSocket hrun ho hclose.2, attentive_closeSocket h hatt hclose.2 ho⟩
  case isFalse hopen =>
    have hreg : ((x.conns i).step infoHash ourPeerId a).registered = (x.conns i).registered := by
      rcases hor with heq | hfalse
      · exact heq
      · rw [hfalse]
        exact (Bool.eq_false_iff.mpr fun hc => hopen ⟨hc, hfalse⟩).symm
    have htidy := h.setConn hrun hreg
    split
    case h_1 answers =>
      exact htidy.updateEpollInterests_of_ne fun j hj => attentive_setConn_of_ne hj (hatt j)
    case h_2 hw =>
      have ht : Endpoint.Tends (x.conns i) ((x.conns i).step infoHash ourPeerId a) :=
        Endpoint.step_tends (fun hs => ((h.inv i).idle hs).1) ha hcon hw
      exact ⟨htidy, attentive_setConn hatt ht hreg⟩

/-- A socket that is opened and closed again. -/
theorem closeFd_openFd {d : Descriptors ℕ} (ho : fd ∉ d.opened) (hi : fd ∉ d.interest) :
    (d.openFd fd).closeFd fd = d := by
  have hopened : (insert fd d.opened).erase fd = d.opened := Finset.erase_insert ho
  have hinterest : d.interest.erase fd = d.interest :=
    AList.ext (List.kerase_of_notMem_keys hi)
  rw [closeFd, openFd, hopened, hinterest]

/-- A connection without a socket is left without one. -/
theorem Tidy.setConn_closed (h : Tidy infoHash ourPeerId x) (hatt : ∀ j, x.Attentive j)
    {c : Endpoint} (hrun : ∀ j, ∃ l, Endpoint.Run infoHash ourPeerId l ((x.setConn i c).conns j))
    (hno : (x.conns i).registered = false) (hc : c.registered = false) :
    Tidy infoHash ourPeerId (x.setConn i c) ∧ ∀ j, (x.setConn i c).Attentive j := by
  have hreg : c.registered = (x.conns i).registered := hc.trans hno.symm
  exact ⟨h.setConn hrun hreg, attentive_setConn hatt (.of_closed hc) hreg⟩

/-- A connection that gets a socket leaves those of the others alone. -/
theorem Attentive.openSocket_of_ne {c : Endpoint} {d : Descriptors ℕ} {j : ℕ} (h : x.Attentive j)
    (hj : j ≠ i) (hunused : ¬x.Owns j fd)
    (hd : ∀ fd', fd' ≠ fd → d.interest.lookup fd' = x.descriptors.interest.lookup fd') :
    Attentive { x.setConn i c with descriptors := d, fds := Function.update x.fds i fd } j := by
  intro fd' ho
  have hconn : Function.update x.conns i c j = x.conns j := Function.update_of_ne hj ..
  have hfds : Function.update x.fds i fd j = x.fds j := Function.update_of_ne hj ..
  have ho' : x.Owns j fd' := by
    rw [Owns] at ho
    exact ⟨hconn ▸ ho.1, hfds ▸ ho.2⟩
  have hne : fd' ≠ fd := fun hc => hunused (hc ▸ ho')
  show _ ∈ (Function.update x.conns i c j).todo ∨
    d.interest.lookup fd' = some (Function.update x.conns i c j).interests
  rw [hconn, hd fd' hne]
  exact h fd' ho'

/-- **A connection connects.** -/
theorem Tidy.connect (h : Tidy infoHash ourPeerId x) (hatt : ∀ j, x.Attentive j)
    {outcome : Option (ℤ × Bool)} {granted : Bool}
    (ha : Enabled x (.connect i outcome granted)) :
    Tidy infoHash ourPeerId (x.connect infoHash ourPeerId i outcome granted) ∧
      ∀ j, (x.connect infoHash ourPeerId i outcome granted).Attentive j := by
  obtain ⟨hcaller, hfresh⟩ := ha
  rw [Hub.connect.eq_def]
  dsimp only
  split
  case isTrue => exact ⟨h, hatt⟩
  case isFalse hidle =>
    have hs : (x.conns i).connection.state = .idle := not_not.mp hidle
    have hno : (x.conns i).registered = false := ((h.inv i).idle hs).1
    have hrun : ∀ status regOk, ∀ j, ∃ l, Endpoint.Run infoHash ourPeerId l
        ((x.setConn i ((x.conns i).connect infoHash ourPeerId status regOk)).conns j) :=
      fun status regOk => h.run_setConn (a := .connect status regOk) hcaller
    split
    case h_1 =>
      exact h.setConn_closed hatt (hrun .error false) hno (by simp [Endpoint.connect, hs,
        Endpoint.enter, Endpoint.refused, Endpoint.call, hno])
    case h_2 fd connected =>
      obtain ⟨hnonneg, hunused⟩ := hfresh (fd, connected) rfl
      have hunwatched : fd ∉ x.descriptors.interest := fun hc =>
        hunused ((h.mem_opened fd).mpr ((h.mem_interest fd).mp hc))
      rcases (x.descriptors.openFd fd).registerFd_cases granted fd allEvents (some i) with
        he | ⟨callback, hcb, -, -, he⟩
      · rw [he]
        dsimp only
        rw [if_neg Bool.false_ne_true, closeFd_openFd hunused hunwatched]
        -- a connection that is refused has no socket
        refine h.setConn_closed hatt (hrun _ false) hno ?_
        cases connected <;> simp [Endpoint.connect, hs, Endpoint.enter, Endpoint.refused,
          Endpoint.call, hno]
      · obtain rfl := Option.some.inj hcb
        rw [he]
        dsimp only
        rw [if_pos rfl]
        have hnobody : ∀ j, ¬x.Owns j fd := fun j hj => hunused ((h.mem_opened fd).mpr ⟨j, hj⟩)
        have hins : ∀ fd', fd' ≠ fd →
            (x.descriptors.interest.insert fd allEvents).lookup fd' =
              x.descriptors.interest.lookup fd' := fun fd' hne => AList.lookup_insert_ne hne
        cases connected with
        | true =>
          have hreg : ((x.conns i).connect infoHash ourPeerId .connected true).registered = true :=
            by simp [Endpoint.connect, hs, Endpoint.enter, Endpoint.sendHandshake, Endpoint.queue,
              Endpoint.push]
          refine ⟨h.openSocket (hrun .connected true) hno hreg hnonneg hunused allEvents,
            fun j => ?_⟩
          by_cases hji : j = i
          · -- the handshake is about to be written
            intro fd' _
            rw [hji]
            refine Or.inl ?_
            show _ ∈ (Function.update x.conns i _ i).todo
            rw [Function.update_self]
            simp [Endpoint.connect, hs, Endpoint.enter, Endpoint.sendHandshake, Endpoint.queue,
              Endpoint.push]
          · exact (hatt j).openSocket_of_ne hji (hnobody j) hins
        | false =>
          have hreg : ((x.conns i).connect infoHash ourPeerId .inProgress true).registered = true :=
            by simp [Endpoint.connect, hs, Endpoint.enter]
          have htidy := h.openSocket (hrun .inProgress true) hno hreg hnonneg hunused allEvents
          exact htidy.updateEpollInterests_of_ne fun j hj =>
            (hatt j).openSocket_of_ne hj (hnobody j) hins

/-- **Connections and their sockets do not get out of step.** In every run of any number of
connections on one event loop, in every state: what each connection did is a run of it on its own,
so the loop calls only those that have a socket; the sockets that are open are those of the
connections, one each, and of all those, and of no others, the loop has a callback and the kernel
watches them; and of a connection that is not about to write the kernel reports that its socket
can be written to if and only if it is connecting or has bytes to send. -/
theorem sockets_kept {l : List Input} (hr : Run infoHash ourPeerId l x) :
    Tidy infoHash ourPeerId x ∧ ∀ i fd, x.Owns i fd → .handleWrite ∉ (x.conns i).todo →
      x.descriptors.interest.lookup fd = some (x.conns i).interests := by
  have hI : Tidy infoHash ourPeerId x ∧ ∀ j, x.Attentive j := by
    refine hr.invariant
      (I := fun x => Tidy infoHash ourPeerId x ∧ ∀ j, x.Attentive j)
      ⟨tidy_new, fun j fd ho => absurd ho.1 Bool.false_ne_true⟩ fun x a hI ha => ?_
    obtain ⟨h, hatt⟩ := hI
    cases a with
    | connect i outcome granted => exact h.connect hatt ha
    | act i a =>
      refine h.act hatt ha.1 fun status regOk hc => ?_
      rw [hc] at ha
      exact ha.2
    | epollWait reported =>
      exact ⟨⟨h.run, h.fds_eq, h.nonneg, h.unique, h.mem_opened, h.lookup_eq, h.mem_interest⟩,
        hatt⟩
    | dispatch socketError =>
      rw [step]
      split
      case h_1 => exact ⟨h, hatt⟩
      case h_2 fd events pending hp =>
        have h' : Tidy infoHash ourPeerId { x with pending := pending } :=
          ⟨h.run, h.fds_eq, h.nonneg, h.unique, h.mem_opened, h.lookup_eq, h.mem_interest⟩
        dsimp only
        split
        case h_1 => exact ⟨h', hatt⟩
        case h_2 i hlook =>
          have htodo : (x.conns i).todo = [] := ha (fd, events) (by rw [hp]; rfl) i hlook
          exact h'.act hatt ⟨htodo, ((h.lookup_eq fd i).mp hlook).1⟩ nofun
  exact ⟨hI.1, fun i fd ho hno => (hI.2 i fd ho).resolve_left hno⟩

/-- Two connections connect, the first fails, and a third gets the number of its socket. -/
theorem sockets_kept_reused :
    let zeros : Vector UInt8 20 := Vector.replicate 20 0
    let l : List Input := [.connect 0 (some (8, false)) true, .connect 1 (some (9, false)) true,
      .epollWait [(8, epollHup), (9, epollOut)], .dispatch false, .act 0 .returns,
      .connect 2 (some (8, false)) true, .dispatch false,
      .act 1 (.handleWrite [.bytes 68]), .act 1 (.handleWrite [])]
    let x := l.foldl (step zeros zeros) {}
    x.descriptors.fdCallbacks.lookup 8 = some 2 ∧
      x.descriptors.interest.lookup 9 = some (x.conns 1).interests := by
  intro zeros l x
  have hrun : Run zeros zeros l x := by
    refine Runs.reach_iff.mpr ⟨rfl, ?_⟩
    simp only [l, Runs.throughout_cons]
    refine ⟨?_, ?_, ?_, ?_, ?_, ?_, ?_, ?_, ?_, Runs.throughout_nil _⟩ <;> decide +kernel
  obtain ⟨htidy, hwatched⟩ := sockets_kept hrun
  have ho₂ : x.Owns 2 8 := ⟨by decide +kernel, by decide +kernel⟩
  have ho₁ : x.Owns 1 9 := ⟨by decide +kernel, by decide +kernel⟩
  exact ⟨(htidy.lookup_eq 8 2).mpr ho₂, hwatched 1 9 ho₁ (by decide +kernel)⟩

end Hub

end TransferEngine
