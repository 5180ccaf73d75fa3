import TransferEngine.Connection.Stream

/-!
# Two connections and the bytes between them

Two peers run the same program, each with its own code in the callbacks. One of them may have got
its socket from elsewhere (`create_with_socket`). Between them is a stream socket: the bytes one
end has it accept arrive at the other, in order, in any portions and at any time
(`TransferEngine.Conversation`). Everything else is interleaved freely, and either end may close,
or be closed under a callback.

What an end hands on is then a beginning of what the other end sent: its handshake, and its
messages in the order they were passed to `send_message`. And nothing is missing when there is
nothing left on the way (`TransferEngine.Conversation.inOrder`).

Each end is looked at on its own. The end that sends says what its socket has accepted
(`TransferEngine.Endpoint.Speaks`); the end that receives says where it stands in a stream it has
a beginning of (`TransferEngine.Endpoint.Hears`). The run of both restricts to a run of each
(`Runs.Reach.part`), and the bytes between them connect the two.
-/

namespace TransferEngine

open Bytes PeerMessage Segments

namespace Endpoint

variable {c c' : Endpoint} {infoHash ourPeerId : Vector UInt8 20} {a : Input} {l : List Input}
  {g : HandshakeMsg} {frames : List Frame} {done rest : List Segment} {read : List UInt8}
  {msgs : List PeerMessage}

theorem state_cases (c : Endpoint) :
    c.Opening ∨ c.Talking ∨ c.connection.state = .disconnected := by
  rw [Opening, Talking]
  cases c.connection.state <;> simp

theorem Opening.ne_disconnected (h : c.Opening) : c.connection.state ≠ .disconnected := by
  rintro hs
  rcases h with h | h <;> cases hs.symm.trans h

theorem Talking.ne_disconnected (h : c.Talking) : c.connection.state ≠ .disconnected := by
  rintro hs
  rcases h with h | h <;> cases hs.symm.trans h

/-! ### What the socket has accepted -/

/-- **What a step does to the outside**: something happens, and the socket accepts a beginning of
what is to be sent, or nothing if there is no socket. -/
structure Hands (c c' : Endpoint) : Prop where
  exists_accepted : ∃ x, accepted c'.trace = accepted c.trace ++ x ∧ x <+: c.txBuffer ∧
    (c.registered = false → x = [])
  registered_eq : (c.connection.state = .idle ∨ c.connection.state = .disconnected →
      c.registered = false) →
    c'.connection.state = .idle ∨ c'.connection.state = .disconnected → c'.registered = false

/-- Nothing is handed over. -/
theorem Hands.of_eq (h : accepted c'.trace = accepted c.trace)
    (hreg : (c.connection.state = .idle ∨ c.connection.state = .disconnected →
        c.registered = false) →
      c'.connection.state = .idle ∨ c'.connection.state = .disconnected → c'.registered = false) :
    Hands c c' :=
  ⟨⟨[], by rw [h, List.append_nil], List.nil_prefix, fun _ => rfl⟩, hreg⟩

/-- What is under way does not matter. -/
theorem Hands.of_todo {todo : List Task} (h : Hands { c with todo := todo } c') : Hands c c' :=
  ⟨h.exists_accepted, h.registered_eq⟩

theorem hands_disconnect (hs : c'.connection.state = c.connection.state)
    (hr : c'.registered = c.registered) (hx : ∃ x, accepted c'.trace = accepted c.trace ++ x ∧
      x <+: c.txBuffer ∧ (c.registered = false → x = [])) : Hands c c'.disconnect := by
  rw [disconnect]
  split
  case isTrue => exact ⟨hx, fun h hs' => by rw [hr]; exact h (hs ▸ hs')⟩
  case isFalse => exact ⟨by simpa [call, enter] using hx, fun _ _ => rfl⟩

theorem hands_disconnect_of_eq (hs : c'.connection.state = c.connection.state)
    (hr : c'.registered = c.registered) (ht : c'.trace = c.trace) : Hands c c'.disconnect :=
  hands_disconnect hs hr ⟨[], by rw [ht, List.append_nil], List.nil_prefix, fun _ => rfl⟩

theorem hands_connect (status : ConnectStatus) (regOk : Bool) :
    Hands c (c.connect infoHash ourPeerId status regOk) := by
  rw [connect]
  split
  case isTrue => exact .of_eq rfl id
  case isFalse hidle =>
    have hs : c.connection.state = .idle := not_not.mp hidle
    dsimp only
    split
    case isTrue => exact .of_eq (by simp [refused, call, enter]) fun h _ => h (Or.inl hs)
    case isFalse =>
      split
      case isTrue => exact .of_eq (by simp [refused, call, enter]) fun h _ => h (Or.inl hs)
      case isFalse =>
        split
        case isTrue =>
          exact .of_eq (by simp [sendHandshake, enter, queue, push])
            (by simp [sendHandshake, enter, queue, push])
        case isFalse => exact .of_eq (by simp [enter]) (by simp [enter])

theorem hands_sendMessage (m : PeerMessage) : Hands c (c.sendMessage m) := by
  rcases sendMessage_cases c m with ⟨-, he⟩ | ⟨-, -, he⟩ | ⟨-, bytes, -, he⟩ <;> rw [he]
  · exact .of_eq rfl id
  · exact .of_eq rfl (by simp [push])
  · exact .of_eq (by simp) (by simp)

theorem hands_handleEvents (e : Readiness) :
    Hands c (c.handleEvents infoHash ourPeerId e) := by
  rw [handleEvents]
  split
  case isTrue => exact hands_disconnect_of_eq rfl rfl rfl
  case isFalse =>
    split
    case isTrue => exact hands_disconnect_of_eq rfl rfl rfl
    case isFalse =>
      split
      case isTrue hs =>
        split
        case isTrue => exact hands_disconnect_of_eq rfl rfl rfl
        case isFalse =>
          exact .of_eq (by simp [sendHandshake, enter, queue, push])
            (by simp [sendHandshake, enter, queue, push])
      case isFalse => exact .of_eq rfl id

theorem hands_handleRead (answers : List Recv) :
    Hands c (c.handleRead answers) := by
  rw [handleRead]
  dsimp only
  split
  case h_1 => exact hands_disconnect_of_eq rfl rfl rfl
  case h_2 => exact hands_disconnect_of_eq rfl rfl rfl
  case h_3 => exact .of_eq rfl id

theorem hands_rxStep : Hands c c.rxStep := by
  rw [rxStep]
  rcases hpass : c.connection.rxPass with e | pass
  · exact .of_eq rfl id
  cases PeerConnection.passes_of_rxPass hpass with
  | stop conn hstate _ => exact .of_eq rfl fun h hs => h (hstate ▸ hs)
  | refuse _ _ _ => exact hands_disconnect_of_eq rfl rfl rfl
  | handshake m hstate _ _ =>
    exact .of_eq (by simp [call, push, enter]) (by simp [call, push, enter])
  | frame m conn hstate hstate' =>
    cases m with
    | none => exact .of_eq rfl (by simp [push, hstate'])
    | some m => exact .of_eq (by simp [call, push]) (by simp [call, push, hstate'])

theorem hands_handleWrite (answers : List Sent) :
    Hands c (c.handleWrite answers) := by
  rw [handleWrite]
  split
  case isTrue => exact .of_eq rfl id
  case isFalse =>
    generalize hans : (if c.registered then answers else [.error]) = answers'
    have hx : ∃ x, accepted (c.trace ++ (writeLoop c.txBuffer answers').1) = accepted c.trace ++ x ∧
        x <+: c.txBuffer ∧ (c.registered = false → x = []) := by
      refine ⟨_, accepted_append _ _, ⟨_, accepted_writeLoop _ _⟩, fun hr => ?_⟩
      rw [← hans, hr, if_neg Bool.false_ne_true]
      cases c.txBuffer <;> rfl
    dsimp only
    split
    case isTrue => exact hands_disconnect rfl rfl hx
    case isFalse => exact ⟨hx, id⟩

/-- **What one step does to the outside.** -/
theorem step_hands (c : Endpoint) (a : Input) : Hands c (c.step infoHash ourPeerId a) := by
  cases a with
  | connect status regOk => exact hands_connect status regOk
  | disconnect => exact hands_disconnect_of_eq rfl rfl rfl
  | sendMessage m => exact hands_sendMessage m
  | returns => exact .of_eq rfl id
  | events e => exact hands_handleEvents e
  | handleRead answers => exact (hands_handleRead answers).of_todo
  | rxStep => exact hands_rxStep.of_todo
  | handleWrite answers => exact (hands_handleWrite answers).of_todo

/-- **What a connection says**: the socket has accepted a beginning of the handshake and the
messages, and as long as the connection is established the rest is still to be sent. -/
structure Speaks (g : HandshakeMsg) (msgs : List PeerMessage) (c : Endpoint) : Prop where
  opening : c.Opening → c.stream = [] ∧ msgs = []
  talking : c.Talking → c.stream = g.serialize ++ msgs.flatMap serialized
  accepted_prefix : accepted c.trace <+: g.serialize ++ msgs.flatMap serialized
  registered_eq : c.connection.state = .idle ∨ c.connection.state = .disconnected →
    c.registered = false

/-- **One step of what a connection says.** -/
theorem Speaks.step (h : Speaks (ourHandshake infoHash ourPeerId) (messages l) c)
    (hlate : Late c a) :
    Speaks (ourHandshake infoHash ourPeerId) (messages (l ++ [a]))
      (c.step infoHash ourPeerId a) := by
  have hgrow : messages l <+: messages (l ++ [a]) := by
    rw [messages, messages, List.filterMap_append]
    exact List.prefix_append _ _
  have hsub : (ourHandshake infoHash ourPeerId).serialize ++ (messages l).flatMap serialized <+:
      (ourHandshake infoHash ourPeerId).serialize ++ (messages (l ++ [a])).flatMap serialized := by
    obtain ⟨ms, hms⟩ := hgrow
    rw [← hms, List.flatMap_append, ← List.append_assoc]
    exact List.prefix_append _ _
  have hhands : Hands c (c.step infoHash ourPeerId a) := step_hands c a
  obtain ⟨⟨x, hacc, hx, hreg⟩, hreg'⟩ := hhands
  have hsends : Sends infoHash ourPeerId c a (c.step infoHash ourPeerId a) := step_sends c a
  have hpre : accepted (c.step infoHash ourPeerId a).trace <+:
      (ourHandshake infoHash ourPeerId).serialize ++ (messages (l ++ [a])).flatMap serialized := by
    have hstream : accepted (c.step infoHash ourPeerId a).trace <+: c.stream := by
      rw [hacc, stream]
      exact (List.prefix_append_right_inj _).mpr hx
    rcases state_cases c with ho | ht | hs
    · rw [(h.opening ho).1, List.prefix_nil] at hstream
      rw [hstream]
      exact List.nil_prefix
    · exact (h.talking ht ▸ hstream).trans hsub
    · -- without a socket nothing more is accepted
      rw [hacc, hreg (h.registered_eq (Or.inr hs)), List.append_nil]
      exact h.accepted_prefix.trans hsub
  refine ⟨?_, ?_, hpre, hreg' h.registered_eq⟩ <;>
    rcases hsends with hs | ⟨hmsg, hopen, htalk, hstream⟩ | ⟨hmsg, hopen, htalk, hstream⟩ |
      ⟨m, hmsg, hs, hstream, -⟩
  · exact fun ho => absurd hs ho.ne_disconnected
  · intro ho
    rw [hstream, messages_snoc_of_none hmsg]
    exact h.opening (hopen.mpr ho)
  · exact fun ho => absurd ho htalk.not_opening
  · intro ho
    rw [Opening, hs] at ho
    exact absurd ho ((late_message_iff hmsg).mp hlate)
  · exact fun ht => absurd hs ht.ne_disconnected
  · intro ht
    rw [hstream, messages_snoc_of_none hmsg]
    exact h.talking (htalk.mpr ht)
  · intro _
    obtain ⟨hnil, hmsgs⟩ := h.opening hopen
    rw [hstream, hnil, messages_snoc_of_none hmsg, hmsgs]
    simp
  · intro ht
    rw [Talking, hs] at ht
    rw [hstream, h.talking ht, messages_snoc_of_some hmsg]
    simp

theorem speaks_new : Speaks g [] {} where
  opening := fun _ => ⟨rfl, rfl⟩
  talking := by simp [Talking]
  accepted_prefix := List.nil_prefix
  registered_eq := fun _ => rfl

theorem speaks_createWithSocket :
    Speaks (ourHandshake infoHash ourPeerId) [] (createWithSocket infoHash ourPeerId) where
  opening := by simp [Opening, createWithSocket, sendHandshake, queue, push]
  talking := fun _ => by simp [stream, createWithSocket, sendHandshake, queue, push]
  accepted_prefix := by simp [createWithSocket, sendHandshake, queue, push]
  registered_eq := by simp [createWithSocket, sendHandshake, queue, push]

/-! ### What has been handed on -/

/-- The calls with which something is handed on. -/
def Happening.handedOn? : Happening → Option Callback
  | .call .onDisconnect => none
  | .call e => some e
  | _ => none

/-- **What a connection has handed on** to its caller, in order. -/
def handedOn (trace : List Happening) : List Callback := trace.filterMap Happening.handedOn?

@[simp] theorem handedOn_append (l₁ l₂ : List Happening) :
    handedOn (l₁ ++ l₂) = handedOn l₁ ++ handedOn l₂ :=
  List.filterMap_append

@[simp] theorem handedOn_nil : handedOn [] = [] := rfl

@[simp] theorem handedOn_entered (σ : ConnectionState) (l : List Happening) :
    handedOn (.entered σ :: l) = handedOn l := rfl

@[simp] theorem handedOn_queued (bytes : List UInt8) (l : List Happening) :
    handedOn (.queued bytes :: l) = handedOn l := rfl

@[simp] theorem handedOn_onDisconnect (l : List Happening) :
    handedOn (.call .onDisconnect :: l) = handedOn l := rfl

@[simp] theorem handedOn_onHandshake (h : HandshakeMsg) (l : List Happening) :
    handedOn (.call (.onHandshake h) :: l) = .onHandshake h :: handedOn l := rfl

@[simp] theorem handedOn_onMessage (m : PeerMessage) (l : List Happening) :
    handedOn (.call (.onMessage m) :: l) = .onMessage m :: handedOn l := rfl

theorem handedOn_writeLoop (tx : List UInt8) (answers : List Sent) :
    handedOn (writeLoop tx answers).1 = [] := by
  refine List.filterMap_eq_nil_iff.mpr fun e he => ?_
  obtain ⟨bytes, n, rfl⟩ := handed_of_mem_writeLoop he
  rfl

@[simp] theorem handedOn_disconnect (c : Endpoint) :
    handedOn c.disconnect.trace = handedOn c.trace := by
  rw [disconnect]
  split
  case isTrue => rfl
  case isFalse => simp [call, enter]

/-- The bytes an input takes off the socket. -/
def taken (c : Endpoint) : Input → List UInt8
  | .handleRead answers => (readLoop (if c.registered then answers else [.error])).1
  | _ => []

/-- The kernel says of a socket that has just been connected that it can be written to. -/
def Established (c : Endpoint) : Input → Prop
  | .events e => c.connection.state = .connecting → e.readable = true → e.writable = true
  | _ => True

instance (c : Endpoint) : (a : Input) → Decidable (c.Established a)
  | .events _ => inferInstanceAs (Decidable (_ → _ → _))
  | .connect _ _ | .disconnect | .sendMessage _ | .returns | .handleRead _ | .rxStep
  | .handleWrite _ => inferInstanceAs (Decidable True)

/-- **Where a connection stands** in the stream of a handshake and some frames, of which it has
taken `read` off the socket: it has worked through `done`, and `rest` is to come. -/
structure Hears (g : HandshakeMsg) (frames : List Frame) (done rest : List Segment)
    (read : List UInt8) (c : Endpoint) : Prop where
  split : done ++ rest = .handshake g :: frames.map .frame
  handedOn_eq : handedOn c.trace = done.filterMap Segment.call
  opening : c.Opening → done = [] ∧ read = [] ∧ c.connection.rxBuffer = [] ∧
    .handleRead ∉ c.todo ∧ .rxLoop ∉ c.todo
  state_eq : c.Talking → c.connection.state = if done = [] then .handshaking else .active
  read_eq : c.Talking → read = spell Segment.bytes done ++ c.connection.rxBuffer
  /-- The loop is under way, or the next segment is not there in full. -/
  short : c.Talking → .rxLoop ∈ c.todo ∨ Short Segment.bytes rest c.connection.rxBuffer

namespace Hears

variable {w : List UInt8}

/-- A closed connection hands nothing on. -/
theorem closed (h : Hears g frames done rest read c) (hs : c'.connection.state = .disconnected)
    (hcalls : handedOn c'.trace = handedOn c.trace) : Hears g frames done rest w c' where
  split := h.split
  handedOn_eq := hcalls.trans h.handedOn_eq
  opening := fun ho => absurd hs ho.ne_disconnected
  state_eq := fun ht => absurd hs ht.ne_disconnected
  read_eq := fun ht => absurd hs ht.ne_disconnected
  short := fun ht => absurd hs ht.ne_disconnected

theorem disconnect (h : Hears g frames done rest read c)
    (hcalls : handedOn c'.trace = handedOn c.trace) :
    Hears g frames done rest w c'.disconnect :=
  h.closed (state_disconnect c') ((handedOn_disconnect c').trans hcalls)

/-- What does not touch the receive buffer. -/
theorem of_eq (h : Hears g frames done rest read c) (hs : c'.connection.state = c.connection.state)
    (hrx : c'.connection.rxBuffer = c.connection.rxBuffer)
    (hcalls : handedOn c'.trace = handedOn c.trace)
    (htodo : c.Opening → .handleRead ∉ c.todo → .handleRead ∉ c'.todo)
    (hloop : .rxLoop ∈ c'.todo ↔ .rxLoop ∈ c.todo) : Hears g frames done rest read c' where
  split := h.split
  handedOn_eq := hcalls.trans h.handedOn_eq
  opening := fun ho => by
    rw [Opening, hs] at ho
    obtain ⟨hd, hr, hb, hread, hno⟩ := h.opening ho
    exact ⟨hd, hr, hrx.trans hb, htodo ho hread, fun hc => hno (hloop.mp hc)⟩
  state_eq := fun ht => by
    rw [Talking, hs] at ht
    exact hs.trans (h.state_eq ht)
  read_eq := fun ht => by
    rw [Talking, hs] at ht
    rw [hrx]
    exact h.read_eq ht
  short := fun ht => by
    rw [Talking, hs] at ht
    rw [hrx, hloop]
    exact h.short ht

/-- A connection that is about to hear everything. -/
theorem start (hcalls : handedOn c.trace = []) (hrx : c.connection.rxBuffer = [])
    (hs : c.connection.state ≠ .active)
    (htodo : c.Opening → .handleRead ∉ c.todo ∧ .rxLoop ∉ c.todo) :
    Hears g frames [] (.handshake g :: frames.map .frame) [] c where
  split := rfl
  handedOn_eq := hcalls
  opening := fun ho => ⟨rfl, rfl, hrx, htodo ho⟩
  state_eq := fun ht => ht.resolve_right hs
  read_eq := fun _ => hrx.symm
  short := fun _ => Or.inr (by rw [hrx]; exact Receiver.short_handshake g _)

/-- The connection is established. -/
theorem greets (h : Hears g frames done rest read c) (ho : c.Opening)
    (hs : c'.connection.state = .handshaking) (hrx : c'.connection.rxBuffer = c.connection.rxBuffer)
    (hcalls : handedOn c'.trace = handedOn c.trace) : Hears g frames done rest read c' := by
  obtain ⟨rfl, rfl, hb, -⟩ := h.opening ho
  obtain rfl : rest = .handshake g :: frames.map .frame := h.split
  exact start (hcalls.trans h.handedOn_eq) (hrx.trans hb) (by rw [hs]; exact nofun) fun ho' => by
    rcases ho' with ho' | ho' <;> cases hs.symm.trans ho'

theorem connect (h : Hears g frames done rest read c) (status : ConnectStatus) (regOk : Bool) :
    Hears g frames done rest read (c.connect infoHash ourPeerId status regOk) := by
  rw [Endpoint.connect]
  split
  case isTrue => exact h
  case isFalse hidle =>
    have hs : c.connection.state = .idle := not_not.mp hidle
    have hrefused : ∀ c' : Endpoint, handedOn c'.trace = handedOn c.trace →
        Hears g frames done rest read c'.refused := fun c' hc =>
      h.closed rfl (by simpa [refused, call, enter] using hc)
    dsimp only
    split
    case isTrue => exact hrefused _ (by simp [enter])
    case isFalse =>
      split
      case isTrue => exact hrefused _ (by simp [enter])
      case isFalse =>
        split
        case isTrue =>
          exact h.greets (Or.inl hs) rfl rfl (by simp [sendHandshake, enter, queue, push])
        case isFalse =>
          obtain ⟨rfl, rfl, hb, hread, hloop⟩ := h.opening (Or.inl hs)
          obtain rfl : rest = .handshake g :: frames.map .frame := h.split
          exact start (by simpa [enter] using h.handedOn_eq) hb (by simp [enter])
            fun _ => ⟨hread, hloop⟩

theorem sendMessage (h : Hears g frames done rest read c) (m : PeerMessage) :
    Hears g frames done rest read (c.sendMessage m) := by
  rcases sendMessage_cases c m with ⟨-, he⟩ | ⟨-, -, he⟩ | ⟨-, bytes, -, he⟩ <;> rw [he]
  · exact h
  · refine h.of_eq (PeerConnection.state_sending _ m) (PeerConnection.rxBuffer_sending _ m) rfl
      ?_ ?_
    · simp [push]
    · simp [push]
  · refine h.of_eq (PeerConnection.state_sending _ m) (PeerConnection.rxBuffer_sending _ m)
      (by simp) ?_ ?_
    · intro _ hread
      dsimp only
      split <;> simpa using hread
    · dsimp only
      split <;> simp

theorem handleEvents (h : Hears g frames done rest read c) (e : Readiness)
    (hest : c.connection.state = .connecting → e.readable = true → e.writable = true)
    (hidle : c.connection.state ≠ .idle) :
    Hears g frames done rest read (c.handleEvents infoHash ourPeerId e) := by
  rw [Endpoint.handleEvents]
  split
  case isTrue => exact h.disconnect rfl
  case isFalse =>
    split
    case isTrue => exact h.disconnect rfl
    case isFalse =>
      split
      case isTrue hs =>
        split
        case isTrue => exact h.disconnect rfl
        case isFalse =>
          exact h.greets (Or.inr hs.1) rfl rfl (by simp [sendHandshake, enter, queue, push])
      case isFalse hs =>
        refine h.of_eq rfl rfl rfl (fun ho hread => ?_) ?_
        · -- an event that does not establish the connection is none to read at
          have hcon : c.connection.state = .connecting := ho.resolve_left hidle
          have hnot : e.readable ≠ true := fun hr => hs ⟨hcon, hest hcon hr⟩
          simp [whenReady, hnot, hread]
        · simp only [whenReady, List.mem_append]
          refine or_iff_right ?_
          rintro (hm | hm) <;> split at hm <;> simp at hm

theorem handleRead (h : Hears g frames done rest read c) (hno : ¬c.Opening) (answers : List Recv) :
    Hears g frames done rest
      (read ++ (readLoop (if c.registered then answers else [.error])).1)
      (c.handleRead answers) := by
  rw [Endpoint.handleRead]
  generalize (if c.registered then answers else [.error]) = answers'
  dsimp only
  split
  case h_1 => exact h.disconnect rfl
  case h_2 => exact h.disconnect rfl
  case h_3 =>
    refine ⟨h.split, h.handedOn_eq, fun ho => absurd ho hno, h.state_eq, fun ht => ?_,
      fun _ => Or.inl List.mem_cons_self⟩
    rw [h.read_eq ht, List.append_assoc]
    rfl

theorem handleWrite (h : Hears g frames done rest read c) (answers : List Sent) :
    Hears g frames done rest read (c.handleWrite answers) := by
  rw [Endpoint.handleWrite]
  split
  case isTrue => exact h
  case isFalse =>
    generalize (if c.registered then answers else [.error]) = answers'
    have hcalls : handedOn (c.trace ++ (writeLoop c.txBuffer answers').1) = handedOn c.trace := by
      rw [handedOn_append, handedOn_writeLoop, List.append_nil]
    dsimp only
    split
    case isTrue => exact h.disconnect hcalls
    case isFalse => exact h.of_eq rfl rfl hcalls (fun _ => id) Iff.rfl

theorem eq_frame (h : Hears g frames done rest read c) (hd : done ≠ []) {u : Segment}
    (hu : u ∈ rest) : ∃ f, u = .frame f := by
  obtain ⟨d, done, rfl⟩ := List.exists_cons_of_ne_nil hd
  have hmem : u ∈ frames.map Segment.frame := by
    rw [← (List.cons.inj h.split).2]
    exact List.mem_append_right _ hu
  obtain ⟨f, -, rfl⟩ := List.mem_map.mp hmem
  exact ⟨f, rfl⟩

/-- What is in the buffer is a beginning of what is to come. -/
theorem rxBuffer_prefix (h : Hears g frames done rest read c) (ht : c.Talking)
    (hp : read <+: spell Segment.bytes (.handshake g :: frames.map .frame)) :
    c.connection.rxBuffer <+: spell Segment.bytes rest := by
  rwa [h.read_eq ht, ← h.split, spell_append, List.prefix_append_right_inj] at hp

/-- **A segment that is not there in full** ends the loop. -/
theorem rxPass_short (h : Hears g frames done rest read c) (ht : c.Talking)
    (hp : c.connection.rxBuffer <+: spell Segment.bytes rest)
    (hs : Short Segment.bytes rest c.connection.rxBuffer) :
    c.connection.rxPass = .ok (.stop c.connection) := by
  have hstate := h.state_eq ht
  by_cases hd : done = []
  · subst hd
    obtain rfl : rest = .handshake g :: frames.map .frame := h.split
    have hlt : c.connection.rxBuffer.length < g.serialize.length := hs (.handshake g) rfl
    rw [g.length_serialize] at hlt
    exact PeerConnection.rxPass_short hstate hlt
  · rw [if_neg hd] at hstate
    refine PeerConnection.rxPass_partial hstate ?_
    cases rest with
    | nil =>
      rw [spell_nil, List.prefix_nil] at hp
      exact ⟨.unchoke, by rw [hp]; exact List.nil_prefix, by rw [hp]; decide⟩
    | cons u rest =>
      obtain ⟨f, rfl⟩ := h.eq_frame hd List.mem_cons_self
      have hlt : c.connection.rxBuffer.length < f.bytes.length := hs (.frame f) rfl
      refine ⟨f, List.prefix_of_prefix_length_le hp (List.prefix_append _ _) hlt.le, ?_⟩
      exact fun hc => absurd hlt (hc ▸ Nat.lt_irrefl _)

/-- The next segment is worked through, and the loop goes on. -/
theorem advance {u : Segment} (h : Hears g frames done (u :: rest) read c)
    (hs : c'.connection.state = .active)
    (hread : read = spell Segment.bytes (done ++ [u]) ++ c'.connection.rxBuffer)
    (hcalls : handedOn c'.trace = (done ++ [u]).filterMap Segment.call)
    (hloop : .rxLoop ∈ c'.todo) : Hears g frames (done ++ [u]) rest read c' where
  split := by
    rw [← h.split]
    simp
  handedOn_eq := hcalls
  opening := fun ho => by rcases ho with ho | ho <;> cases hs.symm.trans ho
  state_eq := fun _ => by
    rw [if_neg (by simp)]
    exact hs
  read_eq := fun _ => hread
  short := fun _ => Or.inl hloop

/-- **A segment that is there in full** is worked through. -/
theorem rxStep_segment {u : Segment} (h : Hears g frames done (u :: rest) read c) (ht : c.Talking)
    (hw : c.connection.rxBuffer = u.bytes ++ w) (todo : List Task) :
    Hears g frames (done ++ [u]) rest read { c with todo := todo }.rxStep := by
  have hread : read = spell Segment.bytes (done ++ [u]) ++ w := by
    rw [h.read_eq ht, hw]
    simp
  have hstate := h.state_eq ht
  by_cases hd : done = []
  · subst hd
    obtain rfl : u = .handshake g := (List.cons.inj h.split).1
    have hpass := PeerConnection.rxPass_handshake hstate hw
    rw [Endpoint.rxStep, hpass]
    refine h.advance rfl hread ?_ ?_
    · simp [call, push, enter, h.handedOn_eq, Segment.call]
    · simp [call, push]
  · obtain ⟨f, rfl⟩ := h.eq_frame hd List.mem_cons_self
    rw [if_neg hd] at hstate
    obtain ⟨conn, hpass, hs', hb'⟩ := PeerConnection.rxPass_frame hstate hw
    have hread' := hread.trans (congrArg _ hb'.symm)
    rw [Endpoint.rxStep, hpass]
    cases hm : f.message with
    | none =>
      refine h.advance hs' hread' ?_ ?_
      · simp [push, h.handedOn_eq, Segment.call, hm]
      · simp [push]
    | some m =>
      refine h.advance hs' hread' ?_ ?_
      · simp [call, push, h.handedOn_eq, Segment.call, hm]
      · simp [call, push]

/-- **One pass of the loop.** -/
theorem rxStep (h : Hears g frames done rest read c) (hno : ¬c.Opening)
    (hp : read <+: spell Segment.bytes (.handshake g :: frames.map .frame)) (todo : List Task) :
    ∃ done' rest', Hears g frames done' rest' read { c with todo := todo }.rxStep := by
  rcases c.state_cases with ho | ht | hs
  · exact absurd ho hno
  · have hpre := h.rxBuffer_prefix ht hp
    by_cases hshort : Short Segment.bytes rest c.connection.rxBuffer
    · refine ⟨done, rest, ?_⟩
      rw [Endpoint.rxStep, h.rxPass_short ht hpre hshort]
      exact ⟨h.split, h.handedOn_eq, fun ho => absurd ho hno, h.state_eq, h.read_eq,
        fun _ => Or.inr hshort⟩
    · cases rest with
      | nil => exact absurd short_nil hshort
      | cons u rest =>
        -- the segment `u` is there in full
        have hle : u.bytes.length ≤ c.connection.rxBuffer.length := by
          by_contra hlt
          refine hshort fun v hv => ?_
          obtain rfl : u = v := by simpa using hv
          exact Nat.lt_of_not_le hlt
        obtain ⟨w, hw⟩ := List.prefix_of_prefix_length_le (List.prefix_append _ _) hpre hle
        exact ⟨done ++ [u], rest, h.rxStep_segment ht hw.symm todo⟩
  · refine ⟨done, rest, ?_⟩
    have hpass : ∃ conn, c.connection.rxPass = .ok (.stop conn) ∧ conn.state = .disconnected := by
      rw [PeerConnection.rxPass, hs]
      split
      case isTrue => exact ⟨_, rfl, hs⟩
      case isFalse => exact ⟨_, rfl, rfl⟩
    obtain ⟨conn, hpass, hs'⟩ := hpass
    rw [Endpoint.rxStep, hpass]
    exact h.closed hs' rfl

/-- What is done next is under way no more. -/
theorem pop (h : Hears g frames done rest read c) {t : Task} (ht : c.todo.head? = some t)
    (hne : t ≠ .rxLoop) : Hears g frames done rest read { c with todo := c.todo.tail } := by
  have hcons : c.todo = t :: c.todo.tail := List.eq_cons_of_mem_head? ht
  refine h.of_eq rfl rfl rfl (fun _ hread hc => hread (List.mem_of_mem_tail hc)) ?_
  rw [hcons, List.mem_cons, or_iff_right (Ne.symm hne), List.tail_cons]

/-- **One step of where a connection stands.** -/
theorem step (h : Hears g frames done rest read c) (ha : Enabled c a) (hest : Established c a)
    (hreg : c.connection.state = .idle → c.registered = false)
    (hp : read ++ taken c a <+: spell Segment.bytes (.handshake g :: frames.map .frame)) :
    ∃ done' rest', Hears g frames done' rest' (read ++ taken c a)
      (c.step infoHash ourPeerId a) := by
  have hopen : ∀ t, c.todo.head? = some t → t = .handleRead ∨ t = .rxLoop → ¬c.Opening := by
    rintro t ht hor ho
    obtain ⟨-, -, -, hread, hloop⟩ := h.opening ho
    rcases hor with rfl | rfl
    · exact hread (List.mem_of_mem_head? ht)
    · exact hloop (List.mem_of_mem_head? ht)
  have hquiet : ∀ {done' rest' c'}, taken c a = [] → Hears g frames done' rest' read c' →
      ∃ done' rest', Hears g frames done' rest' (read ++ taken c a) c' := fun ht h' =>
    ⟨_, _, by rwa [ht, List.append_nil]⟩
  cases a with
  | connect status regOk => exact hquiet rfl (h.connect status regOk)
  | disconnect => exact hquiet rfl (h.disconnect rfl)
  | sendMessage m => exact hquiet rfl (h.sendMessage m)
  | returns => exact hquiet rfl (h.pop ha nofun)
  | events e =>
    refine hquiet rfl (h.handleEvents e hest fun hs => ?_)
    exact Bool.false_ne_true ((hreg hs).symm.trans ha.2)
  | handleRead answers =>
    exact ⟨done, rest, (h.pop ha nofun).handleRead (hopen _ ha (Or.inl rfl)) answers⟩
  | rxStep =>
    rw [show taken c .rxStep = [] from rfl, List.append_nil] at hp
    obtain ⟨done', rest', h'⟩ := h.rxStep (hopen _ ha (Or.inr rfl)) hp c.todo.tail
    exact hquiet rfl h'
  | handleWrite answers => exact hquiet rfl ((h.pop ha nofun).handleWrite answers)

end Hears

/-- The bytes a run takes off the socket. -/
def received (infoHash ourPeerId : Vector UInt8 20) : Endpoint → List Input → List UInt8
  | _, [] => []
  | c, a :: l => c.taken a ++ received infoHash ourPeerId (c.step infoHash ourPeerId a) l

theorem received_snoc (c : Endpoint) (l : List Input) (a : Input) :
    received infoHash ourPeerId c (l ++ [a]) = received infoHash ourPeerId c l ++
      taken (l.foldl (step infoHash ourPeerId) c) a := by
  induction l generalizing c with
  | nil => simp [received]
  | cons b l ih => simp [received, ih]

/-- What goes well at each step: the kernel is right about connected sockets, no message is sent
before there is a connection, and none is too long for its length field. -/
def Orderly (c : Endpoint) (a : Input) : Prop :=
  Enabled c a ∧ Established c a ∧ Late c a ∧ ∀ m ∈ a.message?, m.payloadLength < 2 ^ 32 - 13

instance (c : Endpoint) : (a : Input) → Decidable (Late c a)
  | .sendMessage _ => inferInstanceAs (Decidable (_ ∧ _))
  | .connect _ _ | .disconnect | .returns | .events _ | .handleRead _ | .rxStep
  | .handleWrite _ => inferInstanceAs (Decidable True)

instance (c : Endpoint) (a : Input) : Decidable (c.Orderly a) :=
  inferInstanceAs (Decidable (_ ∧ _ ∧ _ ∧ _))

/-- How an end starts: about to connect, or over a socket that is connected already. -/
def start (infoHash ourPeerId : Vector UInt8 20) (adopted : Bool) : Endpoint :=
  if adopted then createWithSocket infoHash ourPeerId else {}

variable {adopted : Bool}

theorem speaks_run (h : Runs.Reach (step infoHash ourPeerId) Orderly
    (start infoHash ourPeerId adopted) l c) :
    Speaks (ourHandshake infoHash ourPeerId) (messages l) c := by
  refine h.history (I := fun l c => Speaks (ourHandshake infoHash ourPeerId) (messages l) c) ?_
    fun _ _ _ _ hI ha => Speaks.step hI ha.2.2.1
  cases adopted with
  | false => exact speaks_new
  | true => exact speaks_createWithSocket

theorem payloadLength_of_run (h : Runs.Reach (step infoHash ourPeerId) Orderly
    (start infoHash ourPeerId adopted) l c) : ∀ m ∈ messages l, m.payloadLength < 2 ^ 32 - 13 := by
  refine h.history (I := fun l _ => ∀ m ∈ messages l, m.payloadLength < 2 ^ 32 - 13)
    (by simp [messages]) fun l c a _ hI ha m hm => ?_
  rw [messages, List.filterMap_append, List.mem_append] at hm
  rcases hm with hm | hm
  · exact hI m hm
  · obtain ⟨b, hb, hm⟩ := List.mem_filterMap.mp hm
    rw [List.mem_singleton.mp hb] at hm
    exact ha.2.2.2 m hm

/-- **A run over a beginning of a stream** stands somewhere in it. -/
theorem hears_run (h : Runs.Reach (step infoHash ourPeerId) Orderly
    (start infoHash ourPeerId adopted) l c)
    (hp : received infoHash ourPeerId (start infoHash ourPeerId adopted) l <+:
      spell Segment.bytes (.handshake g :: frames.map .frame)) :
    ∃ done rest, Hears g frames done rest
      (received infoHash ourPeerId (start infoHash ourPeerId adopted) l) c := by
  induction h with
  | nil =>
    refine ⟨[], _, Hears.start ?_ ?_ ?_ ?_⟩ <;> cases adopted <;>
      simp [start, createWithSocket, sendHandshake, queue, push, Opening]
  | @snoc l c a hr ha ih =>
    rw [received_snoc, ← hr.eq_foldl] at hp ⊢
    obtain ⟨done, rest, h'⟩ := ih ((List.prefix_append _ _).trans hp)
    exact h'.step ha.1 ha.2.1 (fun hs => (speaks_run hr).registered_eq (Or.inl hs)) hp

end Endpoint

/-! ### Messages as frames -/

/-- The frame of a message. -/
theorem Frame.message_of_bytes {f : Frame} {m : PeerMessage} (h : f.bytes = m.bytes) :
    f.message = some m := by
  have hlen := f.length_bytes
  have hlt := f.prefixLength_lt
  have hd : deserialize f.bytes = .ok (some m, f.bytes.length) :=
    (deserialize_eq_some (by omega)).mpr ⟨hlen, Nat.le_refl _, by rw [List.take_length, h]⟩
  rw [deserialize_frame] at hd
  exact (Prod.mk.inj (Except.ok.inj hd)).1

theorem Endpoint.serialized_eq {m : PeerMessage} (h : m.payloadLength < 2 ^ 32 - 13) :
    serialized m = m.bytes := by
  obtain ⟨f, hf⟩ := exists_frame h
  have hlen := f.length_bytes
  have hlt := f.prefixLength_lt
  rw [serialized, serialize_eq (by rw [← hf]; omega)]

/-- **The bytes of some messages** are frames that carry them. -/
theorem exists_frames {msgs : List PeerMessage} (h : ∀ m ∈ msgs, m.payloadLength < 2 ^ 32 - 13) :
    ∃ frames : List Frame, (frames.map Frame.bytes).flatten = msgs.flatMap Endpoint.serialized ∧
      frames.filterMap (fun f => f.message.map Callback.onMessage) = msgs.map .onMessage := by
  induction msgs with
  | nil => exact ⟨[], rfl, rfl⟩
  | cons m msgs ih =>
    obtain ⟨hm, hmsgs⟩ := List.forall_mem_cons.mp h
    obtain ⟨frames, hbytes, hcalls⟩ := ih hmsgs
    obtain ⟨f, hf⟩ := exists_frame hm
    refine ⟨f :: frames, ?_, ?_⟩
    · rw [List.map_cons, List.flatten_cons, List.flatMap_cons, hbytes, hf,
        Endpoint.serialized_eq hm]
    · rw [List.filterMap_cons_some (b := .onMessage m) (by rw [Frame.message_of_bytes hf]; rfl),
        hcalls, List.map_cons]

/-! ### Both ends -/

/-- The two ends. -/
inductive Side
  | here
  | there
  deriving DecidableEq

/-- The opposite end. -/
def Side.other : Side → Side
  | here => there
  | there => here

@[simp] theorem Side.other_other (s : Side) : s.other.other = s := by cases s <;> rfl

theorem Side.other_ne (s : Side) : s.other ≠ s := by cases s <;> exact nofun

theorem Side.eq_other {s t : Side} (h : t ≠ s) : t = s.other := by
  cases s <;> cases t <;> first | rfl | exact absurd rfl h

/-- **Two connections and the bytes between them.** -/
structure Conversation where
  /-- The connections. -/
  ends : Side → Endpoint
  /-- The bytes on the way to an end. -/
  air : Side → List UInt8

namespace Conversation

open Endpoint

variable (infoHash ourPeerId : Side → Vector UInt8 20)

/-- Nothing is on the way yet. -/
def start (adopted : Side → Bool) : Conversation where
  ends := fun s => Endpoint.start (infoHash s) (ourPeerId s) (adopted s)
  air := fun _ => []

/-- **One step of one end**: what it takes off its socket was on the way to it, and what its
socket accepts is on the way to the other. -/
def step (x : Conversation) (a : Side × Input) : Conversation :=
  let c := (x.ends a.1).step (infoHash a.1) (ourPeerId a.1) a.2
  { ends := fun s => if s = a.1 then c else x.ends s
    air := fun s =>
      if s = a.1 then (x.air s).drop ((x.ends s).taken a.2).length
      else x.air s ++ (accepted c.trace).drop (accepted (x.ends a.1).trace).length }

/-- An end does what it may do, and reads only what has been on the way to it. -/
def Allowed (x : Conversation) (a : Side × Input) : Prop :=
  Orderly (x.ends a.1) a.2 ∧ (x.ends a.1).taken a.2 <+: x.air a.1

instance (x : Conversation) (a : Side × Input) : Decidable (x.Allowed a) :=
  inferInstanceAs (Decidable (_ ∧ _))

/-- **A run of both**, in any interleaving. -/
abbrev Run (adopted : Side → Bool) : List (Side × Input) → Conversation → Prop :=
  Runs.Reach (step infoHash ourPeerId) Allowed (start infoHash ourPeerId adopted)

variable {infoHash ourPeerId : Side → Vector UInt8 20} {adopted : Side → Bool}
  {l : List (Side × Input)} {x : Conversation}

/-- **What one end does** is a run of this end. -/
theorem Run.part (h : Run infoHash ourPeerId adopted l x) (s : Side) :
    Runs.Reach (Endpoint.step (infoHash s) (ourPeerId s)) Orderly
      (Endpoint.start (infoHash s) (ourPeerId s) (adopted s)) (Runs.part s l) (x.ends s) :=
  Runs.Reach.part (fun s => Endpoint.step (infoHash s) (ourPeerId s)) (fun _ => Orderly)
    (fun s x => x.ends s) h (fun _ _ _ ha => ⟨ha.1, if_pos rfl⟩)
    (fun _ _ _ _ hne => if_neg hne.symm) s

/-- **Nothing is lost on the way**: what the socket of one end has accepted has been read at the
other, or is on the way. -/
theorem Run.accepted_eq (h : Run infoHash ourPeerId adopted l x) (s : Side) :
    accepted (x.ends s.other).trace =
      received (infoHash s) (ourPeerId s)
        (Endpoint.start (infoHash s) (ourPeerId s) (adopted s)) (Runs.part s l) ++ x.air s := by
  induction h with
  | nil =>
    have hnil : ∀ t,
        accepted (Endpoint.start (infoHash t) (ourPeerId t) (adopted t)).trace = [] := by
      intro t
      cases adopted t <;> simp [Endpoint.start, createWithSocket, sendHandshake, queue, push]
    exact hnil s.other
  | @snoc l x a hr ha ih =>
    obtain ⟨t, a⟩ := a
    have hhands : Hands (x.ends t) ((x.ends t).step (infoHash t) (ourPeerId t) a) :=
      step_hands _ a
    obtain ⟨⟨y, hacc, -⟩, -⟩ := hhands
    by_cases hts : t = s
    · -- the end that receives has taken some of it
      subst hts
      obtain ⟨rest, hrest⟩ := ha.2
      have hend : (Conversation.step infoHash ourPeerId x (t, a)).ends t.other = x.ends t.other :=
        if_neg t.other_ne
      have hair : (Conversation.step infoHash ourPeerId x (t, a)).air t = rest := by
        show (if t = t then _ else _) = rest
        rw [if_pos rfl, ← hrest, List.drop_left]
      have hfold : (Runs.part t l).foldl (Endpoint.step (infoHash t) (ourPeerId t))
          (Endpoint.start (infoHash t) (ourPeerId t) (adopted t)) = x.ends t :=
        (Run.part hr t).eq_foldl.symm
      rw [hend, hair, ih, ← hrest, Runs.part_snoc_self, received_snoc, hfold, List.append_assoc]
    · -- the socket of the end that sends may have accepted more
      obtain rfl := Side.eq_other hts
      have hend : (Conversation.step infoHash ourPeerId x (s.other, a)).ends s.other =
          (x.ends s.other).step (infoHash s.other) (ourPeerId s.other) a := if_pos rfl
      have hair : (Conversation.step infoHash ourPeerId x (s.other, a)).air s = x.air s ++ y := by
        show (if s = s.other then _ else _ ++ _) = _
        rw [if_neg s.other_ne.symm, hacc, List.drop_left]
      rw [hend, hair, hacc, ih, Runs.part_snoc_of_ne s.other_ne, List.append_assoc]

/-- **What an end hands on is what the other end sent.** In every run of two connections over a
stream socket, however the bytes are cut and whatever the callbacks do: what an end has handed on
to its caller is a beginning of the handshake of the other end and the messages passed to
`send_message` there, in order; and it is all of them once both ends are established, nothing is
left to be sent or on the way, and the loop over the receive buffer is over. -/
theorem inOrder (h : Run infoHash ourPeerId adopted l x) (s : Side) :
    let sent : List Callback :=
      .onHandshake (ourHandshake (infoHash s.other) (ourPeerId s.other)) ::
        (messages (Runs.part s.other l)).map .onMessage
    handedOn (x.ends s).trace <+: sent ∧
      ((x.ends s).Talking → (x.ends s.other).Talking → (x.ends s.other).txBuffer = [] →
        x.air s = [] → .rxLoop ∉ (x.ends s).todo → handedOn (x.ends s).trace = sent) := by
  intro sent
  have hspeaks := speaks_run (Run.part h s.other)
  obtain ⟨frames, hbytes, hcalls⟩ := exists_frames (payloadLength_of_run (Run.part h s.other))
  have hspell : spell Segment.bytes
      (.handshake (ourHandshake (infoHash s.other) (ourPeerId s.other)) :: frames.map .frame) =
      (ourHandshake (infoHash s.other) (ourPeerId s.other)).serialize ++
        (messages (Runs.part s.other l)).flatMap serialized := by
    rw [Receiver.spell_stream, Receiver.stream, hbytes]
  have hsent : (.handshake (ourHandshake (infoHash s.other) (ourPeerId s.other)) ::
      frames.map Segment.frame).filterMap Segment.call = sent := by
    rw [Receiver.filterMap_call, Receiver.delivered, hcalls]
  have haccepted := h.accepted_eq s
  have hprefix := hspeaks.accepted_prefix
  rw [haccepted, ← hspell] at hprefix
  obtain ⟨done, rest, hears⟩ := hears_run (Run.part h s) ((List.prefix_append _ _).trans hprefix)
  refine ⟨?_, fun hts hto htx hair hloop => ?_⟩
  · rw [hears.handedOn_eq, ← hsent, ← hears.split, List.filterMap_append]
    exact List.prefix_append _ _
  · -- the whole stream is there, and no segment of it is left
    have hstream := hspeaks.talking hto
    rw [stream, htx, List.append_nil, haccepted, hair, List.append_nil, ← hspell,
      hears.read_eq hts, ← hears.split, spell_append] at hstream
    have hrx := List.append_cancel_left hstream
    have hshort := (hears.short hts).resolve_left hloop
    have hrest : rest = [] := by
      rw [← List.append_nil rest] at hshort
      exact eq_nil_of_short hshort (by rw [hrx, List.append_nil])
    rw [hears.handedOn_eq, ← hsent, ← hears.split, hrest, List.append_nil]

/-- An end with a socket of its own sends an Unchoke behind its handshake; the end that connects to
it reads both in two portions. -/
theorem inOrder_unchoke :
    let zeros : Side → Vector UInt8 20 := fun _ => Vector.replicate 20 0
    let g := ourHandshake (zeros .there) (zeros .there)
    let l : List (Side × Input) := [(.there, .handleWrite [.bytes 68]),
      (.here, .connect .inProgress true), (.there, .sendMessage .unchokeMsg),
      (.there, .handleWrite [.bytes 2, .interrupted, .bytes 3]),
      (.here, .events { readable := true, writable := true }), (.here, .handleWrite [.again]),
      (.here, .handleRead [.bytes (g.serialize ++ [0, 0, 0]), .again]), (.here, .rxStep),
      (.here, .returns), (.here, .rxStep), (.here, .handleWrite [.bytes 68]),
      (.here, .events { readable := true }), (.here, .handleRead [.bytes [1, 1]]), (.here, .rxStep),
      (.here, .returns), (.here, .rxStep)]
    handedOn ((l.foldl (step zeros zeros) (start zeros zeros (· = .there))).ends .here).trace =
      [.onHandshake g, .onMessage .unchokeMsg] := by
  intro zeros g l
  have hrun : Run zeros zeros (· = .there) l
      (l.foldl (step zeros zeros) (start zeros zeros (· = .there))) := by
    refine Runs.reach_iff.mpr ⟨rfl, ?_⟩
    simp only [l, Runs.throughout_cons]
    refine ⟨?_, ?_, ?_, ?_, ?_, ?_, ?_, ?_, ?_, ?_, ?_, ?_, ?_, ?_, ?_, ?_,
      Runs.throughout_nil _⟩ <;> decide +kernel
  exact (inOrder hrun .here).2 (Or.inr (by decide +kernel)) (Or.inl (by decide +kernel))
    (by decide +kernel) (by decide +kernel) (by decide +kernel)

end Conversation

end TransferEngine
