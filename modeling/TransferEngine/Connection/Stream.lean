import TransferEngine.Codec
import TransferEngine.Connection.Lifecycle

/-!
# The bytes a connection sends

What the peer gets to read is what the socket accepted, and then what is still in `tx_buffer_`:
the stream of the connection (`TransferEngine.Endpoint.stream`). However the socket cuts it up, a
step appends the bytes of the message it sends, or the handshake, or nothing
(`TransferEngine.Endpoint.step_sends`).

The handshake has to be the first thing in it. It is, unless a message is sent before the
connection is established: `send_message` queues it, and `send_handshake` appends the handshake
behind it. That is exactly when the stream is out of order
(`TransferEngine.Endpoint.ordered_iff`), since no message looks like the start of a handshake.
-/

namespace TransferEngine

open Bytes

/-! ### What a message starts with -/

/-- **A message starts with zeros, or has its id in fifth place.** -/
theorem PeerMessage.serialize_opens {m : PeerMessage} {b : List UInt8} (h : m.serialize = .ok b) :
    b = List.replicate 4 0 ∨ ∃ k : MessageId, b[4]? = some k.toByte := by
  cases m with
  | keepAliveMsg =>
    cases h
    exact Or.inl rfl
  | chokeMsg => cases h; exact Or.inr ⟨.choke, rfl⟩
  | unchokeMsg => cases h; exact Or.inr ⟨.unchoke, rfl⟩
  | interestedMsg => cases h; exact Or.inr ⟨.interested, rfl⟩
  | notInterestedMsg => cases h; exact Or.inr ⟨.notInterested, rfl⟩
  | haveMsg i => cases h; exact Or.inr ⟨.have_, rfl⟩
  | requestMsg i c n => cases h; exact Or.inr ⟨.request, rfl⟩
  | cancelMsg i c n => cases h; exact Or.inr ⟨.cancel, rfl⟩
  | portMsg port => cases h; exact Or.inr ⟨.port, rfl⟩
  | bitfieldMsg bits =>
    obtain ⟨out, -, h⟩ := bind_eq_ok h
    obtain ⟨out', hid, h⟩ := bind_eq_ok h
    refine Or.inr ⟨.bitfield, ?_⟩
    rw [getElem?_of_write h (by omega), getElem?_of_write_singleton hid]
  | pieceMsg i c block =>
    obtain ⟨out, -, h⟩ := bind_eq_ok h
    obtain ⟨out', hid, h⟩ := bind_eq_ok h
    obtain ⟨out₁, h₁, h⟩ := bind_eq_ok h
    obtain ⟨out₂, h₂, h⟩ := bind_eq_ok h
    refine Or.inr ⟨.piece, ?_⟩
    rw [getElem?_of_write h (by omega), getElem?_of_write h₂ (by omega),
      getElem?_of_write h₁ (by omega), getElem?_of_write_singleton hid]

/-- **No message starts a handshake.** -/
theorem PeerMessage.ne_handshake {m : PeerMessage} {b rest rest' : List UInt8} {g : HandshakeMsg}
    (h : m.serialize = .ok b) : b ++ rest ≠ g.serialize ++ rest' := by
  intro heq
  rcases PeerMessage.serialize_opens h with rfl | ⟨k, hk⟩
  · have hhead := congrArg List.head? heq
    simp [HandshakeMsg.serialize] at hhead
  · have hlt : 4 < b.length := (List.getElem?_eq_some_iff.mp hk).1
    have hfifth := congrArg (fun l => l[4]?) heq
    simp only [List.getElem?_append_left hlt, hk, HandshakeMsg.serialize, HandshakeMsg.protocol,
      List.cons_append, List.getElem?_cons_succ, List.getElem?_cons_zero, Option.some.injEq]
      at hfifth
    cases k <;> simp [MessageId.toByte] at hfifth

namespace Endpoint

/-! ### The stream -/

/-- The bytes the socket has accepted. -/
def accepted (trace : List Happening) : List UInt8 :=
  trace.flatMap fun
    | .handed bytes n => bytes.take n
    | _ => []

/-- **The stream of a connection**: what the socket has accepted, and what is still to be sent. -/
def stream (c : Endpoint) : List UInt8 := accepted c.trace ++ c.txBuffer

@[simp] theorem accepted_append (l₁ l₂ : List Happening) :
    accepted (l₁ ++ l₂) = accepted l₁ ++ accepted l₂ :=
  List.flatMap_append

@[simp] theorem accepted_nil : accepted [] = [] := rfl

@[simp] theorem accepted_entered (σ : ConnectionState) (l : List Happening) :
    accepted (.entered σ :: l) = accepted l := rfl

@[simp] theorem accepted_call (e : Callback) (l : List Happening) :
    accepted (.call e :: l) = accepted l := rfl

@[simp] theorem accepted_queued (bytes : List UInt8) (l : List Happening) :
    accepted (.queued bytes :: l) = accepted l := rfl

/-- **The loop of `handle_write` loses nothing**: what the socket accepts and what is left is
what there was. -/
theorem accepted_writeLoop (tx : List UInt8) (answers : List Sent) :
    accepted (writeLoop tx answers).1 ++ (writeLoop tx answers).2.1 = tx := by
  fun_induction writeLoop tx answers with
  | case1 => rfl
  | case2 a tx n answers out ih =>
    have hmin : (a :: tx).take (min n (tx.length + 1)) = (a :: tx).take n := by
      rw [← List.length_cons, ← List.take_take, List.take_length]
    change (a :: tx).take (min n (tx.length + 1)) ++ accepted out.1 ++ out.2.1 = a :: tx
    rw [hmin, List.append_assoc, ih, List.take_append_drop]
  | case3 a tx answers out ih => exact ih
  | case4 => rfl
  | case5 => rfl
  | case6 => rfl

/-! ### What a step sends -/

/-- The serialisation of a message; one that has none is not sent. -/
def serialized (m : PeerMessage) : List UInt8 :=
  match m.serialize with
  | .ok bytes => bytes
  | .error _ => []

/-- The connection is not established yet. -/
def Opening (c : Endpoint) : Prop :=
  c.connection.state = .idle ∨ c.connection.state = .connecting

/-- The connection is established. -/
def Talking (c : Endpoint) : Prop :=
  c.connection.state = .handshaking ∨ c.connection.state = .active

/-- Whether an input is a call of `send_message`. -/
def Input.message? : Input → Option PeerMessage
  | .sendMessage m => some m
  | _ => none

variable {c c' : Endpoint} {infoHash ourPeerId : Vector UInt8 20} {a : Input} {l : List Input}

/-- **What a step adds to the stream.** -/
inductive Sends (infoHash ourPeerId : Vector UInt8 20) (c : Endpoint) (a : Input) (c' : Endpoint) :
    Prop
  /-- The connection is closed. -/
  | closed : c'.connection.state = .disconnected → Sends infoHash ourPeerId c a c'
  /-- Nothing is added. -/
  | quiet : a.message? = none → (c.Opening ↔ c'.Opening) → (c.Talking ↔ c'.Talking) →
      c'.stream = c.stream → Sends infoHash ourPeerId c a c'
  /-- The connection is established, and the handshake is added. -/
  | greets : a.message? = none → c.Opening → c'.Talking →
      c'.stream = c.stream ++ (ourHandshake infoHash ourPeerId).serialize →
      Sends infoHash ourPeerId c a c'
  /-- A message is added, or cannot be written down. -/
  | message (m : PeerMessage) : a.message? = some m →
      c'.connection.state = c.connection.state → c'.stream = c.stream ++ serialized m →
      c'.todo.head? = some .crashed ∨ (∃ bytes, m.serialize = .ok bytes) →
      Sends infoHash ourPeerId c a c'

@[simp] theorem state_disconnect (c : Endpoint) :
    c.disconnect.connection.state = .disconnected := by
  rw [disconnect]
  split
  case isTrue h => exact h
  case isFalse => rfl

/-- A step that leaves the state and the stream alone adds nothing. -/
theorem Sends.of_eq (ha : a.message? = none) (hs : c'.connection.state = c.connection.state)
    (hstream : c'.stream = c.stream) : Sends infoHash ourPeerId c a c' :=
  .quiet ha (by rw [Opening, Opening, hs]) (by rw [Talking, Talking, hs]) hstream

theorem stream_sendHandshake (c : Endpoint) :
    ((c.enter .handshaking).sendHandshake infoHash ourPeerId).stream =
      c.stream ++ (ourHandshake infoHash ourPeerId).serialize := by
  simp [stream, sendHandshake, enter, queue, push]

theorem sends_connect (status : ConnectStatus) (regOk : Bool) :
    Sends infoHash ourPeerId c (.connect status regOk)
      (c.connect infoHash ourPeerId status regOk) := by
  rw [connect]
  split
  case isTrue => exact .of_eq rfl rfl rfl
  case isFalse hidle =>
    have hs : c.connection.state = .idle := not_not.mp hidle
    dsimp only
    split
    case isTrue => exact .closed rfl
    case isFalse =>
      split
      case isTrue => exact .closed rfl
      case isFalse =>
        split
        case isTrue =>
          refine .greets rfl (Or.inl hs) (Or.inl rfl) ?_
          rw [stream_sendHandshake]
          simp [stream, enter]
        case isFalse =>
          refine .quiet rfl (iff_of_true (Or.inl hs) (Or.inr rfl)) ?_ (by simp [stream, enter])
          simp [Talking, hs, enter]

theorem sends_sendMessage (m : PeerMessage) :
    Sends infoHash ourPeerId c (.sendMessage m) (c.sendMessage m) := by
  rcases sendMessage_cases c m with ⟨hs, he⟩ | ⟨-, ⟨e, herr⟩, he⟩ | ⟨-, bytes, hser, he⟩
  · rw [he]
    exact .closed hs
  · rw [he]
    refine .message m rfl (PeerConnection.state_sending _ m) ?_ (Or.inl rfl)
    rw [serialized, herr, List.append_nil]
    rfl
  · rw [he]
    refine .message m rfl (PeerConnection.state_sending _ m) ?_ (Or.inr ⟨bytes, hser⟩)
    simp [stream, serialized, hser]

theorem sends_handleEvents (e : Readiness) :
    Sends infoHash ourPeerId c (.events e) (c.handleEvents infoHash ourPeerId e) := by
  rw [handleEvents]
  split
  case isTrue => exact .closed (state_disconnect c)
  case isFalse =>
    split
    case isTrue => exact .closed (state_disconnect c)
    case isFalse =>
      split
      case isTrue hs =>
        split
        case isTrue => exact .closed (state_disconnect c)
        case isFalse =>
          refine .greets rfl (Or.inr hs.1) (Or.inl rfl) ?_
          rw [stream_sendHandshake]
          rfl
      case isFalse => exact .of_eq rfl rfl rfl

theorem sends_handleRead (answers : List Recv) (hs : c'.connection.state = c.connection.state)
    (hstream : c'.stream = c.stream) :
    Sends infoHash ourPeerId c (.handleRead answers) (c'.handleRead answers) := by
  rw [handleRead]
  dsimp only
  split
  case h_1 => exact .closed (state_disconnect _)
  case h_2 => exact .closed (state_disconnect _)
  case h_3 => exact .of_eq rfl hs hstream

theorem sends_rxStep (hs : c'.connection.state = c.connection.state)
    (hstream : c'.stream = c.stream) :
    Sends infoHash ourPeerId c .rxStep c'.rxStep := by
  rw [rxStep]
  rcases hpass : c'.connection.rxPass with e | pass
  · exact .of_eq rfl hs hstream
  cases PeerConnection.passes_of_rxPass hpass with
  | stop conn hstate _ => exact .of_eq rfl (hstate.trans hs) hstream
  | refuse _ _ _ => exact .closed (state_disconnect _)
  | handshake m hstate _ _ =>
    rw [hs] at hstate
    refine .quiet rfl ?_ (iff_of_true (Or.inl hstate) (Or.inr rfl)) ?_
    · simp [Opening, hstate, call, push, enter]
    · rw [← hstream]
      simp [stream, call, push, enter]
  | frame m conn hstate hstate' =>
    rw [hs] at hstate
    cases m with
    | none => exact .of_eq rfl (hstate'.trans hstate.symm) hstream
    | some m =>
      refine .of_eq rfl (hstate'.trans hstate.symm) ?_
      rw [← hstream]
      simp [stream, call, push]

theorem sends_handleWrite (answers : List Sent) (hs : c'.connection.state = c.connection.state)
    (hstream : c'.stream = c.stream) :
    Sends infoHash ourPeerId c (.handleWrite answers) (c'.handleWrite answers) := by
  rw [handleWrite]
  split
  case isTrue => exact .of_eq rfl hs hstream
  case isFalse =>
    generalize (if c'.registered then answers else [.error]) = answers'
    dsimp only
    split
    case isTrue => exact .closed (state_disconnect _)
    case isFalse =>
      refine .of_eq rfl hs ?_
      rw [← hstream, stream, stream, accepted_append, List.append_assoc, accepted_writeLoop]

/-- **What one step adds to the stream.** -/
theorem step_sends (c : Endpoint) (a : Input) :
    Sends infoHash ourPeerId c a (c.step infoHash ourPeerId a) := by
  cases a with
  | connect status regOk => exact sends_connect status regOk
  | disconnect => exact .closed (state_disconnect c)
  | sendMessage m => exact sends_sendMessage m
  | returns => exact .of_eq rfl rfl rfl
  | events e => exact sends_handleEvents e
  | handleRead answers => exact sends_handleRead answers rfl rfl
  | rxStep => exact sends_rxStep rfl rfl
  | handleWrite answers => exact sends_handleWrite answers rfl rfl

/-! ### Order -/

/-- The messages passed to `send_message`, in order. -/
def messages (l : List Input) : List PeerMessage := l.filterMap Input.message?

/-- **The stream is in order**: the handshake, and then the messages. -/
def Ordered (infoHash ourPeerId : Vector UInt8 20) (l : List Input) (c : Endpoint) : Prop :=
  accepted c.trace ++ c.txBuffer =
    (ourHandshake infoHash ourPeerId).serialize ++ (messages l).flatMap serialized

/-- No message is sent before the connection is established. -/
def Late (c : Endpoint) : Input → Prop
  | .sendMessage _ => c.connection.state ≠ .idle ∧ c.connection.state ≠ .connecting
  | _ => True

theorem messages_snoc_of_none (h : a.message? = none) : messages (l ++ [a]) = messages l := by
  simp [messages, h]

theorem messages_snoc_of_some {m : PeerMessage} (h : a.message? = some m) :
    messages (l ++ [a]) = messages l ++ [m] := by
  simp [messages, h]

theorem late_of_message (h : a.message? = none) : Late c a := by
  cases a with
  | sendMessage m => cases h
  | _ => trivial

theorem late_message_iff {m : PeerMessage} (h : a.message? = some m) : Late c a ↔ ¬c.Opening := by
  cases a with
  | sendMessage m' => exact not_or.symm
  | _ => cases h

/-- **What the stream is made of**: the messages sent before the connection was established, the
handshake, and the messages sent after. -/
structure Made (infoHash ourPeerId : Vector UInt8 20) (l : List Input) (c : Endpoint) : Prop where
  /-- Before: messages only. -/
  opening : c.Opening → c.stream = (messages l).flatMap serialized ∧
    (c.todo.head? = some .crashed ∨ ∀ m ∈ messages l, ∃ bytes, m.serialize = .ok bytes) ∧
    (Runs.Throughout (step infoHash ourPeerId) {} l Late ↔ messages l = [])
  /-- After: the handshake stands behind the messages that came before it. -/
  talking : c.Talking → ∃ ms₁ ms₂, messages l = ms₁ ++ ms₂ ∧
    c.stream = ms₁.flatMap serialized ++
      ((ourHandshake infoHash ourPeerId).serialize ++ ms₂.flatMap serialized) ∧
    (∀ m ∈ ms₁, ∃ bytes, m.serialize = .ok bytes) ∧
    (Runs.Throughout (step infoHash ourPeerId) {} l Late ↔ ms₁ = [])

theorem Talking.not_opening (h : c.Talking) : ¬c.Opening := by
  rintro (ho | ho) <;> rcases h with h | h <;> cases ho.symm.trans h

/-- Nothing happens any more where a buffer was left. -/
theorem not_crashed_of_enabled (h : Enabled c a) : c.todo.head? ≠ some .crashed := by
  have hcaller : c.InCaller → c.todo.head? ≠ some .crashed := by
    rintro (h | h) <;> simp [h]
  cases a with
  | connect _ _ => exact hcaller h
  | disconnect => exact hcaller h
  | sendMessage _ => exact hcaller h
  | returns => simp [show c.todo.head? = some .caller from h]
  | events _ => exact hcaller (Or.inl h.1)
  | handleRead _ => simp [show c.todo.head? = some .handleRead from h]
  | rxStep => simp [show c.todo.head? = some .rxLoop from h]
  | handleWrite _ => simp [show c.todo.head? = some .handleWrite from h]

/-- **One step of what the stream is made of.** -/
theorem Made.step (h : Made infoHash ourPeerId l c) (hc : c = l.foldl (step infoHash ourPeerId) {})
    (ha : Enabled c a) : Made infoHash ourPeerId (l ++ [a]) (c.step infoHash ourPeerId a) := by
  have hlate : Runs.Throughout (Endpoint.step infoHash ourPeerId) {} (l ++ [a]) Late ↔
      Runs.Throughout (Endpoint.step infoHash ourPeerId) {} l Late ∧ Late c a := by
    rw [Runs.throughout_snoc, ← hc]
  have hsends : Sends infoHash ourPeerId c a (c.step infoHash ourPeerId a) := step_sends c a
  cases hsends with
  | closed hs => constructor <;> rintro (hs' | hs') <;> cases hs.symm.trans hs'
  | quiet hmsg hopen htalk hstream =>
    have hmsgs := messages_snoc_of_none (l := l) hmsg
    have hthrough := hlate.trans (and_iff_left (late_of_message (c := c) hmsg))
    refine ⟨fun ho => ?_, fun ht => ?_⟩
    · obtain ⟨hmade, hok, hiff⟩ := h.opening (hopen.mpr ho)
      rw [hmsgs, hstream]
      exact ⟨hmade, Or.inr (hok.resolve_left (not_crashed_of_enabled ha)), hthrough.trans hiff⟩
    · obtain ⟨ms₁, ms₂, hsplit, hmade, hok, hiff⟩ := h.talking (htalk.mpr ht)
      rw [hmsgs, hstream]
      exact ⟨ms₁, ms₂, hsplit, hmade, hok, hthrough.trans hiff⟩
  | greets hmsg hopen htalk hstream =>
    have hmsgs := messages_snoc_of_none (l := l) hmsg
    have hthrough := hlate.trans (and_iff_left (late_of_message (c := c) hmsg))
    obtain ⟨hmade, hok, hiff⟩ := h.opening hopen
    refine ⟨fun ho => ?_, fun _ => ⟨messages l, [], ?_, ?_, ?_, hthrough.trans hiff⟩⟩
    · exact absurd ho htalk.not_opening
    · rw [hmsgs, List.append_nil]
    · rw [hstream, hmade]
      simp
    · exact hok.resolve_left (not_crashed_of_enabled ha)
  | message m hmsg hs hstream hser =>
    have hmsgs := messages_snoc_of_some (l := l) hmsg
    refine ⟨fun ho => ?_, fun ht => ?_⟩
    · rw [Opening, hs] at ho
      obtain ⟨hmade, hok, -⟩ := h.opening ho
      refine ⟨?_, hser.imp_right fun hser' m' hm' => ?_, ?_⟩
      · rw [hstream, hmade, hmsgs]
        simp
      · rw [hmsgs, List.mem_append, List.mem_singleton] at hm'
        rcases hm' with hm' | rfl
        · exact hok.resolve_left (not_crashed_of_enabled ha) m' hm'
        · exact hser'
      · -- this message is early
        rw [hlate, late_message_iff hmsg, hmsgs]
        exact iff_of_false (fun hcon => hcon.2 ho) (by simp)
    · rw [Talking, hs] at ht
      obtain ⟨ms₁, ms₂, hsplit, hmade, hok, hiff⟩ := h.talking ht
      refine ⟨ms₁, ms₂ ++ [m], ?_, ?_, hok, ?_⟩
      · rw [hmsgs, hsplit, List.append_assoc]
      · rw [hstream, hmade]
        simp
      · rw [hlate, late_message_iff hmsg, hiff, and_iff_left (Talking.not_opening ht)]

theorem made_new : Made infoHash ourPeerId [] {} where
  opening := fun _ => ⟨rfl, Or.inr (by simp [messages]),
    iff_of_true (Runs.throughout_nil _) rfl⟩
  talking := by simp [Talking]

theorem made_of_run (h : Run infoHash ourPeerId l c) : Made infoHash ourPeerId l c :=
  h.history made_new fun _ _ _ hr hI ha => hI.step hr.eq_foldl ha

/-- **When the stream is in order.** In every run, in every state in which the connection is
established and not closed, whatever the socket accepted and when: what it has accepted, followed
by what is still to be sent, is the handshake followed by the messages in the order they were
passed to `send_message`, exactly when none of them was passed before the connection was
established. -/
theorem ordered_iff (h : Run infoHash ourPeerId l c)
    (hs : c.connection.state = .handshaking ∨ c.connection.state = .active) :
    Ordered infoHash ourPeerId l c ↔
      Runs.Throughout (step infoHash ourPeerId) {} l Late := by
  obtain ⟨ms₁, ms₂, hsplit, hmade, hok, hiff⟩ := (made_of_run h).talking hs
  rw [hiff, Ordered, ← stream, hmade, hsplit]
  rcases ms₁ with _ | ⟨m, ms₁⟩
  · exact iff_of_true rfl rfl
  · refine iff_of_false (fun heq => ?_) (by simp)
    obtain ⟨bytes, hser⟩ := hok m (by simp)
    rw [List.flatMap_cons, List.append_assoc, serialized, hser] at heq
    exact PeerMessage.ne_handshake hser heq

/-- A handshake that goes out in two parts, and a message behind it. -/
theorem ordered_partial :
    let zeros : Vector UInt8 20 := Vector.replicate 20 0
    let l : List Input := [.connect .connected true, .handleWrite [.bytes 60, .again],
      .sendMessage .interestedMsg, .handleWrite [.interrupted, .bytes 10, .again]]
    Ordered zeros zeros l (l.foldl (step zeros zeros) {}) := by
  intro zeros l
  have hrun : Run zeros zeros l (l.foldl (step zeros zeros) {}) := by
    refine Runs.reach_iff.mpr ⟨rfl, ?_⟩
    simp only [l, Runs.throughout_cons]
    exact ⟨by decide, by decide +kernel, by decide +kernel, by decide +kernel,
      Runs.throughout_nil _⟩
  refine (ordered_iff hrun (Or.inl (by decide +kernel))).mpr ?_
  simp only [l, Runs.throughout_cons]
  exact ⟨trivial, trivial, ⟨by decide +kernel, by decide +kernel⟩, trivial, Runs.throughout_nil _⟩

/-- **A message sent to an idle connection** comes before the handshake. -/
theorem not_ordered_early :
    let zeros : Vector UInt8 20 := Vector.replicate 20 0
    let l : List Input := [.sendMessage .interestedMsg, .connect .connected true]
    Run zeros zeros l (l.foldl (step zeros zeros) {}) ∧
      (l.foldl (step zeros zeros) {}).connection.state = .handshaking ∧
      ¬Ordered zeros zeros l (l.foldl (step zeros zeros) {}) := by
  refine ⟨Runs.reach_iff.mpr ⟨rfl, ?_⟩, by decide +kernel, ?_⟩
  · simp only [Runs.throughout_cons]
    exact ⟨by decide, by decide +kernel, Runs.throughout_nil _⟩
  · rw [Ordered]
    decide +kernel

end Endpoint

end TransferEngine
