import TransferEngine.Receiving.Reassembly

/-!
# The end of a stream

A peer sends a handshake and some frames, and closes. The operating system reports the
bytes and the close in any number of events (`TransferEngine.Closing`), and the connection
closes at the event that tells it of the close: `handle_events` at `EPOLLRDHUP`, before it
reads, and `handle_read` when `recv` answers zero, before it works through what it has just
read. Either way `disconnect` empties the buffer.

So the frames that come with the close are lost
(`TransferEngine.Closing.allDelivered_iff`).
-/

namespace TransferEngine

open PeerMessage Segments Receiver

namespace Readiness

/-- The bytes that are there to read. -/
def bytes (e : Readiness) : List UInt8 := (readLoop e.answers).1

/-- An event that brings bytes, or nothing, and goes well. -/
structure IsData (e : Readiness) : Prop where
  failure_eq : e.failure = false
  rdhup_eq : e.rdhup = false
  writeFails_eq : e.writeFails = false
  readEnd_eq : (readLoop e.answers).2 = .again
  bytes_eq : e.readable = false → e.bytes = []

/-- An event that tells of the close by the peer: as an event of its own kind, or by a
`recv` that answers zero. -/
def IsClose (e : Readiness) : Prop :=
  e.failure = false ∧
    (e.rdhup = true ∨ (e.readable = true ∧ (readLoop e.answers).2 = .closed))

end Readiness

/-- **An orderly close**: how the bytes of a handshake and some frames, and the close after
them, are grouped into events. -/
structure Closing (h : HandshakeMsg) (frames : List Frame) where
  /-- The events before the close is known. -/
  before : List Readiness
  /-- The event that tells of it, with what is still to be read then. -/
  last : Readiness
  isData_before : ∀ e ∈ before, e.IsData
  isClose_last : last.IsClose
  bytes_eq : spell Readiness.bytes before ++ last.bytes = stream h frames

/-- The message of a call. -/
def Callback.message? : Callback → Option PeerMessage
  | onMessage m => some m
  | _ => none

namespace Receiver

/-- The messages handed on before the connection is reported closed. -/
def messagesBeforeClose (r : Receiver) : List PeerMessage :=
  (r.calls.takeWhile (· ≠ .onDisconnect)).filterMap Callback.message?

end Receiver

namespace Closing

variable {h : HandshakeMsg} {frames : List Frame}

/-- The connection after all events. -/
def run (cl : Closing h frames) : Receiver :=
  handleEvents .quiet (cl.before.foldl (handleEvents .quiet) start) cl.last

/-- **Nothing is lost**: the messages of all frames are handed on before the connection is
reported closed. -/
def AllDelivered (cl : Closing h frames) : Prop :=
  cl.run.messagesBeforeClose = frames.filterMap Frame.message

/-- Every frame that carries a message has arrived in full before the event that tells of
the close. -/
def ReadInTime (cl : Closing h frames) : Prop :=
  ∀ l₁ f l₂, frames = l₁ ++ f :: l₂ → f.message ≠ none →
    (stream h (l₁ ++ [f])).length ≤ (spell Readiness.bytes cl.before).length

end Closing

namespace Receiver

variable {h : HandshakeMsg} {frames : List Frame} {done us us₁ us₂ : List Segment}
  {w t : List UInt8} {r : Receiver}

theorem Stands.state_ne (hr : Stands h frames done us w r) :
    r.connection.state ≠ .disconnected ∧ r.connection.state ≠ .connecting := by
  rw [hr.state_eq]
  split <;> exact ⟨nofun, nofun⟩

theorem handleRead_again {callbacks : Callbacks} {answers : List Recv}
    (h : (readLoop answers).2 = .again) (hf : r.fault = none) :
    r.handleRead callbacks answers = feed callbacks r (readLoop answers).1 := by
  rw [handleRead, feed, h, if_neg (by simp [hf])]

/-- An event that brings bytes does no more than read them. -/
theorem handleEvents_data {callbacks : Callbacks} {e : Readiness} (he : e.IsData)
    (hd : r.connection.state ≠ .disconnected) (hc : r.connection.state ≠ .connecting) :
    handleEvents callbacks r e = if e.readable then r.handleRead callbacks e.answers else r := by
  have hcon : ¬(r.connection.state = .connecting ∧ e.writable = true) := fun h => hc h.1
  rw [handleEvents, he.failure_eq, he.rdhup_eq, he.writeFails_eq]
  simp only [Bool.false_eq_true, if_false, if_neg hcon, if_neg hd, handleWrite, ite_self]

theorem calls_disconnect (hd : r.connection.state ≠ .disconnected) :
    r.disconnect.calls = r.calls ++ [.onDisconnect] := by
  rw [disconnect, if_neg hd]

theorem state_disconnect : r.disconnect.connection.state = .disconnected := by
  rw [disconnect]
  split
  case isTrue hd => exact hd
  case isFalse => rfl

theorem disconnect_disconnect : r.disconnect.disconnect = r.disconnect := by
  rw [disconnect.eq_def r.disconnect, if_pos state_disconnect]

/-- **An event that tells of the close** has the connection closed, and nothing else. -/
theorem handleEvents_close {callbacks : Callbacks} {e : Readiness} (he : e.IsClose)
    (hd : r.connection.state ≠ .disconnected) (hc : r.connection.state ≠ .connecting) :
    (handleEvents callbacks r e).calls = r.calls ++ [.onDisconnect] := by
  obtain ⟨hf, hclose⟩ := he
  rw [handleEvents, hf, if_neg Bool.false_ne_true]
  by_cases hrd : e.rdhup = true
  · rw [if_pos hrd, calls_disconnect hd]
  · obtain ⟨hin, hend⟩ := hclose.resolve_left hrd
    have hread : r.handleRead callbacks e.answers = (r.append e.bytes).disconnect := by
      rw [handleRead, hend]
      rfl
    have hcon : ¬(r.connection.state = .connecting ∧ e.writable = true) := fun h => hc h.1
    simp only [if_neg hrd, if_neg hcon, if_neg hd, if_pos hin, hread, handleWrite,
      disconnect_disconnect, ite_self]
    exact calls_disconnect hd

/-- **An event that brings bytes** moves the connection on like a chunk does. -/
theorem stands_handleEvents {e : Readiness} (he : e.IsData) (ht : IsPartial t) {v : List UInt8}
    (hr : Stands h frames done (us₁ ++ us₂) v r) (hv : Short Segment.bytes (us₁ ++ us₂) v)
    (hx : v ++ e.bytes = spell Segment.bytes us₁ ++ w)
    (hw : w <+: spell Segment.bytes us₂ ++ t) (hs : Short Segment.bytes us₂ w) :
    Stands h frames (done ++ us₁) us₂ w (handleEvents .quiet r e) := by
  rw [handleEvents_data he hr.state_ne.1 hr.state_ne.2]
  cases hin : e.readable with
  | true =>
    rw [if_pos rfl, handleRead_again he.readEnd_eq hr.fault_eq]
    exact stands_feed ht hr hx hw hs
  | false =>
    -- nothing is read, and no segment was there in full before
    rw [he.bytes_eq hin, List.append_nil] at hx
    obtain rfl : us₁ = [] := eq_nil_of_short hv hx
    obtain rfl : v = w := hx
    simpa using hr

/-- The frames of a stream that a connection has worked through, and those it waits for. -/
theorem Stands.exists_frames (hr : Stands h frames done us w r) :
    ∃ l₁ l₂, frames = l₁ ++ l₂ ∧
      ((done = [] ∧ l₁ = [] ∧ us = .handshake h :: l₂.map .frame) ∨
        (done = .handshake h :: l₁.map .frame ∧ us = l₂.map .frame)) := by
  cases done with
  | nil => exact ⟨[], frames, rfl, Or.inl ⟨rfl, rfl, hr.split⟩⟩
  | cons d done =>
    obtain ⟨rfl, hrest⟩ := List.cons.inj hr.split
    obtain ⟨l₁, l₂, rfl, rfl, rfl⟩ := List.map_eq_append_iff.mp hrest.symm
    exact ⟨l₁, l₂, rfl, Or.inr ⟨rfl, rfl⟩⟩

end Receiver

theorem Segment.call_ne_onDisconnect (u : Segment) : u.call ≠ some .onDisconnect := by
  cases u with
  | handshake h => simp [call]
  | frame f =>
    rw [call]
    cases f.message <;> simp

theorem messagesBeforeClose_of_calls {done : List Segment} {r : Receiver}
    (h : r.calls = done.filterMap Segment.call ++ [.onDisconnect]) :
    r.messagesBeforeClose = (done.filterMap Segment.call).filterMap Callback.message? := by
  have hpos : ∀ e ∈ done.filterMap Segment.call, decide (e ≠ .onDisconnect) = true := by
    intro e he
    obtain ⟨u, -, hu⟩ := List.mem_filterMap.mp he
    exact decide_eq_true fun hc => u.call_ne_onDisconnect (hc ▸ hu)
  rw [messagesBeforeClose, h, List.takeWhile_append_of_pos hpos,
    List.takeWhile_cons_of_neg (by simp), List.append_nil]

theorem filterMap_message? (h : HandshakeMsg) (frames : List Frame) :
    (delivered h frames).filterMap Callback.message? = frames.filterMap Frame.message := by
  show (frames.filterMap _).filterMap Callback.message? = _
  rw [List.filterMap_filterMap]
  congr 1
  funext f
  cases f.message <;> rfl

theorem length_stream (h : HandshakeMsg) (frames : List Frame) :
    (stream h frames).length = 68 + (spell Frame.bytes frames).length := by
  rw [stream, List.length_append, h.length_serialize]
  rfl

namespace Closing

variable {h : HandshakeMsg} {frames : List Frame}

/-- Where the connection stands when it is told of the close. -/
theorem exists_stands (cl : Closing h frames) :
    ∃ done us w, spell Readiness.bytes cl.before = spell Segment.bytes done ++ w ∧
      Short Segment.bytes us w ∧
      Stands h frames done us w (cl.before.foldl (handleEvents .quiet) start) := by
  have hall : [] ++ spell Readiness.bytes cl.before <+:
      spell Segment.bytes (.handshake h :: frames.map .frame) ++ [] := by
    rw [spell_stream, ← cl.bytes_eq]
    simp
  have ht : IsPartial [] := ⟨Frame.unchoke, List.nil_prefix, nofun⟩
  obtain ⟨done, us, w, -, hb, hs, hr⟩ := foldl_feed (P := Stands h frames) cl.before
    (fun e he _ _ _ _ _ _ hr hv hx hw hs =>
      stands_handleEvents (cl.isData_before e he) ht hr hv hx hw hs)
    (stands_init h frames (c := { state := .handshaking }) rfl rfl) (short_handshake h _) hall
  exact ⟨done, us, w, hb, hs, hr⟩

/-- **What is handed on**: the messages of the frames `l₁` that have arrived in full before
the last event. -/
theorem exists_messagesBeforeClose (cl : Closing h frames) :
    ∃ l₁ l₂, frames = l₁ ++ l₂ ∧
      cl.run.messagesBeforeClose = l₁.filterMap Frame.message ∧
      (l₁ ≠ [] → (stream h l₁).length ≤ (spell Readiness.bytes cl.before).length) ∧
      ∀ f ∈ l₂.head?, (spell Readiness.bytes cl.before).length < (stream h (l₁ ++ [f])).length := by
  -- where the receiver stands before the event that closes: `w` is the part of a segment
  obtain ⟨done, us, w, hb, hs, hr⟩ := cl.exists_stands
  obtain ⟨l₁, l₂, hframes, hcases⟩ := hr.exists_frames
  have hcalls : cl.run.calls = done.filterMap Segment.call ++ [.onDisconnect] := by
    rw [run, handleEvents_close cl.isClose_last hr.state_ne.1 hr.state_ne.2, hr.calls_eq]
  have hmsg := messagesBeforeClose_of_calls hcalls
  refine ⟨l₁, l₂, hframes, ?_, ?_, ?_⟩
  · rw [hmsg]
    rcases hcases with ⟨rfl, rfl, -⟩ | ⟨rfl, -⟩
    · rfl
    · rw [filterMap_call, filterMap_message?]
  · intro hne
    rcases hcases with ⟨-, rfl, -⟩ | ⟨rfl, -⟩
    · exact absurd rfl hne
    · rw [hb, spell_stream, List.length_append]
      omega
  · intro f hf
    rw [hb, List.length_append]
    rcases hcases with ⟨rfl, rfl, rfl⟩ | ⟨rfl, rfl⟩
    -- not even the handshake is there in full
    · have hw : w.length < h.serialize.length := hs (.handshake h) rfl
      rw [h.length_serialize] at hw
      rw [length_stream]
      simp only [List.nil_append, spell_nil, List.length_nil]
      omega
    · have hw : w.length < f.bytes.length := hs (.frame f) (by simpa using hf)
      rw [spell_stream, length_stream, length_stream]
      simp only [spell_append, spell_cons, spell_nil, List.length_append, List.length_nil]
      omega

/-- **When nothing is lost at the close.** -/
theorem allDelivered_iff (cl : Closing h frames) : cl.AllDelivered ↔ cl.ReadInTime := by
  obtain ⟨l₁, l₂, rfl, hm, hle, hlt⟩ := cl.exists_messagesBeforeClose
  have hiff : cl.AllDelivered ↔ ∀ f ∈ l₂, f.message = none := by
    rw [AllDelivered, hm, List.filterMap_append, List.self_eq_append_right,
      List.filterMap_eq_nil_iff]
  rw [hiff]
  constructor
  · intro hnone a f b hab hf
    -- a frame with a message is one of `l₁`
    rcases List.append_eq_append_iff.mp hab with ⟨c, rfl, rfl⟩ | ⟨c, rfl, hc⟩
    · exact absurd (hnone f (by simp)) hf
    · cases c with
      | nil => exact absurd (hnone f (by rw [← List.nil_append l₂, ← hc]; simp)) hf
      | cons g c =>
        obtain ⟨rfl, -⟩ := List.cons.inj hc
        have hl₁ := hle (by simp)
        rw [length_stream] at hl₁ ⊢
        simp only [spell_append, spell_cons, spell_nil, List.length_append, List.length_nil]
          at hl₁ ⊢
        omega
  · intro hread f hf
    by_contra hne
    obtain ⟨a, b, rfl⟩ := List.append_of_mem hf
    have htime := hread (l₁ ++ a) f b (by simp) hne
    obtain ⟨g, hg⟩ : ∃ g, (a ++ f :: b).head? = some g := ⟨_, List.head?_eq_some_head (by simp)⟩
    have hlate := hlt g hg
    rw [length_stream] at htime hlate
    cases a with
    | nil =>
      obtain rfl : f = g := by simpa using hg
      simp at htime hlate
      omega
    | cons g' a =>
      obtain rfl : g' = g := by simpa using hg
      simp only [spell_append, spell_cons, spell_nil, List.length_append, List.length_nil]
        at htime hlate
      omega

/-- A handshake and an Unchoke that are read by the `recv` before the one that answers
zero. -/
def atOnce : Closing .blank [.unchoke] where
  before := []
  last := { readable := true, answers := [.bytes (stream .blank [.unchoke]), .closed] }
  isData_before := nofun
  isClose_last := ⟨rfl, Or.inr ⟨rfl, rfl⟩⟩
  bytes_eq := by simp [Readiness.bytes, readLoop]

/-- **An Unchoke that is read together with the close** is dropped with the buffer. -/
theorem not_allDelivered_atOnce : ¬atOnce.AllDelivered := by
  rw [AllDelivered]
  decide

end Closing

end TransferEngine
