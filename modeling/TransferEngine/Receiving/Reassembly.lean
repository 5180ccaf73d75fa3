import TransferEngine.Lib.Segments
import TransferEngine.Receiving.Frames
import TransferEngine.Receiving.Model

/-!
# Reassembly of the stream

However the bytes of a handshake and of any number of frames are cut into chunks, a
connection that starts in `Handshaking` hands on the handshake, then the messages of the
frames in order, and keeps the beginning of the next frame in its buffer
(`TransferEngine.Receiver.reassembly`).

The stream is a list of segments (`TransferEngine.Segment`), the first of which is the
handshake; `TransferEngine.Receiver.Stands` says where a connection stands in it. That a
chunk moves it on by exactly the segments that are then there in full
(`TransferEngine.Receiver.stands_feed`) is all that the induction of
`Segments.foldl_feed` needs.
-/

namespace TransferEngine

open PeerMessage Segments

namespace HandshakeMsg

theorem length_serialize (h : HandshakeMsg) : h.serialize.length = 68 := by
  simp [serialize, protocol]

/-- A field that is laid out between other bytes is read back. -/
theorem field_append {n : ℕ} (x y : List UInt8) (v : Vector UInt8 n) :
    field (x ++ (v.toList ++ y)) x.length n = v := by
  ext k hk
  have hv : (x ++ (v.toList ++ y))[x.length + k]? = some v[k] := by
    rw [List.getElem?_append_right (by omega), Nat.add_sub_cancel_left,
      List.getElem?_append_left (by simpa using hk)]
    simp
  simp [field, hv]

/-- **The handshake is read back.** -/
theorem deserialize_serialize (h : HandshakeMsg) : deserialize h.serialize = some h := by
  have hreserved : field h.serialize 20 8 = h.reserved :=
    field_append (19 :: protocol) (h.infoHash.toList ++ h.peerId.toList) h.reserved
  have hinfo : field h.serialize 28 20 = h.infoHash := by
    have := field_append (19 :: (protocol ++ h.reserved.toList)) h.peerId.toList h.infoHash
    simpa [serialize, protocol] using this
  have hpeer : field h.serialize 48 20 = h.peerId := by
    have := field_append (19 :: (protocol ++ (h.reserved.toList ++ h.infoHash.toList))) [] h.peerId
    simpa [serialize, protocol] using this
  rw [deserialize, if_neg (by rw [length_serialize]; decide), if_neg (by simp [serialize]),
    if_neg (by simp [serialize, protocol]), hreserved, hinfo, hpeer]

end HandshakeMsg

/-- A part of the stream that is received as one. -/
inductive Segment
  | handshake (h : HandshakeMsg)
  | frame (f : Frame)

namespace Segment

/-- The bytes of a segment. -/
def bytes : Segment → List UInt8
  | handshake h => h.serialize
  | frame f => f.bytes

/-- What a segment has the connection call. -/
def call : Segment → Option Callback
  | handshake h => some (.onHandshake h)
  | frame f => f.message.map .onMessage

theorem length_bytes_pos (u : Segment) : 0 < u.bytes.length := by
  cases u with
  | handshake h => exact h.length_serialize ▸ by decide
  | frame f => exact Nat.lt_of_lt_of_le (by decide) f.four_le_length

end Segment

/-- A handshake of zeros. -/
def HandshakeMsg.blank : HandshakeMsg :=
  ⟨Vector.replicate 8 0, Vector.replicate 20 0, Vector.replicate 20 0⟩

/-- The frame of an Unchoke. -/
def Frame.unchoke : Frame := ⟨[0, 0, 0, 1, 1], by decide, by decide⟩

/-- A frame with an id that no message has. -/
def Frame.unknown : Frame := ⟨[0, 0, 0, 1, 42], by decide, by decide⟩

/-! ### One pass -/

namespace PeerConnection

variable {c : PeerConnection} {w : List UInt8}

/-- The pass over 68 bytes that are a handshake. -/
theorem rxPass_accept (hs : c.state = .handshaking) (hge : 68 ≤ c.rxBuffer.length)
    {h : HandshakeMsg} (hd : HandshakeMsg.deserialize (c.rxBuffer.take 68) = some h) :
    c.rxPass = .ok (.handshake h { c with rxBuffer := c.rxBuffer.drop 68, state := .active }) := by
  have hne : c.rxBuffer ≠ [] := by
    rw [← List.length_pos_iff]
    omega
  rw [rxPass, if_neg hne, hs]
  dsimp only
  rw [if_neg (by omega), hd]

/-- The pass over 68 bytes that are none. -/
theorem rxPass_refuse (hs : c.state = .handshaking) (hge : 68 ≤ c.rxBuffer.length)
    (hd : HandshakeMsg.deserialize (c.rxBuffer.take 68) = none) :
    c.rxPass = .ok (.refuse c) := by
  have hne : c.rxBuffer ≠ [] := by
    rw [← List.length_pos_iff]
    omega
  rw [rxPass, if_neg hne, hs]
  dsimp only
  rw [if_neg (by omega), hd]

theorem rxPass_handshake (hs : c.state = .handshaking) {h : HandshakeMsg}
    (hb : c.rxBuffer = h.serialize ++ w) :
    c.rxPass = .ok (.handshake h { c with rxBuffer := w, state := .active }) := by
  have hlen := h.length_serialize
  have htake : c.rxBuffer.take 68 = h.serialize := by rw [hb, ← hlen, List.take_left]
  have hdrop : c.rxBuffer.drop 68 = w := by rw [hb, ← hlen, List.drop_left]
  have hge : 68 ≤ c.rxBuffer.length := by
    rw [hb, List.length_append]
    omega
  rw [rxPass_accept hs hge (by rw [htake, HandshakeMsg.deserialize_serialize]), hdrop]

theorem rxPass_short (hs : c.state = .handshaking) (hb : c.rxBuffer.length < 68) :
    c.rxPass = .ok (.stop c) := by
  rw [rxPass, hs]
  dsimp only
  rw [if_pos hb, ite_self]

theorem rxPass_frame (hs : c.state = .active) {f : Frame} (hb : c.rxBuffer = f.bytes ++ w) :
    ∃ c', c.rxPass = .ok (.frame f.message c') ∧ c'.state = .active ∧ c'.rxBuffer = w := by
  have h₄ := f.four_le_length
  have hne : c.rxBuffer ≠ [] := fun hc => by
    have := congrArg List.length (hb.symm.trans hc)
    simp only [List.length_append, List.length_nil] at this
    omega
  have hd : deserialize c.rxBuffer = .ok (f.message, f.bytes.length) := by
    rw [hb, deserialize_frame_append, deserialize_frame]
  have hpass : c.rxPass = .ok (c.framePass f.message f.bytes.length) := by
    rewrite [rxPass, if_neg hne, hs, hd]
    rfl
  rw [hpass, framePass, if_neg (by omega), if_pos (by omega), hb, List.drop_left]
  cases f.message with
  | none => exact ⟨_, rfl, hs, rfl⟩
  | some m =>
    refine ⟨_, rfl, ?_⟩
    cases m <;> exact ⟨hs, rfl⟩

theorem rxPass_partial (hs : c.state = .active) (hb : IsPartial c.rxBuffer) :
    c.rxPass = .ok (.stop c) := by
  by_cases hne : c.rxBuffer = []
  · rw [rxPass, if_pos hne]
  · rewrite [rxPass, if_neg hne, hs, deserialize_partial hb]
    rfl

end PeerConnection

/-! ### The loop -/

theorem isPartial_of_prefix {t w : List UInt8} (h : IsPartial t) (hw : w <+: t) : IsPartial w := by
  obtain ⟨f, hp, hne⟩ := h
  refine ⟨f, hw.trans hp, ?_⟩
  rintro rfl
  exact hne (hp.eq_of_length_le hw.length_le)

namespace Receiver

/-- **Where a connection stands in the stream** of a handshake and some frames: it has
worked through `done` and waits for `us`, of which it holds `w`. -/
structure Stands (h : HandshakeMsg) (frames : List Frame) (done us : List Segment)
    (w : List UInt8) (r : Receiver) : Prop where
  split : done ++ us = .handshake h :: frames.map .frame
  state_eq : r.connection.state = if done = [] then .handshaking else .active
  rxBuffer_eq : r.connection.rxBuffer = w
  calls_eq : r.calls = done.filterMap Segment.call
  fault_eq : r.fault = none

variable {h : HandshakeMsg} {frames : List Frame} {done us us₁ us₂ : List Segment}
  {u : Segment} {w t : List UInt8} {r : Receiver}

/-- After the handshake only frames are to come. -/
theorem Stands.eq_frame (hr : Stands h frames done (u :: us) w r) (hd : done ≠ []) :
    ∃ f, u = .frame f := by
  obtain ⟨d, done, rfl⟩ := List.exists_cons_of_ne_nil hd
  have hmem : u ∈ frames.map Segment.frame := by
    rw [← (List.cons.inj hr.split).2]
    simp
  obtain ⟨f, -, rfl⟩ := List.mem_map.mp hmem
  exact ⟨f, rfl⟩

/-- **A segment that is there in full** is worked through in one pass. -/
theorem rxLoop_segment (hr : Stands h frames done (u :: us) (u.bytes ++ w) r) (n : ℕ) :
    ∃ r', rxLoop .quiet (n + 1) r = rxLoop .quiet n r' ∧
      Stands h frames (done ++ [u]) us w r' := by
  have hsplit : (done ++ [u]) ++ us = .handshake h :: frames.map .frame := by
    rw [← hr.split]
    simp
  by_cases hd : done = []
  · subst hd
    -- nothing is done yet, so the segment is the handshake
    obtain rfl : u = .handshake h := (List.cons.inj hr.split).1
    refine ⟨{ r with
      connection := { r.connection with rxBuffer := w, state := .active }
      calls := r.calls ++ [.onHandshake h] }, ?_, hsplit, rfl, rfl, ?_, hr.fault_eq⟩
    · rw [rxLoop, PeerConnection.rxPass_handshake hr.state_eq hr.rxBuffer_eq]
      rfl
    · show r.calls ++ _ = _
      rw [hr.calls_eq]
      rfl
  · obtain ⟨f, rfl⟩ := hr.eq_frame hd
    -- after the handshake every segment is a frame
    have hs : r.connection.state = .active := by rw [hr.state_eq, if_neg hd]
    obtain ⟨c', hpass, hc', hb'⟩ := PeerConnection.rxPass_frame hs hr.rxBuffer_eq
    have hstate : c'.state = if done ++ [.frame f] = [] then .handshaking else .active := by
      rw [hc', if_neg (by simp)]
    rw [rxLoop, hpass]
    cases hm : f.message with
    | none =>
      refine ⟨{ r with connection := c' }, rfl, hsplit, hstate, hb', ?_, hr.fault_eq⟩
      show r.calls = _
      simp [hr.calls_eq, Segment.call, hm]
    | some m =>
      refine ⟨{ r with connection := c', calls := r.calls ++ [.onMessage m] }, rfl, hsplit,
        hstate, hb', ?_, hr.fault_eq⟩
      show r.calls ++ _ = _
      simp [hr.calls_eq, Segment.call, hm]

/-- **A segment that is not there in full** ends the loop. -/
theorem rxLoop_short (hr : Stands h frames done us w r) (ht : IsPartial t)
    (hw : w <+: spell Segment.bytes us ++ t) (hs : Short Segment.bytes us w) (n : ℕ) :
    rxLoop .quiet (n + 1) r = r := by
  have hpass : r.connection.rxPass = .ok (.stop r.connection) := by
    by_cases hd : done = []
    · subst hd
      have hus : us = .handshake h :: frames.map .frame := hr.split
      have hlt : w.length < h.serialize.length := hs (.handshake h) (by rw [hus]; rfl)
      rw [h.length_serialize, ← hr.rxBuffer_eq] at hlt
      exact PeerConnection.rxPass_short hr.state_eq hlt
    · have hpart : IsPartial w := by
        cases us with
        | nil => exact isPartial_of_prefix ht hw
        | cons u us =>
          obtain ⟨f, rfl⟩ := hr.eq_frame hd
          have hlt : w.length < f.bytes.length := hs (.frame f) rfl
          rw [spell_cons, List.append_assoc] at hw
          refine ⟨f, List.prefix_of_prefix_length_le hw (List.prefix_append _ _) hlt.le, ?_⟩
          exact fun hc => absurd hlt (hc ▸ Nat.lt_irrefl _)
      rw [← hr.rxBuffer_eq] at hpart
      exact PeerConnection.rxPass_partial (by rw [hr.state_eq, if_neg hd]) hpart
  rw [rxLoop, hpass]

/-- **The loop** works through the segments that are there in full. -/
theorem stands_rxLoop (ht : IsPartial t) (hw : w <+: spell Segment.bytes us₂ ++ t)
    (hs : Short Segment.bytes us₂ w) {n : ℕ}
    (hr : Stands h frames done (us₁ ++ us₂) (spell Segment.bytes us₁ ++ w) r)
    (hn : (spell Segment.bytes us₁ ++ w).length < n) :
    Stands h frames (done ++ us₁) us₂ w (rxLoop .quiet n r) := by
  induction us₁ generalizing done r n with
  | nil =>
    obtain ⟨n, rfl⟩ := Nat.exists_eq_add_one_of_ne_zero (Nat.ne_of_gt (Nat.zero_lt_of_lt hn))
    rw [rxLoop_short hr ht hw hs]
    simpa using hr
  | cons u us₁ ih =>
    obtain ⟨n, rfl⟩ := Nat.exists_eq_add_one_of_ne_zero (Nat.ne_of_gt (Nat.zero_lt_of_lt hn))
    have hpos := u.length_bytes_pos
    rw [spell_cons, List.append_assoc] at hr hn
    rw [List.length_append] at hn
    obtain ⟨r', hloop, hr'⟩ := rxLoop_segment hr n
    rw [hloop]
    simpa using ih hr' (by omega)

/-- **A chunk** moves the connection on by the segments that are then there in full. -/
theorem stands_feed (ht : IsPartial t) {v x : List UInt8}
    (hr : Stands h frames done (us₁ ++ us₂) v r) (hx : v ++ x = spell Segment.bytes us₁ ++ w)
    (hw : w <+: spell Segment.bytes us₂ ++ t) (hs : Short Segment.bytes us₂ w) :
    Stands h frames (done ++ us₁) us₂ w (feed .quiet r x) := by
  have hbuf : (r.append x).connection.rxBuffer = spell Segment.bytes us₁ ++ w := by
    rw [← hx, ← hr.rxBuffer_eq]
    rfl
  have hr' : Stands h frames done (us₁ ++ us₂) (spell Segment.bytes us₁ ++ w) (r.append x) :=
    ⟨hr.split, hr.state_eq, hbuf, hr.calls_eq, hr.fault_eq⟩
  have hlt : (spell Segment.bytes us₁ ++ w).length <
      (r.append x).connection.rxBuffer.length + 1 := by
    rw [hbuf]
    exact Nat.lt_succ_self _
  rw [feed, if_neg (by simp [hr.fault_eq]), processRxBuffer]
  exact stands_rxLoop ht hw hs hr' hlt

/-- A new connection stands at the beginning of the stream. -/
theorem stands_init (h : HandshakeMsg) (frames : List Frame) {c : PeerConnection}
    (hs : c.state = .handshaking) (hb : c.rxBuffer = []) :
    Stands h frames [] (.handshake h :: frames.map .frame) [] { connection := c } :=
  ⟨rfl, hs, hb, rfl, rfl⟩

theorem short_handshake (h : HandshakeMsg) (us : List Segment) :
    Short Segment.bytes (.handshake h :: us) [] := by
  intro u hu
  obtain rfl : Segment.handshake h = u := by simpa using hu
  exact Segment.length_bytes_pos _

/-- The bytes of a handshake and some frames. -/
def stream (h : HandshakeMsg) (frames : List Frame) : List UInt8 :=
  h.serialize ++ (frames.map Frame.bytes).flatten

theorem spell_stream (h : HandshakeMsg) (frames : List Frame) :
    spell Segment.bytes (.handshake h :: frames.map .frame) = stream h frames := by
  rw [spell_cons, stream, spell, List.map_map]
  rfl

/-- The calls for a handshake and some frames. -/
def delivered (h : HandshakeMsg) (frames : List Frame) : List Callback :=
  .onHandshake h :: frames.filterMap fun f => f.message.map .onMessage

theorem filterMap_call (h : HandshakeMsg) (frames : List Frame) :
    (.handshake h :: frames.map .frame).filterMap Segment.call = delivered h frames := by
  show Callback.onHandshake h :: (frames.map Segment.frame).filterMap Segment.call = _
  rw [List.filterMap_map]
  rfl

/-- **Reassembly does not depend on the chunks.** -/
theorem reassembly (h : HandshakeMsg) (frames : List Frame) {t : List UInt8} (ht : IsPartial t)
    (chunks : List (List UInt8)) (hc : chunks.flatten = stream h frames ++ t) {c : PeerConnection}
    (hs : c.state = .handshaking) (hb : c.rxBuffer = []) :
    let r := chunks.foldl (feed .quiet) { connection := c }
    r.fault = none ∧ r.connection.state = .active ∧ r.connection.rxBuffer = t ∧
      r.calls = delivered h frames ∧ ∀ f ∈ frames, f.message = none ↔ f.Undecodable := by
  have hall : spell id chunks = spell Segment.bytes (.handshake h :: frames.map .frame) ++ t := by
    rw [spell_stream, ← hc, spell, List.map_id]
  intro r
  have hend : Stands h frames (.handshake h :: frames.map .frame) [] t r :=
    foldl_feed_all (P := Stands h frames) chunks
      (fun _ _ _ _ _ _ _ _ hr _ hx hw hs => stands_feed ht hr hx hw hs)
      (stands_init h frames hs hb) (short_handshake h _) hall
  refine ⟨hend.fault_eq, hend.state_eq, hend.rxBuffer_eq, ?_, fun f _ => f.message_eq_none⟩
  rw [hend.calls_eq, filterMap_call]

/-- An Unchoke, a frame with an unknown id and the beginning of another frame, in chunks that
end inside the handshake and inside the length of the first frame. -/
theorem reassembly_unchoke :
    (([HandshakeMsg.blank.serialize.take 30, HandshakeMsg.blank.serialize.drop 30 ++ [0, 0],
      [0, 1, 1, 0, 0, 0, 1, 42, 0, 0]].foldl (feed .quiet)
        { connection := { state := .handshaking } }).calls =
      [.onHandshake .blank, .onMessage .unchokeMsg]) ∧ IsPartial [0, 0] :=
  have ht : IsPartial [0, 0] := ⟨Frame.unchoke, by decide, by decide⟩
  ⟨(reassembly .blank [.unchoke, .unknown] ht _ (by decide) rfl rfl).2.2.2.1, ht⟩

end Receiver

end TransferEngine
