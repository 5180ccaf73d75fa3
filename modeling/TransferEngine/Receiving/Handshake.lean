import TransferEngine.Receiving.Reassembly

/-!
# The handshake of a stream

What becomes of a connection is decided by the first 68 bytes it receives. Until they are
there it waits (`TransferEngine.Receiver.Waits`); if they are no handshake it is closed
(`TransferEngine.Receiver.Refuses`); and if they are one, it is handed on, whatever torrent
it is for. So a connection becomes active for a handshake of its own torrent only if it is
offered no other (`TransferEngine.Receiver.admitsOwn_iff`).
-/

namespace TransferEngine

open HandshakeMsg

/-! ### Reading a handshake -/

namespace HandshakeMsg

theorem toList_field {data : List UInt8} {off n : ℕ} (h : off + n ≤ data.length) :
    (field data off n).toList = (data.drop off).take n := by
  apply List.ext_getElem
  · simp
    omega
  · intro k hk hk'
    have hkn : k < n := by simpa using hk
    simp [field, List.getElem?_eq_getElem (show off + k < data.length by omega)]

theorem take_drop_append_drop (data : List UInt8) (a n : ℕ) :
    (data.drop a).take n ++ data.drop (a + n) = data.drop a := by
  rw [← List.drop_drop, List.take_append_drop]

/-- **What is read as a handshake** is how the handshake is written. -/
theorem deserialize_eq_some {data : List UInt8} {h : HandshakeMsg} (hl : data.length = 68) :
    deserialize data = some h ↔ data = h.serialize := by
  constructor
  · intro hd
    rw [deserialize, if_neg (by omega)] at hd
    split at hd
    case isTrue => cases hd
    case isFalse h₀ =>
      split at hd
      case isTrue => cases hd
      case isFalse hp =>
        cases hd
        rw [not_not] at h₀ hp
        have hend : (data.drop 48).take 20 = data.drop 48 :=
          List.take_of_length_le (by rw [List.length_drop]; omega)
        rw [serialize, toList_field (by omega), toList_field (by omega), toList_field (by omega),
          ← hp, hend, take_drop_append_drop data 28 20, take_drop_append_drop data 20 8,
          take_drop_append_drop data 1 19]
        cases data with
        | nil => cases hl
        | cons b data =>
          obtain rfl : b = 19 := h₀
          rfl
  · rintro rfl
    exact deserialize_serialize h

end HandshakeMsg

namespace Receiver

variable {callbacks : Callbacks} {r : Receiver} {b x : List UInt8} {h : HandshakeMsg}

/-- **A connection becomes active for its own torrent only**: it becomes active, and calls
`on_handshake`, only when the first 68 bytes are a handshake with its info hash; on any
other 68 bytes it is closed, and hands nothing on. -/
structure AdmitsOwn (infoHash : Vector UInt8 20) (received : List UInt8) (r : Receiver) : Prop where
  of_active : r.connection.state = .active ∨ (∃ h, .onHandshake h ∈ r.calls) →
    ∃ h : HandshakeMsg, received.take 68 = h.serialize ∧ h.infoHash = infoHash
  closed : 68 ≤ received.length →
    (¬∃ h : HandshakeMsg, received.take 68 = h.serialize ∧ h.infoHash = infoHash) →
    r.connection.state = .disconnected ∧
      (∀ h, .onHandshake h ∉ r.calls) ∧ ∀ m, .onMessage m ∉ r.calls

/-! ### The calls only grow -/

theorem calls_prefix_disconnect (r : Receiver) : r.calls <+: r.disconnect.calls := by
  rw [disconnect]
  split
  case isTrue => exact List.prefix_rfl
  case isFalse => exact List.prefix_append _ _

theorem calls_prefix_call (callbacks : Callbacks) (e : Callback) (r : Receiver) :
    r.calls ++ [e] <+: (r.call callbacks e).calls := by
  rw [call]
  dsimp only
  split
  case isTrue => exact calls_prefix_disconnect { r with calls := r.calls ++ [e] }
  case isFalse => exact List.prefix_rfl

theorem calls_prefix_rxLoop (callbacks : Callbacks) (n : ℕ) (r : Receiver) :
    r.calls <+: (rxLoop callbacks n r).calls := by
  induction n generalizing r with
  | zero => exact List.prefix_rfl
  | succ n ih =>
    rw [rxLoop]
    split
    case h_1 => exact List.prefix_rfl
    case h_2 => exact List.prefix_rfl
    case h_3 c _ => exact calls_prefix_disconnect { r with connection := c }
    case h_4 hm c _ =>
      have hcall := calls_prefix_call callbacks (.onHandshake hm) { r with connection := c }
      exact (List.prefix_append _ _).trans (hcall.trans (ih _))
    case h_5 c _ => exact ih { r with connection := c }
    case h_6 m c _ =>
      have hcall := calls_prefix_call callbacks (.onMessage m) { r with connection := c }
      exact (List.prefix_append _ _).trans (hcall.trans (ih _))

theorem calls_prefix_feed (callbacks : Callbacks) (r : Receiver) (x : List UInt8) :
    r.calls <+: (feed callbacks r x).calls := by
  rw [feed]
  split
  case isTrue => exact List.prefix_rfl
  case isFalse => exact calls_prefix_rxLoop callbacks _ (r.append x)

/-! ### Waiting, refusing, accepting -/

/-- The handshake is not there in full. -/
structure Waits (b : List UInt8) (r : Receiver) : Prop where
  state_eq : r.connection.state = .handshaking
  rxBuffer_eq : r.connection.rxBuffer = b
  calls_eq : r.calls = []
  fault_eq : r.fault = none
  length_lt : b.length < 68

/-- The connection was closed before anything was handed on. -/
structure Refuses (r : Receiver) : Prop where
  state_eq : r.connection.state = .disconnected
  calls_eq : r.calls = [.onDisconnect]
  fault_eq : r.fault = none

theorem feed_eq (hf : r.fault = none) : feed callbacks r x =
    rxLoop callbacks ((r.append x).connection.rxBuffer.length + 1) (r.append x) := by
  rw [feed, if_neg (by simp [hf]), processRxBuffer]

theorem Waits.rxBuffer_append (hr : Waits b r) :
    (r.append x).connection.rxBuffer = b ++ x := by
  rw [← hr.rxBuffer_eq]
  rfl

/-- As long as fewer than 68 bytes are there, the connection waits. -/
theorem Waits.feed (hr : Waits b r) (hlt : (b ++ x).length < 68) :
    Waits (b ++ x) (feed callbacks r x) := by
  have hpass : (r.append x).connection.rxPass = .ok (.stop (r.append x).connection) :=
    PeerConnection.rxPass_short hr.state_eq (by rw [hr.rxBuffer_append]; exact hlt)
  rw [feed_eq hr.fault_eq, rxLoop, hpass]
  exact ⟨hr.state_eq, hr.rxBuffer_append, hr.calls_eq, hr.fault_eq, hlt⟩

/-- **68 bytes that are no handshake** close the connection. -/
theorem Waits.refuses_feed (hr : Waits b r) (hge : 68 ≤ (b ++ x).length)
    (hd : deserialize ((b ++ x).take 68) = none) : Refuses (Receiver.feed callbacks r x) := by
  rw [← hr.rxBuffer_append] at hge hd
  have hpass : (r.append x).connection.rxPass = .ok (.refuse (r.append x).connection) :=
    PeerConnection.rxPass_refuse hr.state_eq hge hd
  have hne : ¬(r.append x).connection.state = .disconnected := by
    show ¬r.connection.state = _
    rw [hr.state_eq]
    exact nofun
  rw [feed_eq hr.fault_eq, rxLoop, hpass]
  show Refuses (r.append x).disconnect
  rw [disconnect, if_neg hne]
  refine ⟨rfl, ?_, hr.fault_eq⟩
  show r.calls ++ [.onDisconnect] = _
  rw [hr.calls_eq, List.nil_append]

/-- **A handshake is handed on**, whatever its info hash. -/
theorem Waits.mem_calls_feed (hr : Waits b r) (hge : 68 ≤ (b ++ x).length)
    (hd : deserialize ((b ++ x).take 68) = some h) :
    .onHandshake h ∈ (Receiver.feed callbacks r x).calls := by
  rw [← hr.rxBuffer_append] at hge hd
  have hpass := PeerConnection.rxPass_accept (c := (r.append x).connection) hr.state_eq hge hd
  rw [feed_eq hr.fault_eq, rxLoop, hpass]
  dsimp only
  refine (calls_prefix_rxLoop callbacks _ _).subset ((calls_prefix_call callbacks _ _).subset ?_)
  simp

/-- A closed connection takes no notice of what else comes. -/
theorem Refuses.feed (hr : Refuses r) : Refuses (feed callbacks r x) := by
  have hs : (r.append x).connection.state = .disconnected := hr.state_eq
  obtain ⟨c', hpass, hc'⟩ : ∃ c', (r.append x).connection.rxPass = .ok (.stop c') ∧
      c'.state = .disconnected := by
    rw [PeerConnection.rxPass, hs]
    split
    case isTrue => exact ⟨_, rfl, hs⟩
    case isFalse => exact ⟨_, rfl, rfl⟩
  rw [feed_eq hr.fault_eq, rxLoop, hpass]
  exact ⟨hc', hr.calls_eq, hr.fault_eq⟩

/-- A handshake that is refused stays so, whatever is received then. -/
theorem Refuses.foldl {callbacks : Callbacks} (h : Refuses r) (chunks : List (List UInt8)) :
    Refuses (chunks.foldl (Receiver.feed callbacks) r) := by
  induction chunks generalizing r with
  | nil => exact h
  | cons x chunks ih => exact ih h.feed

/-- Callbacks that were called stay called. -/
theorem calls_prefix_foldl (callbacks : Callbacks) (chunks : List (List UInt8)) (r : Receiver) :
    r.calls <+: (chunks.foldl (feed callbacks) r).calls := by
  induction chunks generalizing r with
  | nil => exact List.prefix_rfl
  | cons x chunks ih => exact (calls_prefix_feed callbacks r x).trans (ih _)

/-- **The three ways a stream can begin.** -/
theorem feed_cases (callbacks : Callbacks) (chunks : List (List UInt8)) (hr : Waits b r) :
    let r' := chunks.foldl (feed callbacks) r
    let received := b ++ chunks.flatten
    Waits received r' ∨
      (68 ≤ received.length ∧ deserialize (received.take 68) = none ∧ Refuses r') ∨
      (68 ≤ received.length ∧
        ∃ h, deserialize (received.take 68) = some h ∧ .onHandshake h ∈ r'.calls) := by
  induction chunks generalizing b r with
  | nil => exact Or.inl (by simpa using hr)
  | cons x chunks ih =>
    rw [List.foldl_cons, List.flatten_cons, ← List.append_assoc]
    rcases Nat.lt_or_ge (b ++ x).length 68 with hlt | hge
    · exact ih (hr.feed hlt)
    · have hlen : 68 ≤ (b ++ x ++ chunks.flatten).length := by
        rw [List.length_append]
        omega
      have htake : (b ++ x ++ chunks.flatten).take 68 = (b ++ x).take 68 :=
        List.take_append_of_le_length hge
      dsimp only
      rw [htake]
      right
      cases hd : deserialize ((b ++ x).take 68) with
      | none =>
        exact Or.inl ⟨hlen, rfl, (hr.refuses_feed hge hd).foldl chunks⟩
      | some h =>
        exact Or.inr ⟨hlen, h, rfl,
          (calls_prefix_foldl callbacks chunks _).subset (hr.mem_calls_feed hge hd)⟩

/-- **When a connection becomes active for its own torrent only**: when the first 68 bytes
are no handshake for another. -/
theorem admitsOwn_iff (infoHash : Vector UInt8 20) (callbacks : Callbacks)
    (chunks : List (List UInt8)) :
    AdmitsOwn infoHash chunks.flatten (chunks.foldl (feed callbacks) start) ↔
      ∀ h : HandshakeMsg, chunks.flatten.take 68 = h.serialize → h.infoHash = infoHash := by
  have hstart : Waits [] start := ⟨rfl, rfl, rfl, rfl, by decide⟩
  have hcases := feed_cases callbacks chunks hstart
  dsimp only at hcases
  rw [List.nil_append] at hcases
  generalize chunks.foldl (feed callbacks) start = r' at hcases ⊢
  generalize chunks.flatten = received at hcases ⊢
  rcases hcases with hw | ⟨hge, hd, href⟩ | ⟨hge, h, hd, hmem⟩
  · -- nothing has been decided yet
    have hlt := hw.length_lt
    refine iff_of_true ⟨?_, fun hge => by omega⟩ fun h hh => ?_
    · rintro (hact | ⟨h, hmem⟩)
      · rw [hw.state_eq] at hact
        cases hact
      · rw [hw.calls_eq] at hmem
        cases hmem
    · have hlen := congrArg List.length hh
      rw [h.length_serialize, List.length_take] at hlen
      omega
  · refine iff_of_true ⟨?_, fun _ _ => ⟨href.state_eq, ?_, ?_⟩⟩ fun h hh => ?_
    · rintro (hact | ⟨h, hmem⟩)
      · rw [href.state_eq] at hact
        cases hact
      · simp [href.calls_eq] at hmem
    · simp [href.calls_eq]
    · simp [href.calls_eq]
    · rw [hh, deserialize_serialize] at hd
      cases hd
  · have hlen : (received.take 68).length = 68 := List.length_take_of_le hge
    have hser : received.take 68 = h.serialize := (deserialize_eq_some hlen).mp hd
    -- 68 bytes spell one handshake
    have huniq : ∀ h' : HandshakeMsg, received.take 68 = h'.serialize → h' = h := by
      intro h' hh'
      rw [hh', deserialize_serialize] at hd
      exact Option.some.inj hd
    constructor
    · intro hown h' hh'
      obtain ⟨h'', hh'', hinfo⟩ := hown.of_active (Or.inr ⟨h, hmem⟩)
      rw [huniq h' hh', ← huniq h'' hh'']
      exact hinfo
    · intro hall
      exact ⟨fun _ => ⟨h, hser, hall h hser⟩, fun _ hc => absurd ⟨h, hser, hall h hser⟩ hc⟩

end Receiver

end TransferEngine
