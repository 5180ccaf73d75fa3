import TransferEngine.Receiving.Handshake

/-!
# Writing and reading messages

`PeerMessage::serialize` and `PeerMessage::deserialize` are two functions with the same layout
written out twice. What a message looks like on the wire is `TransferEngine.PeerMessage.bytes`: its
id and its payload behind their length. The encoder writes that
(`TransferEngine.PeerMessage.serialize_eq`), and the decoder finds a message exactly where its
bytes stand at the front of the buffer (`TransferEngine.PeerMessage.deserialize_eq_some`), so the
two are inverse to each other in both directions (`TransferEngine.PeerMessage.codec_roundTrip`).
-/

namespace TransferEngine

open Bytes

namespace PeerMessage

variable {m : PeerMessage} {data rest : List UInt8} {length : UInt32} {id : UInt8} {c : ℕ}

/-- The id and the payload of a message; a keep-alive has neither. -/
def wire : PeerMessage → Option (MessageId × List UInt8)
  | .keepAliveMsg => none
  | .chokeMsg => some (.choke, [])
  | .unchokeMsg => some (.unchoke, [])
  | .interestedMsg => some (.interested, [])
  | .notInterestedMsg => some (.notInterested, [])
  | .haveMsg pieceIndex => some (.have_, uint32Bytes pieceIndex)
  | .bitfieldMsg bitfield => some (.bitfield, bitfield)
  | .requestMsg pieceIndex begin length =>
    some (.request, uint32Bytes pieceIndex ++ (uint32Bytes begin ++ uint32Bytes length))
  | .pieceMsg pieceIndex begin block =>
    some (.piece, uint32Bytes pieceIndex ++ (uint32Bytes begin ++ block))
  | .cancelMsg pieceIndex begin length =>
    some (.cancel, uint32Bytes pieceIndex ++ (uint32Bytes begin ++ uint32Bytes length))
  | .portMsg port => some (.port, uint16Bytes port)

/-- An id and a payload behind their length. -/
def frameBytes (k : MessageId) (payload : List UInt8) : List UInt8 :=
  uint32Bytes (.ofNat (payload.length + 1)) ++ k.toByte :: payload

/-- **A message on the wire.** -/
def bytes (m : PeerMessage) : List UInt8 :=
  match m.wire with
  | none => uint32Bytes 0
  | some (k, payload) => frameBytes k payload

/-- The number of bytes of a bitfield or of a block. -/
def payloadLength : PeerMessage → ℕ
  | .bitfieldMsg bitfield => bitfield.length
  | .pieceMsg _ _ block => block.length
  | _ => 0

/-! ### Writing -/

/-- The size of the buffer for `n` bytes behind their length. -/
theorem toNat_bufferSize {n : ℕ} (h : n < 2 ^ 32 - 4) : (4 + UInt32.ofNat n).toNat = n + 4 := by
  rw [toNat_four_add, UInt32.toNat_ofNat']
  omega

theorem length_frameBytes (k : MessageId) (payload : List UInt8) :
    (frameBytes k payload).length = payload.length + 5 := by
  simp [frameBytes, uint32Bytes]

/-- **The encoder writes the bytes of the message**, if their number fits 32 bits. -/
theorem serialize_eq (h : m.bytes.length < 2 ^ 32) : serialize m = .ok m.bytes := by
  cases m with
  | keepAliveMsg => rfl
  | chokeMsg => rfl
  | unchokeMsg => rfl
  | interestedMsg => rfl
  | notInterestedMsg => rfl
  | haveMsg pieceIndex => rfl
  | requestMsg pieceIndex begin length => rfl
  | cancelMsg pieceIndex begin length => rfl
  | portMsg port => rfl
  | bitfieldMsg bits =>
    rw [bytes, wire, length_frameBytes] at h
    -- the size is computed with 32 bits and is the number of bytes all the same
    have hlen : 1 + UInt32.ofNat bits.length = UInt32.ofNat (bits.length + 1) := by
      rw [UInt32.ofNat_add, UInt32.add_comm]
      rfl
    rw [serialize, hlen, toNat_bufferSize (by omega), write_replicate (by simp [uint32Bytes]),
      ok_bind, write_zeros (by rfl) (by simp [uint32Bytes]), ok_bind,
      write_zeros (by rfl) (by simp [uint32Bytes])]
    simp [bytes, wire, frameBytes, uint32Bytes]
  | pieceMsg pieceIndex begin block =>
    rw [bytes, wire, length_frameBytes, List.length_append, List.length_append] at h
    simp only [uint32Bytes, List.length_cons, List.length_nil] at h
    have hlen : 9 + UInt32.ofNat block.length = UInt32.ofNat (block.length + 9) := by
      rw [UInt32.ofNat_add, UInt32.add_comm]
      rfl
    rw [serialize, hlen, toNat_bufferSize (by omega), write_replicate (by simp [uint32Bytes]),
      ok_bind, write_zeros (by rfl) (by simp [uint32Bytes]), ok_bind,
      write_zeros (by rfl) (by simp [uint32Bytes]), ok_bind,
      write_zeros (by rfl) (by simp [uint32Bytes]), ok_bind,
      write_zeros (by rfl) (by simp [uint32Bytes])]
    simp [bytes, wire, frameBytes, uint32Bytes]

/-! ### Reading -/

section Payload

variable {payload : List UInt8} {k : MessageId} {off : ℕ}

theorem uint32Bytes_numberAt (h : off + 4 ≤ payload.length) :
    uint32Bytes (numberAt payload off) = (payload.drop off).take 4 := by
  refine uint32Bytes_bigEndian ?_
  rw [List.length_take, List.length_drop]
  omega

theorem numberAt_uint32Bytes_append (i : UInt32) (rest : List UInt8) :
    numberAt (uint32Bytes i ++ rest) 0 = i := by
  have htake : (uint32Bytes i ++ rest).take 4 = uint32Bytes i := List.take_left' rfl
  rw [numberAt, List.drop_zero, htake, bigEndian_uint32Bytes, UInt32.ofNat_toNat]

theorem numberAt_uint32Bytes (i : UInt32) : numberAt (uint32Bytes i) 0 = i := by
  rw [← List.append_nil (uint32Bytes i), numberAt_uint32Bytes_append]

/-- A number behind another. -/
theorem numberAt_append (i : UInt32) (rest : List UInt8) (off : ℕ) :
    numberAt (uint32Bytes i ++ rest) (4 + off) = numberAt rest off := by
  have hdrop : (uint32Bytes i ++ rest).drop 4 = rest := List.drop_left' rfl
  rw [numberAt, ← List.drop_drop, hdrop, numberAt]

/-- Two numbers and what stands behind them. -/
theorem uint32Bytes_append_drop (h : 8 ≤ payload.length) :
    uint32Bytes (numberAt payload 0) ++ (uint32Bytes (numberAt payload 4) ++ payload.drop 8) =
      payload := by
  have hdrop : payload.drop 8 = (payload.drop 4).drop 4 := by rw [List.drop_drop]
  rw [uint32Bytes_numberAt (by omega), uint32Bytes_numberAt (by omega), hdrop,
    List.take_append_drop, List.drop_zero, List.take_append_drop]

/-- Three numbers. -/
theorem uint32Bytes_append_eq (h : payload.length = 12) :
    uint32Bytes (numberAt payload 0) ++
      (uint32Bytes (numberAt payload 4) ++ uint32Bytes (numberAt payload 8)) = payload := by
  have hlast : uint32Bytes (numberAt payload 8) = payload.drop 8 :=
    (uint32Bytes_numberAt (by omega)).trans
      (List.take_of_length_le (by rw [List.length_drop]; omega))
  rw [hlast, uint32Bytes_append_drop (by omega)]

/-- What a payload spells has this payload. -/
theorem wire_of_read (h : k.read payload = some m) : m.wire = some (k, payload) := by
  cases k <;> simp only [MessageId.read, Option.ite_none_left_eq_some, not_not, not_lt,
    Option.some.injEq] at h
  case bitfield =>
    subst h
    rfl
  case choke | unchoke | interested | notInterested =>
    obtain ⟨hl, rfl⟩ := h
    rw [wire, List.length_eq_zero_iff.mp hl]
  case have_ =>
    obtain ⟨hl, rfl⟩ := h
    rw [wire, uint32Bytes_numberAt (by omega), List.drop_zero, List.take_of_length_le (by omega)]
  case request | cancel =>
    obtain ⟨hl, rfl⟩ := h
    rw [wire, uint32Bytes_append_eq hl]
  case piece =>
    obtain ⟨hl, rfl⟩ := h
    rw [wire, uint32Bytes_append_drop hl]
  case port =>
    obtain ⟨hl, rfl⟩ := h
    rw [wire, uint16Bytes_bigEndian hl]

/-- **A payload spells the message that has it.** -/
theorem read_eq_some : k.read payload = some m ↔ m.wire = some (k, payload) := by
  refine ⟨wire_of_read, fun h => ?_⟩
  have hsecond : ∀ i rest, numberAt (uint32Bytes i ++ rest) 4 = numberAt rest 0 :=
    fun i rest => numberAt_append i rest 0
  cases m with
  | keepAliveMsg => cases h
  | chokeMsg | unchokeMsg | interestedMsg | notInterestedMsg | bitfieldMsg =>
    cases h
    rfl
  | haveMsg i =>
    cases h
    rw [MessageId.read, if_neg (by simp [uint32Bytes]), numberAt_uint32Bytes]
  | requestMsg i b n | cancelMsg i b n =>
    cases h
    rw [MessageId.read, if_neg (by simp [uint32Bytes]), numberAt_uint32Bytes_append, hsecond,
      numberAt_uint32Bytes_append, numberAt_append i _ 4, hsecond, numberAt_uint32Bytes]
  | pieceMsg i b x =>
    cases h
    have hdrop : (uint32Bytes i ++ (uint32Bytes b ++ x)).drop 8 = x := rfl
    rw [MessageId.read, if_neg (by simp [uint32Bytes]), numberAt_uint32Bytes_append, hsecond,
      numberAt_uint32Bytes_append, hdrop]
  | portMsg i =>
    cases h
    rw [MessageId.read, if_neg (by simp [uint16Bytes]), bigEndian_uint16Bytes, UInt16.ofNat_toNat]

end Payload

/-- **The message of a payload** is the one that has this payload, under this id. -/
theorem deserializePayload_eq_some (h : 4 + length.toNat ≤ data.length) (h₀ : 0 < length.toNat) :
    deserializePayload data length id = .ok (some m) ↔
      ∃ k, id = k.toByte ∧ m.wire = some (k, (data.drop 5).take (length.toNat - 1)) := by
  rw [deserializePayload_eq h h₀ rfl, Except.ok.injEq, Option.bind_eq_some_iff]
  simp only [MessageId.ofByte_eq_some, read_eq_some]

theorem wire_eq_none : m.wire = none ↔ m = .keepAliveMsg := by
  cases m <;> simp [wire]

/-- A frame with a length, an id and a payload has the bytes of the message with this id and this
payload. -/
theorem eq_bytes_iff {payload : List UInt8} (hlen : payload.length + 1 = length.toNat) :
    uint32Bytes length ++ id :: payload = m.bytes ↔
      ∃ k, id = k.toByte ∧ m.wire = some (k, payload) := by
  rw [bytes]
  rcases hw : m.wire with _ | ⟨k, p⟩
  · refine iff_of_false (fun hc => ?_) (by simp)
    have := congrArg List.length hc
    simp [uint32Bytes] at this
  · simp only [Option.some.injEq, Prod.mk.injEq]
    constructor
    · intro hc
      obtain ⟨-, htail⟩ := List.append_inj hc rfl
      obtain ⟨hid, rfl⟩ := List.cons.inj htail
      exact ⟨k, hid, rfl, rfl⟩
    · rintro ⟨k', rfl, rfl, rfl⟩
      rw [frameBytes, hlen, UInt32.ofNat_toNat]

/-- **Where the decoder finds a message**: at the front of the buffer stand its bytes. -/
theorem deserialize_eq_some (hl : 4 + prefixLength data < 2 ^ 32) :
    deserialize data = .ok (some m, c) ↔
      c = 4 + prefixLength data ∧ c ≤ data.length ∧ data.take c = m.bytes := by
  rcases Nat.lt_or_ge data.length 4 with hshort | h₄
  · rw [deserialize_of_lt hshort]
    exact iff_of_false (by simp) fun hc => by omega
  obtain ⟨length, hr, hn⟩ := exists_prefix h₄
  have hfour : (4 + length).toNat = 4 + prefixLength data := by
    rw [toNat_four_add, hn]
    omega
  have hopens : data.take 4 = uint32Bytes length := (readUint32_eq_ok.mp hr).2
  rw [deserialize_eq h₄ hr, hfour]
  split
  case isTrue hzero =>
    have hz : prefixLength data = 0 := by rw [← hn, hzero]; rfl
    constructor
    · intro hm
      cases hm
      exact ⟨by omega, h₄, by rw [hopens, hzero]; rfl⟩
    · rintro ⟨rfl, -, hm⟩
      -- every other message has more bytes
      have hnone : m.wire = none := by
        rcases hw : m.wire with _ | ⟨k, p⟩
        · rfl
        · have hlen := congrArg List.length hm
          rw [bytes, hw, length_frameBytes, List.length_take] at hlen
          omega
      rw [wire_eq_none.mp hnone, hz]
  case isFalse hne =>
    have hpos : 0 < length.toNat := Nat.pos_of_ne_zero fun hc => hne (UInt32.toNat_inj.mp hc)
    split
    case isTrue hlt => exact iff_of_false (by simp) fun hc => by omega
    case isFalse hge =>
      have hle : 4 + length.toNat ≤ data.length := by omega
      have htake : data.take (4 + prefixLength data) =
          uint32Bytes length ++ data[4] :: (data.drop 5).take (length.toNat - 1) := by
        rw [List.take_add, hopens, ← hn, List.drop_eq_getElem_cons (by omega),
          show length.toNat = length.toNat - 1 + 1 by omega, List.take_succ_cons]
        rfl
      have hpayload : ((data.drop 5).take (length.toNat - 1)).length + 1 = length.toNat := by
        rw [List.length_take, List.length_drop]
        omega
      rw [byteAt_of_lt (by omega), ok_bind]
      have hiff : deserializePayload data length data[4] = .ok (some m) ↔ _ :=
        deserializePayload_eq_some hle hpos
      constructor
      · intro hm
        obtain ⟨msg, hmsg, hm₁⟩ := bind_eq_ok hm
        cases hm₁
        refine ⟨rfl, by omega, ?_⟩
        rw [htake, eq_bytes_iff hpayload]
        exact hiff.mp hmsg
      · rintro ⟨rfl, -, hm⟩
        rw [htake, eq_bytes_iff hpayload] at hm
        rw [hiff.mpr hm]
        rfl

/-! ### Both ways -/

theorem length_payload_lt (h : m.payloadLength < 2 ^ 32 - 13) {k : MessageId} {p : List UInt8}
    (hw : m.wire = some (k, p)) : p.length < 2 ^ 32 - 5 := by
  cases m <;> simp only [wire, Option.some.injEq, Prod.mk.injEq, reduceCtorEq] at hw <;>
    obtain ⟨-, rfl⟩ := hw <;>
    simp only [payloadLength, uint32Bytes, uint16Bytes, List.length_append, List.length_cons,
      List.length_nil] at h ⊢ <;>
    omega

theorem prefixLength_uint32Bytes (n : UInt32) (rest : List UInt8) :
    prefixLength (uint32Bytes n ++ rest) = n.toNat := by
  rw [prefixLength, List.take_left' (by rfl), bigEndian_uint32Bytes]

/-- The bytes of a message are a frame. -/
theorem exists_frame (h : m.payloadLength < 2 ^ 32 - 13) : ∃ f : Frame, f.bytes = m.bytes := by
  suffices hf : m.bytes.length = 4 + prefixLength m.bytes ∧ prefixLength m.bytes < 2 ^ 32 - 4 from
    ⟨⟨m.bytes, hf.1, hf.2⟩, rfl⟩
  rw [bytes]
  rcases hw : m.wire with _ | ⟨k, p⟩
  · decide
  · have hlt := length_payload_lt h hw
    have hpre : prefixLength (frameBytes k p) = p.length + 1 := by
      rw [frameBytes, prefixLength_uint32Bytes, UInt32.toNat_ofNat']
      omega
    dsimp only
    rw [length_frameBytes, hpre]
    omega

end PeerMessage

namespace HandshakeMsg

theorem field_take {data : List UInt8} {off n : ℕ} (h : off + n ≤ 68) :
    field (data.take 68) off n = field data off n := by
  ext k hk
  simp only [field, Vector.getElem_ofFn, List.getD_eq_getElem?_getD]
  rw [List.getElem?_take_of_lt (by omega)]

/-- What follows a handshake is not looked at. -/
theorem deserialize_take {data : List UInt8} (h : 68 ≤ data.length) :
    deserialize (data.take 68) = deserialize data := by
  have hlen : (data.take 68).length = 68 := List.length_take_of_le h
  have hfirst : (data.take 68).getD 0 0 = data.getD 0 0 := by
    rw [List.getD_eq_getElem?_getD, List.getD_eq_getElem?_getD,
      List.getElem?_take_of_lt (by decide)]
  have htext : ((data.take 68).drop 1).take 19 = (data.drop 1).take 19 := by
    rw [List.drop_take, List.take_take]
    rfl
  rw [deserialize, deserialize, if_neg (show ¬(data.take 68).length < 68 by omega),
    if_neg (show ¬data.length < 68 by omega), hfirst, htext,
    field_take (by decide), field_take (by decide), field_take (by decide)]

/-- **An accepted buffer** starts with the bytes of the handshake. -/
theorem deserialize_eq_some_iff {data : List UInt8} {h : HandshakeMsg} :
    deserialize data = some h ↔ data.take 68 = h.serialize := by
  rcases Nat.lt_or_ge data.length 68 with hshort | hlen
  · refine iff_of_false (by rw [deserialize, if_pos hshort]; simp) fun hc => ?_
    have := congrArg List.length hc
    rw [length_serialize, List.length_take] at this
    omega
  · rw [← deserialize_eq_some (List.length_take_of_le hlen), deserialize_take hlen]

end HandshakeMsg

/-- **Messages and handshakes are read as they are written.** A message is written and read back,
whatever follows it, and of fewer bytes nothing is read; what is read as a message, from a buffer
whose length prefix does not wrap, is how the message is written; and the same for handshakes. -/
theorem PeerMessage.codec_roundTrip :
    (∀ m : PeerMessage, m.payloadLength < 2 ^ 32 - 13 → ∃ w, m.serialize = .ok w ∧
        (∀ rest, deserialize (w ++ rest) = .ok (some m, w.length)) ∧
        ∀ t, t <+: w → t ≠ w → deserialize t = .ok (none, 0)) ∧
      (∀ data m c, 4 + prefixLength data < 2 ^ 32 → deserialize data = .ok (some m, c) →
        m.serialize = .ok (data.take c)) ∧
      (∀ (h : HandshakeMsg) rest, HandshakeMsg.deserialize (h.serialize ++ rest) = some h) ∧
      ∀ data h, HandshakeMsg.deserialize data = some h → data.take 68 = h.serialize := by
  refine ⟨fun m hm => ?_, fun data m c hl hd => ?_, fun h rest => ?_, fun data h hd => ?_⟩
  · obtain ⟨f, hf⟩ := exists_frame hm
    have hlen := f.length_bytes
    have hlt := f.prefixLength_lt
    rw [hf] at hlen hlt
    refine ⟨m.bytes, serialize_eq (by omega), fun rest => ?_, fun t ht hne => ?_⟩
    · have hpre : prefixLength (m.bytes ++ rest) = prefixLength m.bytes :=
        prefixLength_append (by omega)
      rw [deserialize_eq_some (by rw [hpre]; omega), hpre, List.take_left, List.length_append]
      exact ⟨hlen, Nat.le_add_right _ _, rfl⟩
    · exact deserialize_partial ⟨f, hf ▸ ht, hf ▸ hne⟩
  · obtain ⟨rfl, hle, htake⟩ := (deserialize_eq_some hl).mp hd
    have hlen := congrArg List.length htake
    rw [List.length_take_of_le hle] at hlen
    rw [htake]
    exact serialize_eq (by omega)
  · rw [HandshakeMsg.deserialize_eq_some_iff, ← h.length_serialize, List.take_left]
  · exact HandshakeMsg.deserialize_eq_some_iff.mp hd

/-- A Request, and a byte behind it. -/
theorem PeerMessage.codec_roundTrip_request : ∃ w, (requestMsg 1 0 16384).serialize = .ok w ∧
    deserialize (w ++ [7]) = .ok (some (requestMsg 1 0 16384), w.length) := by
  obtain ⟨w, hw, hread, -⟩ := codec_roundTrip.1 (requestMsg 1 0 16384) (by decide)
  exact ⟨w, hw, hread [7]⟩

end TransferEngine
