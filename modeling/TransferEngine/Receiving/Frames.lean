import TransferEngine.FrameDecoding

/-!
# Frames in a stream

A frame whose length does not wrap the bound check of the decoder
(`TransferEngine.Frame`) is decoded the same way whatever bytes follow it in the buffer
(`TransferEngine.PeerMessage.deserialize_frame_append`), and a buffer that holds only the
beginning of one is left alone (`TransferEngine.PeerMessage.deserialize_partial`). The
handshake has the same two properties, at 68 bytes.

Which frames carry a message at all is said by `TransferEngine.Frame.message_eq_none`.
-/

namespace TransferEngine

open Bytes PeerMessage

/-- **A frame on the wire**: four bytes that spell the number of bytes after them, a number
below `2 ^ 32 - 4`. -/
structure Frame where
  /-- The length prefix and the bytes it announces. -/
  bytes : List UInt8
  /-- The prefix says how many bytes follow. -/
  length_bytes : bytes.length = 4 + prefixLength bytes
  /-- The length does not wrap. -/
  prefixLength_lt : prefixLength bytes < 2 ^ 32 - 4

/-- The beginning of a frame that is not the whole of it. -/
def IsPartial (t : List UInt8) : Prop := ∃ f : Frame, t <+: f.bytes ∧ t ≠ f.bytes

/-- The message of a frame, when it is decoded on its own. -/
def Frame.message (f : Frame) : Option PeerMessage :=
  match deserialize f.bytes with
  | .ok (msg, _) => msg
  | .error _ => none

/-- The lengths a message with a given id can have. -/
def MessageId.Allows : MessageId → ℕ → Prop
  | .choke, n | .unchoke, n | .interested, n | .notInterested, n => n = 1
  | .have_, n => n = 5
  | .bitfield, _ => True
  | .request, n | .cancel, n => n = 13
  | .piece, n => 9 ≤ n
  | .port, n => n = 3

/-- **A frame without a message**: it is not a keep-alive, and its id is unknown or does
not go with its length. -/
def Frame.Undecodable (f : Frame) : Prop :=
  prefixLength f.bytes ≠ 0 ∧
    ∀ id k, f.bytes[4]? = some id → MessageId.ofByte id = some k → ¬k.Allows (prefixLength f.bytes)

namespace PeerMessage

variable {data rest : List UInt8} {length : UInt32} {id : UInt8}

/-! ### Payloads in a longer buffer -/

/-- **A payload is read the same in a longer buffer.** -/
theorem deserializePayload_append (h : 4 + length.toNat ≤ data.length) (h₀ : 0 < length.toNat) :
    deserializePayload (data ++ rest) length id = deserializePayload data length id := by
  have hp : ((data ++ rest).drop 5).take (length.toNat - 1) =
      (data.drop 5).take (length.toNat - 1) := by
    rw [List.drop_append_of_le_length (by omega),
      List.take_append_of_le_length (by rw [List.length_drop]; omega)]
  have h' : 4 + length.toNat ≤ (data ++ rest).length := by
    rw [List.length_append]
    omega
  rw [deserializePayload_eq h' h₀ hp, deserializePayload_eq h h₀ rfl]

/-! ### Frames -/

theorem prefixLength_append (h : 4 ≤ data.length) :
    prefixLength (data ++ rest) = prefixLength data := by
  rw [prefixLength, prefixLength, List.take_append_of_le_length h]

/-- **Decoding a frame at the front of a buffer.** -/
theorem deserialize_frame_append (f : Frame) (rest : List UInt8) :
    deserialize (f.bytes ++ rest) = deserialize f.bytes := by
  have hlen := f.length_bytes
  have hlt := f.prefixLength_lt
  have h₄ : 4 ≤ f.bytes.length := by omega
  have h₄' : 4 ≤ (f.bytes ++ rest).length := by
    rw [List.length_append]
    omega
  obtain ⟨length, hr, hn⟩ := exists_prefix h₄
  have hfour : (4 + length).toNat = f.bytes.length := by
    rw [toNat_four_add, hn]
    omega
  rw [deserialize_eq h₄ hr, deserialize_eq h₄' (by rw [readUint32_append h₄, hr]), hfour]
  split
  case isTrue => rfl
  case isFalse h₀ =>
    have hpos : 0 < length.toNat := Nat.pos_of_ne_zero fun hc => h₀ (UInt32.toNat_inj.mp hc)
    have hmsg : ∀ id, deserializePayload (f.bytes ++ rest) length id =
        deserializePayload f.bytes length id :=
      fun id => deserializePayload_append (by omega) hpos
    have hbyte : byteAt (f.bytes ++ rest) 4 = byteAt f.bytes 4 := by
      rw [byteAt, byteAt, List.getElem?_append_left (by omega)]
    rw [if_neg (Nat.lt_irrefl _), if_neg (by rw [List.length_append]; omega), hbyte]
    simp only [hmsg]

/-- **Decoding a whole frame** consumes it and finds its message. -/
theorem deserialize_frame (f : Frame) :
    deserialize f.bytes = .ok (f.message, f.bytes.length) := by
  have hlen := f.length_bytes
  obtain ⟨msg, consumed, hd, hout⟩ := exists_deserialize (by omega) f.prefixLength_lt
  rcases hout with ⟨-, -, hlt⟩ | ⟨rfl, -⟩
  · omega
  · rw [Frame.message, hd, hlen]

/-- **Decoding the beginning of a frame** finds nothing, and consumes nothing. -/
theorem deserialize_partial {t : List UInt8} (h : IsPartial t) : deserialize t = .ok (none, 0) := by
  obtain ⟨f, hp, hne⟩ := h
  rcases Nat.lt_or_ge t.length 4 with h₄ | h₄
  · exact deserialize_of_lt h₄
  obtain ⟨u, hu⟩ := hp
  have hpre : prefixLength f.bytes = prefixLength t := by rw [← hu, prefixLength_append h₄]
  have hlt : t.length < f.bytes.length := by
    rw [← hu, List.length_append]
    have hpos : 0 < u.length := List.length_pos_iff.mpr fun hc => hne (by rw [← hu, hc]; simp)
    omega
  have hlen := f.length_bytes
  obtain ⟨msg, consumed, hd, hout⟩ := exists_deserialize h₄ (hpre ▸ f.prefixLength_lt)
  rcases hout with ⟨rfl, rfl, -⟩ | ⟨-, hle⟩
  · exact hd
  · omega

/-! ### Which frames carry a message -/

/-- The payloads that spell no message, by their length. -/
theorem read_eq_none {k : MessageId} {payload : List UInt8} :
    k.read payload = none ↔ ¬k.Allows (payload.length + 1) := by
  cases k <;> simp only [MessageId.read, MessageId.Allows, ite_eq_left_iff, reduceCtorEq,
    imp_false, not_not, not_true, not_lt]
  all_goals omega

/-- **The payloads that carry no message.** -/
theorem deserializePayload_eq_none (h : 4 + length.toNat ≤ data.length) (h₀ : 0 < length.toNat) :
    deserializePayload data length id = .ok none ↔
      ∀ k, MessageId.ofByte id = some k → ¬k.Allows length.toNat := by
  have hlen : ((data.drop 5).take (length.toNat - 1)).length + 1 = length.toNat := by
    rw [length_payload h rfl]
    omega
  rw [deserializePayload_eq h h₀ rfl, Except.ok.injEq, Option.bind_eq_none_iff]
  simp only [read_eq_none, hlen]

end PeerMessage

namespace Frame

theorem four_le_length (f : Frame) : 4 ≤ f.bytes.length := by
  have hlen := f.length_bytes
  omega

/-- **The frames that carry no message** are those with an unknown id or a wrong length. -/
theorem message_eq_none (f : Frame) : f.message = none ↔ f.Undecodable := by
  have hlen := f.length_bytes
  have hlt := f.prefixLength_lt
  have hd := deserialize_frame f
  obtain ⟨length, hr, hn⟩ := exists_prefix f.four_le_length
  rw [deserialize_eq f.four_le_length hr] at hd
  rw [Undecodable, ← hn]
  split at hd
  case isTrue h₀ =>
    obtain ⟨hm, -⟩ := Prod.mk.inj (Except.ok.inj hd)
    rw [← hm, h₀]
    exact iff_of_false (by simp) fun h => h.1 rfl
  case isFalse h₀ =>
    have hpos : 0 < length.toNat := Nat.pos_of_ne_zero fun hc => h₀ (UInt32.toNat_inj.mp hc)
    have hfour : (4 + length).toNat = f.bytes.length := by
      rw [toNat_four_add, hn]
      omega
    have hid : f.bytes[4]? = some f.bytes[4] := List.getElem?_eq_getElem (by omega)
    rw [hfour, if_neg (Nat.lt_irrefl _), byteAt_of_lt (by omega)] at hd
    obtain ⟨msg, hmsg, hd⟩ := bind_eq_ok (x := deserializePayload f.bytes length f.bytes[4]) hd
    obtain ⟨hm, -⟩ := Prod.mk.inj (Except.ok.inj hd)
    have hiff : deserializePayload f.bytes length f.bytes[4] = .ok none ↔
        ∀ k, MessageId.ofByte f.bytes[4] = some k → ¬k.Allows length.toNat :=
      deserializePayload_eq_none (by omega) hpos
    rw [hmsg] at hiff
    rw [← hm, hid]
    constructor
    · intro hnone
      refine ⟨by omega, fun id k hk₄ hk => ?_⟩
      obtain rfl := Option.some.inj hk₄
      exact hiff.mp (by rw [hnone]) k hk
    · intro hund
      exact Except.ok.inj (hiff.mpr fun k hk => hund.2 _ k rfl hk)

end Frame

end TransferEngine
