import TransferEngine.PeerConnection

/-!
# Reading one frame

When `TransferEngine.PeerMessage.deserialize` reads a frame the way a frame is meant to
be read: inside the buffer, all of the frame or none of it, and so that the receive loop
of a connection gets on.

A payload that is all there is read in bounds, and what message it carries is said by it and
the id alone (`TransferEngine.MessageId.read`, `TransferEngine.PeerMessage.deserializePayload_eq`).

The bound check compares the size of the buffer with `4 + length`, a sum of 32-bit
numbers. For a length below `2 ^ 32 - 4` the sum is the natural one and everything is
as it should be. From there on it wraps: the check passes on any buffer, and the
payload is then read, or the frame skipped, by the wrong amount.
`TransferEngine.PeerMessage.frameSound_iff` says for which buffers nothing comes of it.
-/

namespace TransferEngine

open Bytes

theorem MessageId.ofByte_eq_some {b : UInt8} {k : MessageId} :
    MessageId.ofByte b = some k ↔ b = k.toByte := by
  constructor
  · intro h
    rw [MessageId.ofByte] at h
    split at h <;> cases h <;> exact UInt8.toNat_inj.mp ‹_›
  · rintro rfl
    cases k <;> rfl

/-- The number that four bytes of a payload spell. -/
def numberAt (payload : List UInt8) (off : ℕ) : UInt32 :=
  .ofNat (bigEndian ((payload.drop off).take 4))

/-- The message with a given id that a payload spells. -/
def MessageId.read (payload : List UInt8) : MessageId → Option PeerMessage
  | .choke => if payload.length ≠ 0 then none else some .chokeMsg
  | .unchoke => if payload.length ≠ 0 then none else some .unchokeMsg
  | .interested => if payload.length ≠ 0 then none else some .interestedMsg
  | .notInterested => if payload.length ≠ 0 then none else some .notInterestedMsg
  | .have_ => if payload.length ≠ 4 then none else some (.haveMsg (numberAt payload 0))
  | .bitfield => some (.bitfieldMsg payload)
  | .request =>
    if payload.length ≠ 12 then none
    else some (.requestMsg (numberAt payload 0) (numberAt payload 4) (numberAt payload 8))
  | .piece =>
    if payload.length < 8 then none
    else some (.pieceMsg (numberAt payload 0) (numberAt payload 4) (payload.drop 8))
  | .cancel =>
    if payload.length ≠ 12 then none
    else some (.cancelMsg (numberAt payload 0) (numberAt payload 4) (numberAt payload 8))
  | .port => if payload.length ≠ 2 then none else some (.portMsg (.ofNat (bigEndian payload)))

/-- A pass of the receive loop **gets on**: it stays inside the buffer, and it ends the
loop or leaves less to read. -/
def PeerConnection.GetsOn (c : PeerConnection) : Prop :=
  (∃ c', c.rxPass = .ok (.stop c')) ∨
    ∃ m c', c.rxPass = .ok (.frame m c') ∧ c'.rxBuffer.length < c.rxBuffer.length

namespace PeerMessage

variable {data : List UInt8} {length : UInt32} {id : UInt8} {msg : Option PeerMessage}
  {consumed : ℕ}

/-- The number the first four bytes spell. -/
def prefixLength (data : List UInt8) : ℕ := bigEndian (data.take 4)

/-- The buffer does not hold the whole frame yet. -/
def Incomplete (data : List UInt8) : Prop :=
  data.length < 4 ∨ data.length < 4 + prefixLength data

/-- **The frame at the front of the buffer is read well**: no read leaves the buffer;
nothing is consumed, and no message found, exactly when the frame is incomplete, and
otherwise the whole frame is consumed; and every pass of the receive loop over this
buffer gets on. -/
def FrameSound (data : List UInt8) : Prop :=
  (∃ msg consumed, deserialize data = .ok (msg, consumed) ∧
    ((consumed = 0 ∧ msg = none) ↔ Incomplete data) ∧
    (¬Incomplete data → consumed = 4 + prefixLength data ∧ consumed ≤ data.length)) ∧
  ∀ c : PeerConnection, c.state = .active → c.rxBuffer = data → c.GetsOn

/-- The length announced does not make the bound check wrap, or makes it wrap to zero on
a frame whose payload is refused before it is read. -/
def LengthFits (data : List UInt8) : Prop :=
  data.length < 4 ∨ prefixLength data < 2 ^ 32 - 4 ∨
    (prefixLength data = 2 ^ 32 - 4 ∧ 5 ≤ data.length ∧ data.length < 2 ^ 32 ∧
      data[4]? ≠ some 5 ∧ data[4]? ≠ some 7)

/-! ### The payload -/

section Payload

variable {payload : List UInt8} {n : UInt32} {k : ℕ}

theorem length_payload (h : 4 + length.toNat ≤ data.length)
    (hp : (data.drop 5).take (length.toNat - 1) = payload) : payload.length = length.toNat - 1 := by
  rw [← hp, List.length_take, List.length_drop]
  omega

/-- A number in the payload. -/
theorem readUint32_payload (h : 4 + length.toNat ≤ data.length)
    (hp : (data.drop 5).take (length.toNat - 1) = payload) (off : ℕ)
    (hoff : off + 4 ≤ payload.length) (hk : k = 5 + off) :
    readUint32 data k = .ok (numberAt payload off) := by
  have hlen := length_payload h hp
  rw [readUint32_of_le (by omega), numberAt, ← hp, List.drop_take, List.take_take,
    List.drop_drop, Nat.min_eq_left (by omega), hk]

/-- The length of a frame and that of its payload. -/
theorem ne_iff_length_ne (hlen : payload.length = length.toNat - 1) (h₀ : 0 < length.toNat)
    (hn : n.toNat = k + 1) : length ≠ n ↔ payload.length ≠ k := by
  rw [hlen, ← UInt32.toNat_inj.ne]
  omega

theorem bare_eq (hlen : payload.length = length.toNat - 1) (h₀ : 0 < length.toNat)
    (m : PeerMessage) : bare length m = .ok (if payload.length ≠ 0 then none else some m) := by
  rw [bare, if_congr (ne_iff_length_ne hlen h₀ rfl) rfl rfl]
  split <;> rfl

theorem blockRange_eq (h : 4 + length.toNat ≤ data.length) (h₀ : 0 < length.toNat)
    (hp : (data.drop 5).take (length.toNat - 1) = payload)
    (m : UInt32 → UInt32 → UInt32 → PeerMessage) : blockRange data length m =
      .ok (if payload.length ≠ 12 then none
        else some (m (numberAt payload 0) (numberAt payload 4) (numberAt payload 8))) := by
  have hlen := length_payload h hp
  rw [blockRange, if_congr (ne_iff_length_ne hlen h₀ rfl) rfl rfl]
  split
  case isTrue => rfl
  case isFalse hl =>
    rw [readUint32_payload h hp 0 (by omega) rfl, ok_bind,
      readUint32_payload h hp 4 (by omega) rfl, ok_bind,
      readUint32_payload h hp 8 (by omega) rfl]
    rfl

/-- **A payload that is all there is read in bounds**, and it says alone what the message is. -/
theorem deserializePayload_eq (h : 4 + length.toNat ≤ data.length) (h₀ : 0 < length.toNat)
    (hp : (data.drop 5).take (length.toNat - 1) = payload) :
    deserializePayload data length id =
      .ok ((MessageId.ofByte id).bind (MessageId.read payload)) := by
  have hlen := length_payload h hp
  rw [deserializePayload]
  cases MessageId.ofByte id with
  | none => rfl
  | some k =>
    rw [Option.bind_some]
    cases k with
    | choke | unchoke | interested | notInterested => exact bare_eq hlen h₀ _
    | request | cancel => exact blockRange_eq h h₀ hp _
    | have_ =>
      dsimp only
      rw [if_congr (ne_iff_length_ne hlen h₀ rfl) rfl rfl, MessageId.read]
      split
      case isTrue => rfl
      case isFalse hl =>
        rw [readUint32_payload h hp 0 (by omega) rfl]
        rfl
    | bitfield =>
      have hsub : (length - 1).toNat = length.toNat - 1 :=
        UInt32.toNat_sub_of_le _ _ (UInt32.le_iff_toNat_le.mpr h₀)
      dsimp only
      rw [hsub, readSpan_of_le (by omega), hp]
      rfl
    | piece =>
      have hlt : length < 9 ↔ payload.length < 8 := by
        rw [UInt32.lt_iff_toNat_lt, show (9 : UInt32).toNat = 9 from rfl]
        omega
      dsimp only
      rw [if_congr hlt rfl rfl, MessageId.read]
      split
      case isTrue => rfl
      case isFalse hl =>
        have hsub : (length - 9).toNat = length.toNat - 9 :=
          UInt32.toNat_sub_of_le _ _ (UInt32.not_lt.mp (mt hlt.mp hl))
        have hblock : readSpan data 13 (length - 9).toNat = .ok (payload.drop 8) := by
          rw [hsub, readSpan_of_le (by omega), ← hp, List.drop_take, List.drop_drop]
          rfl
        rw [readUint32_payload h hp 0 (by omega) rfl, ok_bind,
          readUint32_payload h hp 4 (by omega) rfl, ok_bind, hblock]
        rfl
    | port =>
      dsimp only
      rw [if_congr (ne_iff_length_ne hlen h₀ rfl) rfl rfl, MessageId.read]
      split
      case isTrue => rfl
      case isFalse hl =>
        rw [readUint16_of_le (by omega), ← hp, show length.toNat - 1 = 2 by omega]
        rfl

end Payload

/-- **A length that wraps the bound check to zero.** In a buffer that does not hold the
`2 ^ 32 - 4` bytes announced, a message of a fixed length is refused unread, and the
payload of a Bitfield or a Piece is read out of bounds. -/
theorem deserializePayload_huge (hd : data.length < 2 ^ 32) :
    deserializePayload data 0xFFFFFFFC id = .ok msg ↔ msg = none ∧ id ≠ 5 ∧ id ≠ 7 := by
  have h₅ : MessageId.ofByte id ≠ some .bitfield ↔ id ≠ 5 := MessageId.ofByte_eq_some.ne
  have h₇ : MessageId.ofByte id ≠ some .piece ↔ id ≠ 7 := MessageId.ofByte_eq_some.ne
  rw [deserializePayload, ← h₅, ← h₇]
  cases MessageId.ofByte id with
  | none => simp [eq_comm]
  | some k =>
    cases k with
    | bitfield =>
      refine iff_of_false (fun h => ?_) (by simp)
      obtain ⟨w, hw, -⟩ := bind_eq_ok h
      have hle : 5 + 4294967291 ≤ data.length := le_of_readSpan hw
      omega
    | piece =>
      refine iff_of_false (fun h => ?_) (by simp)
      dsimp only at h
      rw [if_neg (by decide)] at h
      obtain ⟨i, -, h⟩ := bind_eq_ok h
      obtain ⟨c, -, h⟩ := bind_eq_ok h
      obtain ⟨w, hw, -⟩ := bind_eq_ok h
      have hle : 13 + 4294967283 ≤ data.length := le_of_readSpan hw
      omega
    | _ => simp [bare, blockRange, eq_comm]

/-! ### The frame -/

theorem deserialize_of_lt (h : data.length < 4) : deserialize data = .ok (none, 0) := by
  rw [deserialize, if_pos h]

/-- The number of bytes a frame of a given length is taken to have, as the source computes
it. -/
theorem toNat_four_add : (4 + length).toNat = (4 + length.toNat) % 2 ^ 32 := by
  rw [UInt32.toNat_add]
  rfl

/-- The length prefix, read from a buffer that holds one. -/
theorem exists_prefix (h : 4 ≤ data.length) :
    ∃ length : UInt32, readUint32 data 0 = .ok length ∧ length.toNat = prefixLength data := by
  refine ⟨_, readUint32_of_le (by omega), ?_⟩
  have hlt := bigEndian_lt (data.take 4)
  rw [List.length_take_of_le h] at hlt
  rw [prefixLength, List.drop_zero, UInt32.toNat_ofNat']
  exact Nat.mod_eq_of_lt hlt

/-- **The outcomes of decoding a buffer that holds a length prefix.** -/
theorem deserialize_eq (h : 4 ≤ data.length) (hr : readUint32 data 0 = .ok length) :
    deserialize data =
      if length = 0 then .ok (some .keepAliveMsg, 4)
      else if data.length < (4 + length).toNat then .ok (none, 0)
      else do
        let id ← byteAt data 4
        let msg ← deserializePayload data length id
        return (msg, (4 + length).toNat) := by
  rw [deserialize, if_neg (by omega), hr]
  rfl

/-- A length that does not wrap gives a frame that is read whole or not at all. -/
theorem exists_deserialize (h : 4 ≤ data.length) (hl : prefixLength data < 2 ^ 32 - 4) :
    ∃ msg consumed, deserialize data = .ok (msg, consumed) ∧
      ((consumed = 0 ∧ msg = none ∧ data.length < 4 + prefixLength data) ∨
        (consumed = 4 + prefixLength data ∧ 4 + prefixLength data ≤ data.length)) := by
  obtain ⟨length, hr, hn⟩ := exists_prefix h
  have hfour : (4 + length).toNat = 4 + prefixLength data := by
    rw [toNat_four_add, hn]
    omega
  rw [deserialize_eq h hr, hfour]
  split
  case isTrue h₀ =>
    have hz : prefixLength data = 0 := by rw [← hn, h₀]; rfl
    exact ⟨_, _, rfl, Or.inr ⟨by omega, by omega⟩⟩
  case isFalse h₀ =>
    split
    case isTrue hlt => exact ⟨_, _, rfl, Or.inl ⟨rfl, rfl, hlt⟩⟩
    case isFalse hge =>
      have hpos : 0 < length.toNat := Nat.pos_of_ne_zero fun hc => h₀ (UInt32.toNat_inj.mp hc)
      have hle : 4 + length.toNat ≤ data.length := by omega
      rw [byteAt_of_lt (by omega), ok_bind, deserializePayload_eq hle hpos rfl]
      exact ⟨_, _, rfl, Or.inr ⟨rfl, by omega⟩⟩

/-- A length that wraps is taken for a frame of fewer than four bytes. -/
theorem deserialize_wrapped (h : 4 ≤ data.length) (hl : 2 ^ 32 - 4 ≤ prefixLength data)
    (hd : deserialize data = .ok (msg, consumed)) :
    consumed = prefixLength data - (2 ^ 32 - 4) ∧
      ∃ id length, data[4]? = some id ∧ length.toNat = prefixLength data ∧
        deserializePayload data length id = .ok msg := by
  obtain ⟨length, hr, hn⟩ := exists_prefix h
  have hlt := length.toNat_lt
  have hfour : (4 + length).toNat = prefixLength data - (2 ^ 32 - 4) := by
    rw [toNat_four_add, hn]
    omega
  have h₀ : length ≠ 0 := by
    rintro rfl
    rw [← hn] at hl
    exact absurd hl (by decide)
  rw [deserialize_eq h hr, if_neg h₀, if_neg (by omega)] at hd
  obtain ⟨id, hid, hd⟩ := bind_eq_ok hd
  obtain ⟨msg', hmsg, hd⟩ := bind_eq_ok hd
  cases hd
  exact ⟨hfour, id, length, byteAt_eq_ok.mp hid, hn, hmsg⟩

/-- The length that wraps to zero, on a frame whose payload is not read. -/
theorem deserialize_huge (hl : prefixLength data = 2 ^ 32 - 4) (h₅ : 5 ≤ data.length)
    (hd : data.length < 2 ^ 32) (hne : data[4]? ≠ some 5 ∧ data[4]? ≠ some 7) :
    deserialize data = .ok (none, 0) := by
  have h₄ : 4 ≤ data.length := by omega
  obtain ⟨length, hr, hn⟩ := exists_prefix h₄
  obtain rfl : length = 0xFFFFFFFC := UInt32.toNat_inj.mp (hn.trans hl)
  have hid : data[4]? = some data[4] := List.getElem?_eq_getElem (by omega)
  have hmsg : deserializePayload data 0xFFFFFFFC data[4] = .ok none :=
    (deserializePayload_huge hd).mpr ⟨rfl, fun h => hne.1 (h ▸ hid), fun h => hne.2 (h ▸ hid)⟩
  have hzero : ¬data.length < (4 + 0xFFFFFFFC : UInt32).toNat := Nat.not_lt_zero _
  rw [deserialize_eq h₄ hr, if_neg (by decide), if_neg hzero, byteAt_of_lt (by omega)]
  show (deserializePayload data 0xFFFFFFFC data[4] >>= _) = _
  rw [hmsg]
  rfl

/-! ### The receive loop -/

/-- A pass gets on when the decoder finds nothing to consume, or consumes something. -/
theorem getsOn_of_deserialize {c : PeerConnection} (hs : c.state = .active)
    (hd : deserialize c.rxBuffer = .ok (msg, consumed))
    (h : (consumed = 0 ∧ msg = none) ∨ (0 < consumed ∧ consumed ≤ c.rxBuffer.length)) :
    c.GetsOn := by
  by_cases hb : c.rxBuffer = []
  · exact Or.inl ⟨c, by rw [PeerConnection.rxPass, if_pos hb]⟩
  have hpass : c.rxPass = .ok (c.framePass msg consumed) := by
    rewrite [PeerConnection.rxPass, if_neg hb, hs, hd]
    rfl
  rw [PeerConnection.framePass] at hpass
  rcases h with ⟨rfl, rfl⟩ | ⟨hpos, hle⟩
  · exact Or.inl ⟨c, hpass⟩
  · right
    have hne : ¬(msg = none ∧ consumed = 0) := fun hc => by omega
    have hlt : (c.rxBuffer.drop consumed).length < c.rxBuffer.length := by
      rw [List.length_drop]
      omega
    rw [if_neg hne, if_pos hpos] at hpass
    cases msg with
    | none => exact ⟨_, _, hpass, hlt⟩
    | some m =>
      refine ⟨_, _, hpass, ?_⟩
      cases m <;> exact hlt

/-! ### When a frame is read well -/

/-- An incomplete frame that is left alone. -/
theorem frameSound_of_incomplete (hd : deserialize data = .ok (none, 0)) (hi : Incomplete data) :
    FrameSound data := by
  refine ⟨⟨none, 0, hd, iff_of_true ⟨rfl, rfl⟩ hi, fun hc => absurd hi hc⟩, ?_⟩
  rintro c hs rfl
  exact getsOn_of_deserialize hs hd (Or.inl ⟨rfl, rfl⟩)

/-- A frame whose length does not wrap. -/
theorem frameSound_of_lt (h₄ : 4 ≤ data.length) (hl : prefixLength data < 2 ^ 32 - 4) :
    FrameSound data := by
  obtain ⟨msg, consumed, hd, hout⟩ := exists_deserialize h₄ hl
  rcases hout with ⟨rfl, rfl, hlt⟩ | ⟨hc, hle⟩
  · exact frameSound_of_incomplete hd (Or.inr hlt)
  · -- the frame is there, and is consumed whole
    have hi : ¬Incomplete data := by
      rintro (h | h) <;> omega
    refine ⟨⟨msg, consumed, hd, ?_, fun _ => ⟨hc, by omega⟩⟩, ?_⟩
    · exact iff_of_false (fun h => by omega) hi
    · rintro c hs rfl
      exact getsOn_of_deserialize hs hd (Or.inr ⟨by omega, by omega⟩)

/-- A frame whose length wraps is read well only where the sum is zero and the payload is
refused unread. -/
theorem lengthFits_of_wrapped (h₄ : 4 ≤ data.length) (hl : 2 ^ 32 - 4 ≤ prefixLength data)
    (h : FrameSound data) : LengthFits data := by
  obtain ⟨⟨msg, consumed, hd, hiff, hall⟩, -⟩ := h
  obtain ⟨hc, id, length, hid, hn, hmsg⟩ := deserialize_wrapped h₄ hl hd
  -- a frame this long would be consumed whole, and fewer than four bytes are
  have hinc : Incomplete data := by
    by_contra hcon
    have := (hall hcon).1
    omega
  obtain ⟨hc₀, -⟩ := hiff.mpr hinc
  have heq : prefixLength data = 2 ^ 32 - 4 := by omega
  have hlt : data.length < 2 ^ 32 := by
    rcases hinc with h | h <;> omega
  obtain rfl : length = 0xFFFFFFFC := UInt32.toNat_inj.mp (hn.trans heq)
  obtain ⟨-, h5, h7⟩ := (deserializePayload_huge hlt).mp hmsg
  obtain ⟨hlen, -⟩ := List.getElem?_eq_some_iff.mp hid
  refine Or.inr (Or.inr ⟨heq, hlen, hlt, ?_, ?_⟩)
  · rw [hid]
    exact fun hc => h5 (Option.some.inj hc)
  · rw [hid]
    exact fun hc => h7 (Option.some.inj hc)

/-- **When a frame is read well.** -/
theorem frameSound_iff (data : List UInt8) : FrameSound data ↔ LengthFits data := by
  rcases Nat.lt_or_ge data.length 4 with hshort | h₄
  · -- no length prefix yet
    exact iff_of_true (frameSound_of_incomplete (deserialize_of_lt hshort) (Or.inl hshort))
      (Or.inl hshort)
  rcases Nat.lt_or_ge (prefixLength data) (2 ^ 32 - 4) with hl | hl
  · exact iff_of_true (frameSound_of_lt h₄ hl) (Or.inr (Or.inl hl))
  constructor
  · exact lengthFits_of_wrapped h₄ hl
  · rintro (h | h | ⟨heq, h₅, hlt, hne⟩)
    · omega
    · omega
    · exact frameSound_of_incomplete (deserialize_huge heq h₅ hlt hne) (Or.inr (by omega))

/-- **A prefix of four `0xFF`** on its own: the sum wraps to three, the bound check passes
and the id byte is read past the end. -/
theorem not_frameSound_wrapped : ¬FrameSound [0xFF, 0xFF, 0xFF, 0xFF] := by
  rintro ⟨⟨msg, consumed, hd, -⟩, -⟩
  have hfault : deserialize [0xFF, 0xFF, 0xFF, 0xFF] = .error .outOfBounds := by decide
  rw [hfault] at hd
  cases hd

end PeerMessage

end TransferEngine
