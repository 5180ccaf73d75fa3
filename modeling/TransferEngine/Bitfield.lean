import Mathlib.Data.List.Basic

/-!
# Bitfields

`Bitfield` of `bitfield.hpp`: a set of piece indices packed eight to a byte, the
most significant bit first, as it travels on the wire. The number of bits is a
parameter of the type, and the one fact every access rests on, that there are
exactly enough bytes for it, is a field: no byte access below can be out of range.

The rest of the development never looks inside a byte. It reads a bitfield with
`TransferEngine.Bitfield.has` and changes it with `TransferEngine.Bitfield.set`,
and `TransferEngine.Bitfield.has_set` is all it knows about the two.
-/

namespace TransferEngine

/-- A bitfield of `numBits` bits, with the bytes that carry them. -/
structure Bitfield (numBits : ℕ) where
  /-- The bytes, bit `0` of the field being the highest bit of the first one. -/
  bytes : List UInt8
  /-- There are just enough bytes. -/
  size_eq : bytes.length = (numBits + 7) / 8
  deriving DecidableEq

namespace Bitfield

variable {n : ℕ}

/-- The mask of bit `index` inside its byte: `1 << (7 - index % 8)`. -/
def mask (index : ℕ) : UInt8 := 1 <<< UInt8.ofNat (7 - index % 8)

theorem byte_lt (b : Bitfield n) {index : ℕ} (h : index < n) : index / 8 < b.bytes.length := by
  rw [b.size_eq]
  omega

/-- The empty bitfield of `n` bits. -/
def empty (n : ℕ) : Bitfield n where
  bytes := List.replicate ((n + 7) / 8) 0
  size_eq := List.length_replicate

/-- A bitfield read off the wire: as many bytes as the field has room for, missing
ones zero, and the padding bits of the last one cleared. -/
def ofBytes (bytes : List UInt8) (n : ℕ) : Bitfield n :=
  let expected := (n + 7) / 8
  let copied := bytes.take expected ++ List.replicate (expected - bytes.length) 0
  { bytes :=
      if n % 8 ≠ 0 ∧ copied ≠ [] then
        copied.modify (expected - 1) (· &&& (0xFF <<< UInt8.ofNat (8 - n % 8)))
      else copied
    size_eq := by
      have h : copied.length = (n + 7) / 8 := by
        simp only [copied, expected, List.length_append, List.length_take, List.length_replicate]
        omega
      split
      · rw [List.length_modify, h]
      · exact h }

/-- Whether bit `index` is set; out of range it is not. -/
def has (b : Bitfield n) (index : ℕ) : Bool :=
  if h : index < n then
    have := b.byte_lt h
    (b.bytes[index / 8] &&& mask index) != 0
  else false

/-- Set or clear bit `index`; out of range nothing happens. -/
def set (b : Bitfield n) (index : ℕ) (val : Bool) : Bitfield n :=
  if h : index < n then
    have := b.byte_lt h
    let byte := b.bytes[index / 8]
    { bytes := b.bytes.set (index / 8)
        (if val then byte ||| mask index else byte &&& ~~~(mask index))
      size_eq := by rw [List.length_set, b.size_eq] }
  else b

/-- The inner loop of `count`: add up the low bits of `b`, shifting it down until
it is zero. A byte is zero after eight shifts. -/
def countBits : ℕ → ℕ → ℕ → ℕ
  | 0, _, total => total
  | fuel + 1, b, total =>
    if b = 0 then total else countBits fuel (b / 2) (total + b % 2)

/-- The number of set bits. -/
def count (b : Bitfield n) : ℕ :=
  b.bytes.foldl (fun total byte => countBits 8 byte.toNat total) 0

/-- Each byte of an intersection has a byte in both. -/
theorem inter_byte_lt {m : ℕ} (b : Bitfield n) (c : Bitfield m) {i : ℕ}
    (h : i < (min n m + 7) / 8) : i < b.bytes.length ∧ i < c.bytes.length := by
  rw [b.size_eq, c.size_eq]
  omega

/-- `operator&`: what both have, as long as the shorter one. -/
def inter {m : ℕ} (b : Bitfield n) (c : Bitfield m) : Bitfield (min n m) where
  bytes := List.ofFn fun i : Fin ((min n m + 7) / 8) =>
    b.bytes.get ⟨i, (b.inter_byte_lt c i.isLt).1⟩ &&& c.bytes.get ⟨i, (b.inter_byte_lt c i.isLt).2⟩
  size_eq := List.length_ofFn

/-! ### Two bits of a byte -/

/-- The mask of a bit is a power of two. -/
theorem toBitVec_mask (i : ℕ) : (mask i).toBitVec = BitVec.twoPow 8 (7 - i % 8) := by
  have h : ∀ k : Fin 8, ((1 : UInt8) <<< UInt8.ofNat (7 - k)).toBitVec =
      BitVec.twoPow 8 (7 - k) := by decide
  exact h ⟨i % 8, Nat.mod_lt _ (by omega)⟩

/-- Testing a byte against a mask reads one bit of it. -/
theorem and_mask_ne_zero (byte : UInt8) (i : ℕ) :
    ((byte &&& mask i) != 0) = byte.toBitVec.getLsbD (7 - i % 8) := by
  have hne : BitVec.twoPow 8 (7 - i % 8) ≠ 0#8 := by
    have h : ∀ k : Fin 8, BitVec.twoPow 8 (7 - k) ≠ 0#8 := by decide
    exact h ⟨i % 8, Nat.mod_lt _ (by omega)⟩
  have hb : byte &&& mask i = 0 ↔ byte.toBitVec.getLsbD (7 - i % 8) = false := by
    rw [← UInt8.toBitVec_inj, UInt8.toBitVec_and, toBitVec_mask, BitVec.and_twoPow]
    cases byte.toBitVec.getLsbD (7 - i % 8) with
    | true => simpa using hne
    | false => simp
  cases h : byte.toBitVec.getLsbD (7 - i % 8) with
  | true => simpa [h] using hb
  | false => simpa [h] using hb

/-- Writing a bit of a byte and reading one back. -/
theorem write_and_mask (byte : UInt8) (i j : ℕ) (val : Bool) :
    (((if val then byte ||| mask i else byte &&& ~~~(mask i)) &&& mask j) != 0) =
      if i % 8 = j % 8 then val else (byte &&& mask j) != 0 := by
  have hij : 7 - i % 8 = 7 - j % 8 ↔ i % 8 = j % 8 := by omega
  have hlt : 7 - j % 8 < 8 := by omega
  rw [and_mask_ne_zero, and_mask_ne_zero]
  cases val with
  | true =>
    simp only [if_true, UInt8.toBitVec_or, BitVec.getLsbD_or, toBitVec_mask, BitVec.getLsbD_twoPow]
    by_cases h : i % 8 = j % 8
    · simp [h, hlt]
    · simp [mt hij.mp h, h]
  | false =>
    simp only [Bool.false_eq_true, if_false, UInt8.toBitVec_and, UInt8.toBitVec_not,
      BitVec.getLsbD_and, BitVec.getLsbD_not, toBitVec_mask, BitVec.getLsbD_twoPow]
    by_cases h : i % 8 = j % 8
    · simp [h, hlt]
    · simp [mt hij.mp h, h, hlt]

/-- Reading a bit in range, with a total byte access. -/
theorem has_eq {b : Bitfield n} {i : ℕ} (h : i < n) :
    b.has i = ((b.bytes[i / 8]?.getD 0 &&& mask i) != 0) := by
  have hb := b.byte_lt h
  simp [has, h, List.getElem?_eq_getElem hb]

/-- The bytes after a write in range, with a total byte access. -/
theorem bytes_set {b : Bitfield n} {i : ℕ} (h : i < n) (val : Bool) :
    (b.set i val).bytes = b.bytes.set (i / 8)
      (if val then b.bytes[i / 8]?.getD 0 ||| mask i
        else b.bytes[i / 8]?.getD 0 &&& ~~~(mask i)) := by
  have hb := b.byte_lt h
  simp [set, h, List.getElem?_eq_getElem hb]

/-! ### What the rest of the program knows -/

theorem lt_of_has {b : Bitfield n} {i : ℕ} (h : b.has i = true) : i < n := by
  by_contra hc
  simp [has, hc] at h

@[simp] theorem has_empty (i : ℕ) : (empty n).has i = false := by
  by_cases h : i < n <;> simp [has, h, empty]

/-- **Reading after writing.** -/
theorem has_set (b : Bitfield n) (i j : ℕ) (val : Bool) :
    (b.set i val).has j = if i = j ∧ i < n then val else b.has j := by
  by_cases hi : i < n
  · by_cases hj : j < n
    · rw [has_eq hj, has_eq hj, bytes_set hi, List.getElem?_set]
      by_cases hb : i / 8 = j / 8
      · rw [if_pos hb, if_pos (by rw [hb]; exact b.byte_lt hj), Option.getD_some, write_and_mask,
          hb]
        by_cases he : i = j
        · subst he
          simp [hi]
        · rw [if_neg (by omega), if_neg (by omega)]
      · rw [if_neg hb, if_neg (by omega)]
    · rw [if_neg (by omega)]
      simp [has, hj]
  · simp [set, hi]

@[simp] theorem has_set_true {b : Bitfield n} {i j : ℕ} :
    (b.set i true).has j = true ↔ (i = j ∧ i < n) ∨ b.has j = true := by
  rw [has_set]
  by_cases h : i = j ∧ i < n
  · rw [if_pos h]
    exact iff_of_true rfl (Or.inl h)
  · rw [if_neg h]
    exact ⟨Or.inr, fun hc => hc.resolve_left h⟩

end Bitfield

end TransferEngine
