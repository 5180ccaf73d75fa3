import Mathlib.Algebra.BigOperators.Intervals
import Mathlib.Algebra.Order.BigOperators.Group.Finset
import Mathlib.Data.Nat.Bitwise

/-!
# Byte strings as bit strings

A byte string read bit by bit, the highest bit of each byte first, as sets are packed in wire
formats: `Bits.bit bytes i` is bit `i`, and a position past the end reads as zero. Two byte
strings of one length with the same bits are equal (`Bits.eq_of_bit_eq`), and what is computed
byte by byte is computed bit by bit: `Bits.bit_and` for the conjunction, `Bits.weight_cons` for
the number of ones.
-/

namespace Bits

variable {bytes bytes' : List UInt8} {b : UInt8} {i k n : ℕ}

/-- Bit `i` of a byte string, the most significant bit of a byte being the first. -/
def bit (bytes : List UInt8) (i : ℕ) : Bool :=
  (bytes[i / 8]?.getD 0).toBitVec.getLsbD (7 - i % 8)

/-- The number of ones. -/
def weight (bytes : List UInt8) : ℕ := ∑ i ∈ Finset.range (8 * bytes.length), (bit bytes i).toNat

theorem bit_of_length_le (h : 8 * bytes.length ≤ i) : bit bytes i = false := by
  have hlen : bytes.length ≤ i / 8 := by omega
  rw [bit, List.getElem?_eq_none hlen]
  simp

/-- The bits of the first byte. -/
theorem bit_cons_of_lt (h : k < 8) : bit (b :: bytes) k = b.toNat.testBit (7 - k) := by
  rw [bit, Nat.div_eq_of_lt h, Nat.mod_eq_of_lt h]
  rfl

/-- The bits behind the first byte. -/
theorem bit_cons_add : bit (b :: bytes) (8 + k) = bit bytes k := by
  rw [bit, bit, Nat.add_div_left k (by omega), Nat.add_mod_left, List.getElem?_cons_succ]

/-- **A byte string is its bits.** -/
theorem eq_of_bit_eq (hlen : bytes.length = bytes'.length)
    (h : ∀ i < 8 * bytes.length, bit bytes i = bit bytes' i) : bytes = bytes' := by
  refine List.ext_getElem hlen fun j hj hj' => ?_
  refine UInt8.toBitVec_inj.mp (BitVec.eq_of_getLsbD_eq fun k hk => ?_)
  have hbit := h (8 * j + (7 - k)) (by omega)
  have hdiv : (8 * j + (7 - k)) / 8 = j := by omega
  have hmod : 7 - (8 * j + (7 - k)) % 8 = k := by omega
  rw [bit, bit, hdiv, hmod, List.getElem?_eq_getElem hj, List.getElem?_eq_getElem hj'] at hbit
  exact hbit

/-- The bits of a byte-wise conjunction. -/
theorem bit_and {out : List UInt8}
    (hout : ∀ j < n, out[j]?.getD 0 = bytes[j]?.getD 0 &&& bytes'[j]?.getD 0)
    (hi : i < 8 * n) : bit out i = (bit bytes i && bit bytes' i) := by
  rw [bit, hout (i / 8) (by omega), UInt8.toBitVec_and, BitVec.getLsbD_and, bit, bit]

/-! ### The number of ones -/

/-- The number of ones of a number of `n` bits: the parity, and what is left of it when it is
halved. -/
theorem sum_testBit_succ (a n : ℕ) : ∑ k ∈ Finset.range (n + 1), (a.testBit k).toNat =
    a % 2 + ∑ k ∈ Finset.range n, ((a / 2).testBit k).toNat := by
  have hparity : (a.testBit 0).toNat = a % 2 := by
    rw [Nat.testBit_zero]
    rcases Nat.mod_two_eq_zero_or_one a with h | h
    · rw [h]
      rfl
    · rw [h]
      rfl
  rw [Finset.sum_range_succ', hparity, Nat.add_comm]
  simp only [Nat.testBit_div_two]

/-- The ones of a byte, and then those behind it. -/
theorem weight_cons : weight (b :: bytes) =
    ∑ k ∈ Finset.range 8, (b.toNat.testBit k).toNat + weight bytes := by
  have hlen : 8 * (b :: bytes).length = 8 + 8 * bytes.length := by
    rw [List.length_cons]
    omega
  rw [weight, hlen, Finset.sum_range_add, weight]
  congr 1
  · -- the bits of a byte are met from the highest down
    rw [← Finset.sum_range_reflect]
    refine Finset.sum_congr rfl fun k hk => ?_
    rw [Finset.mem_range] at hk
    rw [bit_cons_of_lt (by omega)]
    congr 2
    omega
  · exact Finset.sum_congr rfl fun k _ => congrArg Bool.toNat bit_cons_add

/-- Where only the first `n` bits can be set, the ones are counted among them. -/
theorem weight_eq_card (hlen : n ≤ 8 * bytes.length) (h : ∀ i, n ≤ i → bit bytes i = false) :
    weight bytes = ((Finset.range n).filter fun i => bit bytes i = true).card := by
  have hsub : Finset.range n ⊆ Finset.range (8 * bytes.length) := Finset.range_mono hlen
  rw [weight, ← Finset.sum_subset hsub fun i _ hi => ?_, Finset.card_filter]
  · refine Finset.sum_congr rfl fun i _ => ?_
    cases bit bytes i with
    | true => rfl
    | false => rfl
  · rw [Finset.mem_range] at hi
    rw [h i (by omega)]
    rfl

end Bits
