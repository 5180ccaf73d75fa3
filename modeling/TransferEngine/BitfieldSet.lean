import Mathlib.Algebra.Order.Floor.Div
import TransferEngine.Bitfield
import TransferEngine.Lib.Bits

/-!
# Bitfields as sets

What a bitfield stands for is the set of the indices it has. Built by its constructors, written
to and intersected, it stands for the set built by the same operations
(`TransferEngine.Bitfield.Denotes`, `TransferEngine.Bitfield.refines_set`).

`has` and `set` look at one bit; the number of set bits and the comparison look at the whole
bytes. The two views agree because the padding bits of the last byte are zero
(`TransferEngine.Bitfield.Clean`), which is what every operation has to keep.
-/

namespace TransferEngine

namespace Bitfield

open Bits

variable {m n i j : ℕ} {b b' : Bitfield n} {c : Bitfield m} {bytes : List UInt8}

/-- **No padding bit is set.** -/
def Clean (b : Bitfield n) : Prop := ∀ i, n ≤ i → bit b.bytes i = false

/-- The indices of a bitfield. -/
def members (b : Bitfield n) : Finset ℕ := (Finset.range n).filter fun i => b.has i = true

/-! ### Bit by bit -/

/-- What `has` reads. -/
theorem has_eq_bit (b : Bitfield n) (i : ℕ) : b.has i = (decide (i < n) && bit b.bytes i) := by
  by_cases h : i < n
  · rw [has_eq h, and_mask_ne_zero, decide_eq_true h, Bool.true_and, bit]
  · rw [decide_eq_false h, Bool.false_and, has, dif_neg h]

/-- In a clean bitfield, what `has` reads is all there is. -/
theorem Clean.bit_eq (h : b.Clean) (i : ℕ) : bit b.bytes i = b.has i := by
  rw [has_eq_bit]
  by_cases hi : i < n
  · rw [decide_eq_true hi, Bool.true_and]
  · rw [decide_eq_false hi, Bool.false_and, h i (by omega)]

/-- A field of `n` bits has room for them. -/
theorem le_eight_mul_length (b : Bitfield n) : n ≤ 8 * b.bytes.length := by
  rw [b.size_eq]
  omega

@[simp] theorem bit_empty (n i : ℕ) : bit (empty n).bytes i = false := by
  rw [bit, empty, List.getElem?_replicate]
  split <;> simp

/-- The bits after a write. -/
theorem bit_set (b : Bitfield n) (i j : ℕ) (val : Bool) :
    bit (b.set i val).bytes j = if i = j ∧ i < n then val else bit b.bytes j := by
  by_cases hi : i < n
  · have hlt := b.byte_lt hi
    rw [bytes_set hi, bit, bit, List.getElem?_set]
    by_cases hb : i / 8 = j / 8
    · rw [if_pos hb, if_pos hlt, Option.getD_some, ← and_mask_ne_zero, write_and_mask, hb,
        and_mask_ne_zero]
      by_cases he : i = j
      · rw [if_pos (congrArg (· % 8) he), if_pos ⟨he, hi⟩]
      · rw [if_neg (by omega), if_neg fun hc => he hc.1]
    · rw [if_neg hb, if_neg fun hc => hb (congrArg (· / 8) hc.1)]
  · rw [set, dif_neg hi, if_neg fun hc => hi hc.2]

/-- The mask of the last byte keeps the bits of the field. -/
theorem getLsbD_paddingMask {r k : ℕ} (hr : r < 8) (hk : k < 8) (hpos : r ≠ 0) :
    ((0xFF : UInt8) <<< UInt8.ofNat (8 - r)).toBitVec.getLsbD (7 - k) = decide (k < r) := by
  have h : ∀ r k : Fin 8, r.val ≠ 0 →
      ((0xFF : UInt8) <<< UInt8.ofNat (8 - r)).toBitVec.getLsbD (7 - k) =
        decide (k.val < r.val) := by
    decide
  exact h ⟨r, hr⟩ ⟨k, hk⟩ hpos

/-- The bits that the constructor copies before it clears the padding. -/
theorem bit_copied (bytes : List UInt8) {expected i : ℕ} (hi : i < 8 * expected) :
    bit (bytes.take expected ++ List.replicate (expected - bytes.length) 0) i = bit bytes i := by
  rw [bit, bit, List.getElem?_append, List.length_take]
  split
  case isTrue h => rw [List.getElem?_take, if_pos (by omega)]
  case isFalse h =>
    -- past the bytes that were given there are zeros
    rw [List.getElem?_eq_none (l := bytes) (by omega), List.getElem?_replicate]
    split <;> rfl

/-- **The bits read off the wire**: those of the bytes, up to the end of the field. -/
theorem bit_ofBytes (bytes : List UInt8) (n i : ℕ) :
    bit (ofBytes bytes n).bytes i = (decide (i < n) && bit bytes i) := by
  have hlen := (ofBytes bytes n).size_eq
  by_cases hin : i < 8 * ((n + 7) / 8)
  case neg =>
    rw [bit_of_length_le (by omega), decide_eq_false (by omega), Bool.false_and]
  case pos =>
    rw [← bit_copied bytes hin, ofBytes]
    dsimp only
    generalize hc : bytes.take ((n + 7) / 8) ++ List.replicate ((n + 7) / 8 - bytes.length) 0 =
      copied
    have hclen : copied.length = (n + 7) / 8 := by
      rw [← hc, List.length_append, List.length_take, List.length_replicate]
      omega
    by_cases hmod : n % 8 = 0
    · rw [if_neg fun h => h.1 hmod, decide_eq_true (by omega), Bool.true_and]
    · have hne : copied ≠ [] := List.ne_nil_of_length_pos (by omega)
      have hget : copied[i / 8]? = some copied[i / 8] := List.getElem?_eq_getElem (by omega)
      rw [if_pos ⟨hmod, hne⟩, bit, List.getElem?_modify, bit, hget]
      simp only [Option.map_eq_map, Option.map_some, Option.getD_some]
      by_cases hlast : (n + 7) / 8 - 1 = i / 8
      · rw [if_pos hlast, UInt8.toBitVec_and, BitVec.getLsbD_and,
          getLsbD_paddingMask (Nat.mod_lt n (by omega)) (Nat.mod_lt i (by omega)) hmod,
          Bool.and_comm]
        congr 2
        exact propext (by omega)
      · rw [if_neg hlast, decide_eq_true (by omega), Bool.true_and]

/-- The bits of an intersection. -/
theorem bit_inter (hi : i < 8 * ((min n m + 7) / 8)) :
    bit (b.inter c).bytes i = (bit b.bytes i && bit c.bytes i) := by
  refine bit_and (fun j hj => ?_) hi
  obtain ⟨hb, hc⟩ := b.inter_byte_lt c hj
  simp [inter, hj, List.getElem?_eq_getElem hb, List.getElem?_eq_getElem hc]

/-! ### The padding -/

theorem clean_empty (n : ℕ) : (empty n).Clean := fun i _ => bit_empty n i

theorem clean_ofBytes (bytes : List UInt8) (n : ℕ) : (ofBytes bytes n).Clean := by
  intro i hi
  rw [bit_ofBytes, decide_eq_false (by omega), Bool.false_and]

theorem Clean.set (h : b.Clean) (i : ℕ) (val : Bool) : (b.set i val).Clean := by
  intro j hj
  rw [bit_set, if_neg (by omega), h j hj]

theorem Clean.inter (hb : b.Clean) (hc : c.Clean) : (b.inter c).Clean := by
  intro i hi
  by_cases hin : i < 8 * ((min n m + 7) / 8)
  · -- past the end of the shorter one, its padding is zero
    rw [bit_inter hin]
    rcases le_total n m with hnm | hnm
    · rw [hb i (by omega), Bool.false_and]
    · rw [hc i (by omega), Bool.and_false]
  · exact bit_of_length_le (by rw [(b.inter c).size_eq]; omega)

/-- Two clean bitfields with the same indices are equal. -/
theorem Clean.ext (hb : b.Clean) (hb' : b'.Clean) (h : ∀ i, b.has i = b'.has i) : b = b' := by
  have hbytes : b.bytes = b'.bytes :=
    eq_of_bit_eq (by rw [b.size_eq, b'.size_eq]) fun i _ => by rw [hb.bit_eq, hb'.bit_eq, h i]
  cases b
  cases b'
  cases hbytes
  rfl

/-! ### Counting -/

/-- The inner loop of `count` adds the ones of a number of `fuel` bits. -/
theorem countBits_eq {fuel a : ℕ} (h : a < 2 ^ fuel) (total : ℕ) :
    countBits fuel a total = total + ∑ k ∈ Finset.range fuel, (a.testBit k).toNat := by
  induction fuel generalizing a total with
  | zero => rfl
  | succ fuel ih =>
    rw [countBits]
    split
    case isTrue hz =>
      rw [hz]
      simp
    case isFalse =>
      rw [ih (by omega), sum_testBit_succ, Nat.add_assoc]

/-- The outer loop of `count` adds the ones of a byte string. -/
theorem foldl_countBits (bytes : List UInt8) (total : ℕ) :
    bytes.foldl (fun total byte => countBits 8 byte.toNat total) total = total + weight bytes := by
  induction bytes generalizing total with
  | nil => rfl
  | cons byte bytes ih =>
    rw [List.foldl_cons, ih, countBits_eq byte.toNat_lt, weight_cons, Nat.add_assoc]

/-- **The number of set bits** of a clean bitfield is the number of its indices. -/
theorem Clean.count_eq (h : b.Clean) : b.count = b.members.card := by
  rw [count, foldl_countBits, Nat.zero_add, weight_eq_card b.le_eight_mul_length h, members]
  simp only [h.bit_eq]

/-! ### Bitfields that the program builds -/

/-- Up to this many bits, `num_bits + 7` does not wrap in `size_t`. -/
def maxBits : ℕ := 2 ^ 64 - 8

/-- The number of bytes that the constructors compute, in `size_t`. -/
def byteCount (n : ℕ) : ℕ := (n + 7) % 2 ^ 64 / 8

/-- **A bitfield and the set it stands for**, built by the same operations. -/
inductive Denotes : {n : ℕ} → Bitfield n → Finset ℕ → Prop
  /-- The empty bitfield. -/
  | empty {n : ℕ} : n ≤ maxBits → Denotes (Bitfield.empty n) ∅
  /-- A bitfield read off the wire: the positions of the ones among the first `n` bits. -/
  | ofBytes {n : ℕ} (bytes : List UInt8) : n ≤ maxBits →
      Denotes (Bitfield.ofBytes bytes n) ((Finset.range n).filter fun i => bit bytes i = true)
  /-- A write in range enters an index or removes it. -/
  | set {n : ℕ} {b : Bitfield n} {S : Finset ℕ} (i : ℕ) (val : Bool) : Denotes b S →
      Denotes (b.set i val) (if i < n then if val then insert i S else S.erase i else S)
  /-- An intersection. -/
  | inter {n m : ℕ} {b : Bitfield n} {c : Bitfield m} {S S' : Finset ℕ} : Denotes b S →
      Denotes c S' → Denotes (b.inter c) (S ∩ S')

variable {S S' : Finset ℕ}

theorem Denotes.le_maxBits (h : Denotes b S) : n ≤ maxBits := by
  induction h with
  | empty hn => exact hn
  | ofBytes _ hn => exact hn
  | set _ _ _ ih => exact ih
  | inter _ _ ih _ => exact (min_le_left _ _).trans ih

theorem Denotes.clean (h : Denotes b S) : b.Clean := by
  induction h with
  | empty => exact clean_empty _
  | ofBytes bytes => exact clean_ofBytes bytes _
  | set i val _ ih => exact ih.set i val
  | inter _ _ ih ih' => exact ih.inter ih'

/-- **A bitfield has the indices of the set it stands for.** -/
theorem Denotes.has_iff (h : Denotes b S) (i : ℕ) : b.has i = true ↔ i ∈ S := by
  induction h with
  | empty => simp
  | ofBytes bytes => simp [has_eq_bit, bit_ofBytes]
  | @set n b S j val _ ih =>
    rw [has_set]
    by_cases hj : j < n
    · by_cases hij : j = i
      · subst hij
        rw [if_pos ⟨rfl, hj⟩, if_pos hj]
        cases val <;> simp
      · rw [if_neg fun hc => hij hc.1, if_pos hj, ih]
        cases val <;> simp [Ne.symm hij]
    · rw [if_neg fun hc => hj hc.2, if_neg hj, ih]
  | @inter n m b c S S' _ _ ih ih' =>
    rw [Finset.mem_inter, ← ih, ← ih', ← Bool.and_eq_true]
    by_cases hi : i < min n m
    · rw [has_eq_bit, has_eq_bit, has_eq_bit, bit_inter (by omega), decide_eq_true hi,
        decide_eq_true (lt_min_iff.mp hi).1, decide_eq_true (lt_min_iff.mp hi).2]
      simp only [Bool.true_and]
    · -- past the end of the shorter one neither side has anything
      have hnm : ¬i < n ∨ ¬i < m := by omega
      rw [has_eq_bit, has_eq_bit, has_eq_bit, decide_eq_false hi, Bool.false_and]
      rcases hnm with hn | hm
      · rw [decide_eq_false hn]
        simp
      · rw [decide_eq_false hm]
        simp

theorem Denotes.members_eq (h : Denotes b S) : b.members = S := by
  ext i
  rw [members, Finset.mem_filter, Finset.mem_range, h.has_iff]
  exact and_iff_right_of_imp fun hi => lt_of_has ((h.has_iff i).mpr hi)

/-- **A bitfield is a set of indices below its length**: it has just the bytes it needs, with no
padding bit set, it has the indices of the set that the same operations build, and counts them,
it is determined by them, and it is what its own bytes are read as. The bytes that `has`, `set`
and `operator&` look at exist. -/
theorem refines_set (h : Denotes b S) :
    (b.bytes.length = byteCount n ∧ b.bytes.length = n ⌈/⌉ 8 ∧ b.Clean) ∧
      (∀ i, b.has i = true ↔ i ∈ S) ∧
      b.count = ((Finset.range n).filter fun i => b.has i = true).card ∧
      (∀ (b' : Bitfield n) (S' : Finset ℕ), Denotes b' S' → (b = b' ↔ S = S')) ∧
      ofBytes b.bytes n = b ∧
      (∀ i < n, i / 8 < b.bytes.length) ∧
      ∀ (m : ℕ) (c : Bitfield m), ∀ i < (b.inter c).bytes.length,
        i < b.bytes.length ∧ i < c.bytes.length := by
  have hmax := h.le_maxBits
  rw [maxBits] at hmax
  refine ⟨⟨?_, ?_, h.clean⟩, h.has_iff, h.clean.count_eq, ?_, ?_, fun i hi => b.byte_lt hi, ?_⟩
  · rw [b.size_eq, byteCount, Nat.mod_eq_of_lt (by omega)]
  · rw [b.size_eq, Nat.ceilDiv_eq_add_pred_div]
    rfl
  · intro b' S' h'
    constructor
    · rintro rfl
      rw [← h.members_eq, h'.members_eq]
    · rintro rfl
      exact h.clean.ext h'.clean fun i =>
        Bool.eq_iff_iff.mpr ((h.has_iff i).trans (h'.has_iff i).symm)
  · refine (clean_ofBytes _ _).ext h.clean fun i => ?_
    rw [has_eq_bit, bit_ofBytes, has_eq_bit, ← Bool.and_assoc, Bool.and_self]
  · intro m c i hi
    exact b.inter_byte_lt c (by rwa [(b.inter c).size_eq] at hi)

/-- Ten bits with dirty padding, one more written, intersected with six bits of which one is
removed. -/
theorem refines_set_tenBits :
    (((ofBytes [0xAA, 0xFF] 10).set 1 true).inter ((ofBytes [0xF0] 6).set 0 false)).count = 2 := by
  have h := refines_set (.inter (.set 1 true (.ofBytes (n := 10) [0xAA, 0xFF] (by decide)))
    (.set 0 false (.ofBytes (n := 6) [0xF0] (by decide))))
  rw [h.2.2.1]
  decide

end Bitfield

end TransferEngine
