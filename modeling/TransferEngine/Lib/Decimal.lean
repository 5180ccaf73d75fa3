import Mathlib.Data.Nat.Digits.Lemmas

/-!
# Decimal numbers in bytes

The decimal spelling of a natural number as a byte string, the most significant digit
first: what `std::to_string` writes. The digits are those of `Nat.digits`.

A spelling is *canonical* when it has no leading zero, except for the zero itself. The
canonical spellings are exactly what is written (`Decimal.canonical_ofNat`,
`Decimal.ofNat_value`).
-/

namespace Decimal

/-- The byte of a digit. -/
def digitByte (d : ℕ) : UInt8 := UInt8.ofNat (48 + d)

/-- The decimal spelling of a number. -/
def ofNat (n : ℕ) : List UInt8 :=
  if n = 0 then [48] else (Nat.digits 10 n).reverse.map digitByte

example : ofNat 6881 = [54, 56, 56, 49] := by decide

/-- The bytes that are digits. -/
def isDigit (b : UInt8) : Bool := decide (48 ≤ b ∧ b ≤ 57)

/-- The digit that a byte is. -/
def digit (b : UInt8) : ℕ := b.toNat - 48

/-- The number that digits spell, after others that spelled `acc`. -/
def value (acc : ℕ) (ds : List UInt8) : ℕ := ds.foldl (fun a b => a * 10 + digit b) acc

/-- A spelling without leading zeros. -/
structure Canonical (ds : List UInt8) : Prop where
  /-- There is a digit. -/
  ne_nil : ds ≠ []
  /-- There is nothing but digits. -/
  isDigit : ∀ b ∈ ds, Decimal.isDigit b = true
  /-- Only the zero starts with a zero. -/
  leading : ds.head? = some 48 → ds = [48]

variable {n : ℕ} {b : UInt8} {ds : List UInt8}

theorem isDigit_iff : isDigit b = true ↔ 48 ≤ b.toNat ∧ b.toNat ≤ 57 := by
  rw [isDigit, decide_eq_true_iff]
  exact and_congr UInt8.le_iff_toNat_le UInt8.le_iff_toNat_le

theorem toNat_digitByte (h : n < 10) : (digitByte n).toNat = 48 + n :=
  UInt8.toNat_ofNat_of_lt (show 48 + n < 256 by omega)

theorem isDigit_digitByte (h : n < 10) : isDigit (digitByte n) = true := by
  rw [isDigit_iff, toNat_digitByte h]
  omega

theorem digit_digitByte (h : n < 10) : digit (digitByte n) = n := by
  rw [digit, toNat_digitByte h]
  omega

theorem digitByte_digit (h : isDigit b = true) : digitByte (digit b) = b := by
  obtain ⟨hlo, hhi⟩ := isDigit_iff.mp h
  refine UInt8.toNat_inj.mp ?_
  rw [toNat_digitByte (by rw [digit]; omega), digit]
  omega

theorem value_eq_ofDigits (ds : List UInt8) :
    value 0 ds = Nat.ofDigits 10 (ds.map digit).reverse := by
  rw [value, Nat.ofDigits_eq_foldr, List.foldr_reverse, List.foldl_map]
  congr 1
  funext a b
  rw [Nat.cast_id, Nat.add_comm, Nat.mul_comm]

theorem le_value (acc : ℕ) (ds : List UInt8) : acc ≤ value acc ds := by
  induction ds generalizing acc with
  | nil => exact le_rfl
  | cons b ds ih => exact le_trans (by omega) (ih (acc * 10 + digit b))

/-- The digits that bytes are, where all of them are bytes of digits. -/
theorem map_digit_digitByte {l : List ℕ} (h : ∀ d ∈ l, d < 10) :
    (l.map digitByte).map digit = l := by
  rw [List.map_map]
  conv_rhs => rw [← List.map_id l]
  exact List.map_congr_left fun d hd => digit_digitByte (h d hd)

theorem map_digitByte_digit (h : ∀ b ∈ ds, isDigit b = true) :
    (ds.map digit).map digitByte = ds := by
  rw [List.map_map]
  conv_rhs => rw [← List.map_id ds]
  exact List.map_congr_left fun b hb => digitByte_digit (h b hb)

theorem digit_lt (h : isDigit b = true) : digit b < 10 := by
  obtain ⟨hlo, hhi⟩ := isDigit_iff.mp h
  rw [digit]
  omega

theorem lt_of_mem_digits {d : ℕ} (h : d ∈ (Nat.digits 10 n).reverse) : d < 10 :=
  Nat.digits_lt_base (by omega) (List.mem_reverse.mp h)

/-- **What is written reads as the number.** -/
theorem value_ofNat (n : ℕ) : value 0 (ofNat n) = n := by
  rw [ofNat]
  split
  case isTrue h =>
    rw [h]
    rfl
  case isFalse h =>
    rw [value_eq_ofDigits, map_digit_digitByte fun _ hd => lt_of_mem_digits hd,
      List.reverse_reverse, Nat.ofDigits_digits]

/-- **What is written is canonical.** -/
theorem canonical_ofNat (n : ℕ) : Canonical (ofNat n) := by
  rw [ofNat]
  split
  case isTrue =>
    exact ⟨List.cons_ne_nil _ _, fun b hb => isDigit_iff.mpr (by simp_all), fun _ => rfl⟩
  case isFalse h =>
    have hne : Nat.digits 10 n ≠ [] := Nat.digits_ne_nil_iff_ne_zero.mpr h
    refine ⟨by simpa using hne, fun b hb => ?_, fun hz => ?_⟩
    · obtain ⟨d, hd, rfl⟩ := List.mem_map.mp hb
      exact isDigit_digitByte (lt_of_mem_digits hd)
    · -- the first byte is that of the leading digit, which is not zero
      rw [List.head?_map, List.head?_reverse, List.getLast?_eq_some_getLast hne, Option.map_some,
        Option.some.injEq] at hz
      have hlt : (Nat.digits 10 n).getLast hne < 10 :=
        lt_of_mem_digits (List.mem_reverse.mpr (List.getLast_mem hne))
      have hzero := congrArg UInt8.toNat hz
      rw [toNat_digitByte hlt] at hzero
      have hnz := Nat.getLast_digit_ne_zero 10 h
      exact absurd (by simpa using hzero) hnz

/-- **A canonical spelling is what is written** for the number it spells. -/
theorem ofNat_value (h : Canonical ds) : ofNat (value 0 ds) = ds := by
  by_cases hz : ds.head? = some 48
  · rw [h.leading hz]
    rfl
  · have hlt : ∀ d ∈ (ds.map digit).reverse, d < 10 := by
      intro d hd
      obtain ⟨b, hb, rfl⟩ := List.mem_map.mp (List.mem_reverse.mp hd)
      exact digit_lt (h.isDigit b hb)
    have hlast : ∀ hne : (ds.map digit).reverse ≠ [], (ds.map digit).reverse.getLast hne ≠ 0 := by
      intro hne hzero
      obtain ⟨b, tail, hds⟩ := List.exists_cons_of_ne_nil h.ne_nil
      subst hds
      have hb := isDigit_iff.mp (h.isDigit b List.mem_cons_self)
      simp only [List.map_cons, List.reverse_cons, List.getLast_append_singleton] at hzero
      rw [digit] at hzero
      exact hz (congrArg some (UInt8.toNat_inj.mp (show b.toNat = 48 by omega)))
    have hdigits : Nat.digits 10 (value 0 ds) = (ds.map digit).reverse := by
      rw [value_eq_ofDigits, Nat.digits_ofDigits 10 (by omega) _ hlt hlast]
    have hne : value 0 ds ≠ 0 := by
      intro hzero
      rw [hzero, Nat.digits_zero] at hdigits
      exact h.ne_nil (by simpa using hdigits.symm)
    rw [ofNat, if_neg hne, hdigits, List.reverse_reverse, map_digitByte_digit h.isDigit]

end Decimal
