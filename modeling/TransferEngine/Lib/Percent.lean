import Mathlib.Data.List.Basic

/-!
# Percent-encoding

The encoding of byte strings in URLs: a byte is spelled by itself, or by a percent sign and two
hexadecimal digits (`Percent.Spells`). The decoder (`Percent.decode`) reads the two apart by the
percent sign alone, so whichever bytes an encoder escapes, as long as the percent sign is among
them, the encoded string determines the bytes (`Percent.decode_flatMap`,
`Percent.flatMap_injective`).

Of the characters of a URL, the *unreserved* ones stand for themselves everywhere, and the
*reserved* ones may end a component.
-/

namespace Percent

/-- The percent sign. -/
def percent : UInt8 := 0x25

/-- The value of a hexadecimal digit, in either case. -/
def hexValue (b : UInt8) : Option ℕ :=
  if 0x30 ≤ b ∧ b ≤ 0x39 then some (b.toNat - 0x30)
  else if 0x41 ≤ b ∧ b ≤ 0x46 then some (b.toNat - 0x41 + 10)
  else if 0x61 ≤ b ∧ b ≤ 0x66 then some (b.toNat - 0x61 + 10)
  else none

/-- Letters, digits, `-`, `.`, `_` and `~`. -/
def Unreserved (b : UInt8) : Prop :=
  (0x41 ≤ b ∧ b ≤ 0x5a) ∨ (0x61 ≤ b ∧ b ≤ 0x7a) ∨ (0x30 ≤ b ∧ b ≤ 0x39) ∨
    b ∈ [0x2d, 0x2e, 0x5f, 0x7e]

instance : DecidablePred Unreserved := fun _ => inferInstanceAs (Decidable (_ ∨ _))

/-- The delimiters of components and of their parts: `:/?#[]@` and `!$&'()*+,;=`. -/
def reserved : List UInt8 :=
  [0x3a, 0x2f, 0x3f, 0x23, 0x5b, 0x5d, 0x40,
    0x21, 0x24, 0x26, 0x27, 0x28, 0x29, 0x2a, 0x2b, 0x2c, 0x3b, 0x3d]

/-- **Percent-decoding.** A percent sign without two digits behind it has no meaning. -/
def decode : List UInt8 → Option (List UInt8)
  | [] => some []
  | b :: rest =>
    if b = percent then
      match rest with
      | hi :: lo :: rest => do
        let hi ← hexValue hi
        let lo ← hexValue lo
        let tail ← decode rest
        return UInt8.ofNat (16 * hi + lo) :: tail
      | _ => none
    else (decode rest).map (b :: ·)

/-- The ways to spell a byte. -/
inductive Spells : List UInt8 → UInt8 → Prop
  /-- A byte other than the percent sign spells itself. -/
  | literal {b : UInt8} : b ≠ percent → Spells [b] b
  /-- A percent sign and two digits spell the byte with that number. -/
  | escape {b hi lo : UInt8} {h l : ℕ} : hexValue hi = some h → hexValue lo = some l →
      b.toNat = 16 * h + l → Spells [percent, hi, lo] b

variable {b : UInt8} {w x y : List UInt8} {f : UInt8 → List UInt8}

/-- An unreserved character is neither a control character nor a space. -/
theorem Unreserved.visible (h : Unreserved b) : 0x20 < b ∧ b < 0x7f := by
  simp only [Unreserved, UInt8.le_iff_toNat_le, UInt8.lt_iff_toNat_lt, List.mem_cons,
    List.not_mem_nil, or_false, ← UInt8.toNat_inj, UInt8.reduceToNat] at h ⊢
  omega

/-- **One spelled byte is read back**, whatever is behind it. -/
theorem decode_append (h : Spells w b) (rest : List UInt8) :
    decode (w ++ rest) = (decode rest).map (b :: ·) := by
  cases h with
  | literal hne =>
    rw [List.singleton_append]
    conv_lhs => unfold decode
    rw [if_neg hne]
  | escape hhi hlo hb =>
    rw [List.cons_append, List.cons_append, List.singleton_append, decode, if_pos rfl, hhi, hlo]
    have hbyte := congrArg UInt8.ofNat hb
    rw [UInt8.ofNat_toNat] at hbyte
    rw [hbyte]
    cases decode rest with
    | none => rfl
    | some tail => rfl

/-- **A string spelled byte by byte is read back.** -/
theorem decode_flatMap (h : ∀ b, Spells (f b) b) (x : List UInt8) :
    decode (x.flatMap f) = some x := by
  induction x with
  | nil => rfl
  | cons b x ih => rw [List.flatMap_cons, decode_append (h b), ih, Option.map_some]

theorem flatMap_injective (h : ∀ b, Spells (f b) b) :
    Function.Injective (List.flatMap f) := by
  intro x y hxy
  have hdec := congrArg decode hxy
  rwa [decode_flatMap h, decode_flatMap h, Option.some_inj] at hdec

end Percent
