import TransferEngine.Bencode.Model
import TransferEngine.Lib.Bytes

/-!
# Parsing and encoding are inverse to each other

`BencodeParser::parse` accepts exactly what `BencodeParser::encode` writes, for the values that
the types of the source have and in which `-2 ^ 63` does not occur
(`TransferEngine.BencodeParser.parse_iff_encode`): the overflow check of the parser goes by the
magnitude of an integer, and the magnitude of that one is too large.

The parsers of the parts are each described by one equivalence, saying what is read and that
the rest is left: `TransferEngine.BencodeParser.parseInt_eq_ok` and
`TransferEngine.BencodeParser.parseString_eq_ok`. Values are then a matter of induction on the
depth of the parser, in both directions.
-/

namespace TransferEngine

open Decimal Bytes

/-- **A value of the types of the source**, with integers from `lo` on: integers fit `int64_t`,
lengths fit `size_t`, and the keys of a dictionary ascend. -/
inductive BencodeValue.Bounded (lo : ℤ) : BencodeValue → Prop
  | int (n : ℤ) : lo ≤ n → n < 2 ^ 63 → Bounded lo (.int n)
  | string (s : BencodeString) : s.length < 2 ^ 64 → Bounded lo (.string s)
  | list (l : List BencodeValue) : (∀ v ∈ l, Bounded lo v) → Bounded lo (.list l)
  | dict (d : List (BencodeString × BencodeValue)) : (d.map Prod.fst).Pairwise (· < ·) →
      (∀ e ∈ d, e.1.length < 2 ^ 64) → (∀ e ∈ d, Bounded lo e.2) → Bounded lo (.dict d)

/-- **A value of the types of the source.** -/
abbrev BencodeValue.WellFormed (v : BencodeValue) : Prop := v.Bounded (-2 ^ 63)

/-- The value is an integer, or has it in it. -/
inductive BencodeValue.Contains (n : ℤ) : BencodeValue → Prop
  | here : Contains n (.int n)
  | item (l : List BencodeValue) (v : BencodeValue) : v ∈ l → Contains n v → Contains n (.list l)
  | entry (d : List (BencodeString × BencodeValue)) (e : BencodeString × BencodeValue) : e ∈ d →
      Contains n e.2 → Contains n (.dict d)

namespace BencodeParser

variable {remaining rest : List UInt8} {c : UInt8} {e e' overflow : BencodeError} {max n acc : ℕ}

/-! ### Numbers -/

theorem expect_eq_ok : expect c e remaining = .ok ((), rest) ↔ remaining = c :: rest := by
  cases remaining with
  | nil => simp [expect]
  | cons b remaining =>
    rw [expect, List.cons.injEq]
    split
    case isTrue h => simp [h]
    case isFalse h => simp [h]

/-- The digits before something else start with a digit that comes first. -/
theorem exists_cons_of_digit {b : UInt8} {ds : List UInt8} (hb : isDigit b = true)
    (hds : b :: remaining = ds ++ rest) (hstop : ∀ b', rest.head? = some b' → isDigit b' = false) :
    ∃ ds', ds = b :: ds' ∧ remaining = ds' ++ rest := by
  cases ds with
  | nil =>
    rw [List.nil_append] at hds
    rw [hstop b (by rw [← hds]; rfl)] at hb
    cases hb
  | cons b' ds =>
    obtain ⟨rfl, rfl⟩ := List.cons.inj hds
    exact ⟨ds, rfl, rfl⟩

/-- **What the loop over digits reads**: all digits that come next, and a number of at most
`max`. -/
theorem readDigits_eq_ok (hmax : 9 ≤ max) (hacc : acc ≤ max) :
    readDigits max overflow acc remaining = .ok (n, rest) ↔
      ∃ ds, remaining = ds ++ rest ∧ (∀ b ∈ ds, isDigit b = true) ∧
        (∀ b, rest.head? = some b → isDigit b = false) ∧ n = value acc ds ∧ n ≤ max := by
  induction remaining generalizing acc with
  | nil =>
    rw [readDigits]
    constructor
    · intro h
      cases h
      exact ⟨[], rfl, by simp, by simp, rfl, hacc⟩
    · rintro ⟨ds, hds, -, -, rfl, -⟩
      obtain ⟨rfl, rfl⟩ := List.nil_eq_append_iff.mp hds
      rfl
  | cons b remaining ih =>
    rw [readDigits]
    cases hb : isDigit b with
    | false =>
      simp only [Bool.false_eq_true, if_false]
      constructor
      · intro h
        cases h
        exact ⟨[], rfl, by simp, by simpa using hb, rfl, hacc⟩
      · rintro ⟨ds, hds, hdig, -, rfl, -⟩
        cases ds with
        | nil =>
          rw [List.nil_append] at hds
          rw [hds]
          rfl
        | cons b' ds =>
          rw [List.cons_append, List.cons.injEq] at hds
          rw [hds.1, hdig b' List.mem_cons_self] at hb
          cases hb
    | true =>
      have hlt := digit_lt hb
      simp only [if_true]
      split
      case isTrue hover =>
        refine iff_of_false (fun h => nomatch h) ?_
        rintro ⟨ds, hds, -, hstop, rfl, hle⟩
        obtain ⟨ds, rfl, -⟩ := exists_cons_of_digit hb hds hstop
        -- the number only grows from here
        have hge := le_value (acc * 10 + digit b) ds
        rw [value, List.foldl_cons, ← value] at hle
        omega
      case isFalse hover =>
        rw [ih (by omega)]
        constructor
        · rintro ⟨ds, rfl, hdig, hstop, hn, hle⟩
          exact ⟨b :: ds, rfl, List.forall_mem_cons.mpr ⟨hb, hdig⟩, hstop, hn, hle⟩
        · rintro ⟨ds, hds, hdig, hstop, hn, hle⟩
          obtain ⟨ds, rfl, rfl⟩ := exists_cons_of_digit hb hds hstop
          exact ⟨ds, rfl, (List.forall_mem_cons.mp hdig).2, hstop, hn, hle⟩

/-- **A number that is checked, read and closed by `stop`** is the canonical spelling of one
of at most `max`. -/
theorem number_iff (hmax : 9 ≤ max) (hstop : isDigit c = false) :
    (checkDigits c e e' remaining = .ok () ∧
        readDigits max overflow 0 remaining = .ok (n, c :: rest)) ↔
      remaining = Decimal.ofNat n ++ c :: rest ∧ n ≤ max := by
  rw [readDigits_eq_ok hmax (Nat.zero_le _)]
  constructor
  · rintro ⟨hcheck, ds, rfl, hdig, -, rfl, hle⟩
    refine ⟨?_, hle⟩
    have hcan : Canonical ds := by
      refine ⟨?_, hdig, ?_⟩
      · rintro rfl
        rw [List.nil_append, checkDigits, if_pos hstop] at hcheck
        cases hcheck
      · intro hz
        obtain ⟨b, tail, rfl⟩ : ∃ b tail, ds = b :: tail := by
          cases ds with
          | nil => cases hz
          | cons b tail => exact ⟨b, tail, rfl⟩
        cases hz
        rw [List.cons_append, checkDigits, if_neg (by decide)] at hcheck
        split at hcheck
        case isTrue => cases hcheck
        case isFalse hnot =>
          -- the zero is followed by `stop`, which is no digit
          have hhead : (tail ++ c :: rest).head? = some c := by simpa using hnot
          cases tail with
          | nil => rfl
          | cons b' tail =>
            cases hhead
            rw [hdig c (List.mem_cons_of_mem _ List.mem_cons_self)] at hstop
            cases hstop
    rw [ofNat_value hcan]
  · rintro ⟨rfl, hle⟩
    have hcan := canonical_ofNat n
    refine ⟨?_, _, rfl, hcan.isDigit, ?_, (value_ofNat n).symm, hle⟩
    · obtain ⟨b, tail, hb⟩ := List.exists_cons_of_ne_nil hcan.ne_nil
      have hdig := hcan.isDigit b (by rw [hb]; exact List.mem_cons_self)
      rw [hb, List.cons_append, checkDigits, if_neg (by rw [hdig]; decide), if_neg]
      rintro ⟨rfl, hne⟩
      have hone := hcan.leading (by rw [hb]; rfl)
      rw [hb, List.cons.injEq] at hone
      rw [hone.2] at hne
      exact hne rfl
    · intro b hb
      cases hb
      exact hstop

/-- **`parse_string` reads the encoding of a string**, and nothing else. -/
theorem parseString_eq_ok {str : BencodeString} : parseString remaining = .ok (str, rest) ↔
    remaining = encodeString str ++ rest ∧ str.length ≤ sizeMax := by
  rw [encodeString, List.append_assoc, List.cons_append]
  constructor
  · intro h
    rw [parseString] at h
    obtain ⟨_, hcheck, h₁⟩ := bind_eq_ok h
    obtain ⟨⟨length, after⟩, hread, h₂⟩ := bind_eq_ok h₁
    obtain ⟨⟨_, tail⟩, hcolon, h₃⟩ := bind_eq_ok h₂
    dsimp only at h₃
    obtain rfl := expect_eq_ok.mp hcolon
    obtain ⟨rfl, hle⟩ := (number_iff (by decide) (by decide)).mp ⟨hcheck, hread⟩
    split at h₃
    case isTrue => cases h₃
    case isFalse hlen =>
      cases h₃
      have hstr : (tail.take length).length = length := by
        rw [List.length_take]
        omega
      rw [hstr, List.take_append_drop]
      exact ⟨rfl, hle⟩
  · rintro ⟨rfl, hle⟩
    have hnum : checkDigits 0x3a .expectedLength .leadingZerosInLength
          (Decimal.ofNat str.length ++ 0x3a :: (str ++ rest)) = .ok () ∧
        readDigits sizeMax .lengthOverflow 0
          (Decimal.ofNat str.length ++ 0x3a :: (str ++ rest)) =
            .ok (str.length, 0x3a :: (str ++ rest)) :=
      (number_iff (by decide) (by decide)).mpr ⟨rfl, hle⟩
    obtain ⟨hcheck, hread⟩ := hnum
    rw [parseString, hcheck, ok_bind, hread, ok_bind]
    dsimp only
    rw [expect_eq_ok.mpr rfl, ok_bind]
    dsimp only
    rw [if_neg (by rw [List.length_append]; omega), List.take_left, List.drop_left]
    rfl

/-- After the sign comes a magnitude, which is not zero where there is a minus. -/
theorem parseMagnitude_eq_ok {negative : Bool} {k : ℤ} :
    parseMagnitude negative remaining = .ok (k, rest) ↔
      ∃ n : ℕ, remaining = Decimal.ofNat n ++ 0x65 :: rest ∧ n ≤ int64Max ∧
        (negative = true → n ≠ 0) ∧ k = if negative then -(n : ℤ) else n := by
  constructor
  · intro h
    rw [parseMagnitude] at h
    obtain ⟨_, hcheck, h₁⟩ := bind_eq_ok h
    split at h₁
    case isTrue => cases h₁
    case isFalse hzero =>
      obtain ⟨⟨n, after⟩, hread, h₂⟩ := bind_eq_ok h₁
      obtain ⟨⟨_, tail⟩, hend, h₃⟩ := bind_eq_ok h₂
      obtain rfl := expect_eq_ok.mp hend
      cases h₃
      obtain ⟨rfl, hle⟩ := (number_iff (by decide) (by decide)).mp ⟨hcheck, hread⟩
      refine ⟨n, rfl, hle, ?_, rfl⟩
      rintro hneg rfl
      exact hzero ⟨hneg, rfl⟩
  · rintro ⟨n, rfl, hle, hpos, rfl⟩
    have hnum : checkDigits 0x65 .expectedDigits .leadingZeros
          (Decimal.ofNat n ++ 0x65 :: rest) = .ok () ∧
        readDigits int64Max .integerOverflow 0 (Decimal.ofNat n ++ 0x65 :: rest) =
          .ok (n, 0x65 :: rest) :=
      (number_iff (by decide) (by decide)).mpr ⟨rfl, hle⟩
    obtain ⟨hcheck, hread⟩ := hnum
    have hzero : ¬(negative = true ∧ (Decimal.ofNat n ++ 0x65 :: rest).head? = some 48) := by
      rintro ⟨hneg, hhead⟩
      -- a spelling that starts with a zero is the zero
      have hcan := canonical_ofNat n
      have hone := hcan.leading (by rwa [List.head?_append_of_ne_nil _ hcan.ne_nil] at hhead)
      have hval := value_ofNat n
      rw [hone] at hval
      exact hpos hneg hval.symm
    rw [parseMagnitude, hcheck, ok_bind, if_neg hzero, hread, ok_bind]
    dsimp only
    rw [expect_eq_ok.mpr rfl, ok_bind]
    rfl

theorem head?_ofNat_ne (n : ℕ) (tail : List UInt8) :
    (Decimal.ofNat n ++ tail).head? ≠ some 0x2d := by
  have hcan := canonical_ofNat n
  rw [List.head?_append_of_ne_nil _ hcan.ne_nil]
  intro hc
  exact absurd (hcan.isDigit _ (List.mem_of_mem_head? hc)) (by decide)

/-- **`parse_int` reads the encoding of an integer**, and nothing else. -/
theorem parseInt_eq_ok {k : ℤ} : parseInt remaining = .ok (k, rest) ↔
    remaining = encodeInt k ++ rest ∧ k.natAbs ≤ int64Max := by
  rw [encodeInt, List.append_assoc, List.cons_append, List.singleton_append, toString]
  constructor
  · intro h
    rw [parseInt] at h
    obtain ⟨⟨_, tail⟩, hi, h₁⟩ := bind_eq_ok h
    dsimp only at h₁
    obtain rfl := expect_eq_ok.mp hi
    split at h₁
    case isTrue => cases h₁
    case isFalse =>
      split at h₁
      case isTrue hneg =>
        obtain ⟨n, htail, hle, hpos, rfl⟩ := parseMagnitude_eq_ok.mp h₁
        obtain ⟨digits, rfl⟩ := List.head?_eq_some_iff.mp hneg
        rw [List.tail_cons] at htail
        -- `-0` was refused, so the sign of the number is the one that was read
        have hn := hpos rfl
        rw [if_pos rfl, if_pos (by omega), Int.natAbs_neg, Int.natAbs_natCast, htail,
          List.cons_append]
        exact ⟨rfl, hle⟩
      case isFalse hneg =>
        obtain ⟨n, rfl, hle, -, rfl⟩ := parseMagnitude_eq_ok.mp h₁
        rw [if_neg Bool.false_ne_true, if_neg (by omega), Int.natAbs_natCast]
        exact ⟨rfl, hle⟩
  · rintro ⟨rfl, hle⟩
    rw [parseInt, expect_eq_ok.mpr rfl, ok_bind]
    dsimp only
    rw [if_neg (by simp)]
    by_cases hneg : k < 0
    · rw [if_pos hneg, List.cons_append, if_pos List.head?_cons, List.tail_cons]
      exact parseMagnitude_eq_ok.mpr
        ⟨k.natAbs, rfl, hle, fun _ => by omega, by rw [if_pos rfl]; omega⟩
    · rw [if_neg hneg, if_neg (head?_ofNat_ne _ _)]
      exact parseMagnitude_eq_ok.mpr
        ⟨k.natAbs, rfl, hle, nofun, by rw [if_neg Bool.false_ne_true]; omega⟩

/-! ### What is accepted -/

/-- The least integer that is accepted. -/
def leastInt : ℤ := 1 - 2 ^ 63

/-- A parser that accepts encodings only. -/
def Sound (parseValue : List UInt8 → Except BencodeError (BencodeValue × List UInt8)) : Prop :=
  ∀ {remaining v rest}, parseValue remaining = .ok (v, rest) →
    remaining = encodeValue v ++ rest ∧ v.Bounded leastInt

section Loops

variable {parseValue : List UInt8 → Except BencodeError (BencodeValue × List UInt8)}
  {rounds : ℕ} {l : List BencodeValue} {d : List (BencodeString × BencodeValue)}
  {lastKey : Option BencodeString} {key : BencodeString}

theorem Sound.parseItems (hpv : Sound parseValue)
    (h : parseItems parseValue rounds remaining = .ok (l, rest)) :
    remaining = encodeItems l ++ rest ∧ ∀ v ∈ l, v.Bounded leastInt := by
  induction rounds generalizing remaining l with
  | zero =>
    cases h
    exact ⟨by rw [encodeItems, List.nil_append], by simp⟩
  | succ rounds ih =>
    rw [BencodeParser.parseItems] at h
    split at h
    case isFalse =>
      cases h
      exact ⟨by rw [encodeItems, List.nil_append], by simp⟩
    case isTrue =>
      obtain ⟨⟨v, tail⟩, hv, h₁⟩ := bind_eq_ok h
      obtain ⟨⟨l', tail'⟩, hl, h₂⟩ := bind_eq_ok h₁
      cases h₂
      obtain ⟨rfl, hb⟩ := hpv hv
      obtain ⟨rfl, hbs⟩ := ih hl
      exact ⟨by rw [encodeItems, List.append_assoc], List.forall_mem_cons.mpr ⟨hb, hbs⟩⟩

theorem checkKey_eq_ok {ε : Type} {dup notSorted : ε} :
    checkKey dup notSorted lastKey key = .ok () ↔ ∀ k, lastKey = some k → k < key := by
  cases lastKey with
  | none => simp [checkKey]
  | some last =>
    rw [checkKey]
    simp only [Option.some.injEq, forall_eq']
    split
    case isTrue hle => exact iff_of_false (fun h => nomatch h) (List.not_lt.mpr hle)
    case isFalse hle => exact iff_of_true rfl (List.not_le.mp hle)

/-- **The entries of a dictionary** as they are read: each is the encoding of a key and of a
value, and the keys ascend. -/
theorem Sound.parseEntries (hpv : Sound parseValue)
    (h : parseEntries parseValue rounds lastKey remaining = .ok (d, rest)) :
    remaining = encodeEntries d ++ rest ∧ (d.map Prod.fst).Pairwise (· < ·) ∧
      (∀ k, lastKey = some k → ∀ e ∈ d, k < e.1) ∧ (∀ e ∈ d, e.1.length ≤ sizeMax) ∧
      ∀ e ∈ d, e.2.Bounded leastInt := by
  induction rounds generalizing remaining d lastKey with
  | zero =>
    cases h
    exact ⟨by rw [encodeEntries, List.nil_append], by simp⟩
  | succ rounds ih =>
    rw [BencodeParser.parseEntries] at h
    split at h
    case isFalse =>
      cases h
      exact ⟨by rw [encodeEntries, List.nil_append], by simp⟩
    case isTrue =>
      obtain ⟨⟨key, tail⟩, hkey, h₁⟩ := bind_eq_ok h
      obtain ⟨_, hcheck, h₂⟩ := bind_eq_ok h₁
      obtain ⟨⟨v, tail'⟩, hv, h₃⟩ := bind_eq_ok h₂
      obtain ⟨⟨d', tail''⟩, hd, h₄⟩ := bind_eq_ok h₃
      cases h₄
      obtain ⟨rfl, hlen⟩ := parseString_eq_ok.mp hkey
      obtain ⟨hspell, hb⟩ := hpv hv
      obtain ⟨hspell', hsorted, hlast, hlens, hbs⟩ := ih hd
      -- the key is past the last one, and every key that follows is past it
      have hfirst := checkKey_eq_ok.mp hcheck
      refine ⟨?_, ?_, fun k hk => ?_, ?_, ?_⟩
      · rw [hspell, hspell', encodeEntries, encodeEntry, List.append_assoc, List.append_assoc]
      · rw [List.map_cons, List.pairwise_cons]
        refine ⟨fun k hk => ?_, hsorted⟩
        obtain ⟨e, he, rfl⟩ := List.mem_map.mp hk
        exact hlast key rfl e he
      · exact List.forall_mem_cons.mpr
          ⟨hfirst k hk, fun e he => List.lt_trans (hfirst k hk) (hlast key rfl e he)⟩
      · exact List.forall_mem_cons.mpr ⟨hlen, hlens⟩
      · exact List.forall_mem_cons.mpr ⟨hb, hbs⟩

/-- A key past all others goes to the end. -/
theorem emplace_of_lt {α : Type} {v : α} {d : List (BencodeString × α)} (h : ∀ e ∈ d, e.1 < key) :
    emplace key v d = d ++ [(key, v)] := by
  induction d with
  | nil => rfl
  | cons e d ih =>
    obtain ⟨he, hd⟩ := List.forall_mem_cons.mp h
    have hne : key ≠ e.1 := by
      rintro rfl
      exact List.lt_irrefl _ he
    rw [emplace, if_neg (List.lt_asymm he), if_neg hne, ih hd, List.cons_append]

/-- Entries that come in the order of their keys are the map. -/
theorem foldl_emplace {α : Type} {acc d : List (BencodeString × α)}
    (hd : (d.map Prod.fst).Pairwise (· < ·)) (hacc : ∀ e ∈ acc, ∀ e' ∈ d, e.1 < e'.1) :
    d.foldl (fun d e => emplace e.1 e.2 d) acc = acc ++ d := by
  induction d generalizing acc with
  | nil => rw [List.foldl_nil, List.append_nil]
  | cons e d ih =>
    rw [List.map_cons, List.pairwise_cons] at hd
    rw [List.foldl_cons, emplace_of_lt fun e' he' => hacc e' he' e List.mem_cons_self, ih hd.2,
      List.append_assoc, List.singleton_append]
    intro e' he' e'' he''
    rcases List.mem_append.mp he' with he' | he'
    · exact hacc e' he' e'' (List.mem_cons_of_mem _ he'')
    · rw [List.mem_singleton.mp he']
      exact hd.1 e''.1 (List.mem_map_of_mem he'')

end Loops

/-- `parse_list`, by its loop. -/
theorem parseList_eq_ok {parseValue : List UInt8 → Except BencodeError (BencodeValue × List UInt8)}
    {l : List BencodeValue} : parseList parseValue remaining = .ok (l, rest) ↔
      ∃ tail, remaining = 0x6c :: tail ∧
        parseItems parseValue tail.length tail = .ok (l, 0x65 :: rest) := by
  constructor
  · intro h
    rw [parseList] at h
    obtain ⟨⟨_, tail⟩, hopen, h₁⟩ := bind_eq_ok h
    obtain ⟨⟨l', tail'⟩, hitems, h₂⟩ := bind_eq_ok h₁
    obtain ⟨⟨_, tail''⟩, hclose, h₃⟩ := bind_eq_ok h₂
    cases h₃
    obtain rfl := expect_eq_ok.mp hclose
    exact ⟨tail, expect_eq_ok.mp hopen, hitems⟩
  · rintro ⟨tail, rfl, hitems⟩
    rw [parseList, expect_eq_ok.mpr rfl, ok_bind]
    dsimp only
    rw [hitems, ok_bind]
    dsimp only
    rw [expect_eq_ok.mpr rfl, ok_bind]
    rfl

/-- `parse_dict`, by its loop. -/
theorem parseDict_eq_ok {parseValue : List UInt8 → Except BencodeError (BencodeValue × List UInt8)}
    {d : List (BencodeString × BencodeValue)} : parseDict parseValue remaining = .ok (d, rest) ↔
      ∃ tail entries, remaining = 0x64 :: tail ∧
        parseEntries parseValue tail.length none tail = .ok (entries, 0x65 :: rest) ∧
        d = entries.foldl (fun d e => emplace e.1 e.2 d) [] := by
  constructor
  · intro h
    rw [parseDict] at h
    obtain ⟨⟨_, tail⟩, hopen, h₁⟩ := bind_eq_ok h
    obtain ⟨⟨entries, tail'⟩, hitems, h₂⟩ := bind_eq_ok h₁
    obtain ⟨⟨_, tail''⟩, hclose, h₃⟩ := bind_eq_ok h₂
    cases h₃
    obtain rfl := expect_eq_ok.mp hclose
    exact ⟨tail, entries, expect_eq_ok.mp hopen, hitems, rfl⟩
  · rintro ⟨tail, entries, rfl, hitems, rfl⟩
    rw [parseDict, expect_eq_ok.mpr rfl, ok_bind]
    dsimp only
    rw [hitems, ok_bind]
    dsimp only
    rw [expect_eq_ok.mpr rfl, ok_bind]
    rfl

/-- **What `parse_value` accepts** starts with the encoding of the value it answers. -/
theorem sound_parseValueTo (depth : ℕ) : Sound (parseValueTo depth) := by
  have hmax : int64Max = 2 ^ 63 - 1 := rfl
  have hsize : sizeMax = 2 ^ 64 - 1 := rfl
  induction depth with
  | zero => exact fun h => nomatch h
  | succ depth ih =>
    intro remaining v rest h
    cases remaining with
    | nil => cases h
    | cons firstChar tail =>
      rw [parseValueTo] at h
      -- the first byte says what comes: `i`, `l`, `d` or a digit
      by_cases hi : firstChar = 0x69
      · rw [if_pos hi] at h
        obtain ⟨⟨n, after⟩, hn, h₁⟩ := bind_eq_ok h
        cases h₁
        obtain ⟨hspell, hle⟩ := parseInt_eq_ok.mp hn
        exact ⟨hspell, .int n (by rw [leastInt]; omega) (by omega)⟩
      rw [if_neg hi] at h
      by_cases hl : firstChar = 0x6c
      · rw [if_pos hl] at h
        obtain ⟨⟨l, after⟩, hlist, h₁⟩ := bind_eq_ok h
        cases h₁
        obtain ⟨tail', htail, hitems⟩ := parseList_eq_ok.mp hlist
        obtain ⟨rfl, hbs⟩ := ih.parseItems hitems
        rw [htail, encodeValue, List.append_assoc, List.cons_append, List.singleton_append]
        exact ⟨rfl, .list l hbs⟩
      rw [if_neg hl] at h
      by_cases hd : firstChar = 0x64
      · rw [if_pos hd] at h
        obtain ⟨⟨d, after⟩, hdict, h₁⟩ := bind_eq_ok h
        cases h₁
        -- the keys ascend, so the map holds the entries in the order they were read
        obtain ⟨tail', entries, htail, hentries, rfl⟩ := parseDict_eq_ok.mp hdict
        obtain ⟨rfl, hsorted, -, hlens, hbs⟩ := ih.parseEntries hentries
        rw [foldl_emplace hsorted (by simp), List.nil_append, htail, encodeValue, List.append_assoc,
          List.cons_append, List.singleton_append]
        exact ⟨rfl, .dict entries hsorted (fun e he => by have := hlens e he; omega) hbs⟩
      rw [if_neg hd] at h
      split at h
      case isFalse => cases h
      case isTrue =>
        obtain ⟨⟨str, after⟩, hstr, h₁⟩ := bind_eq_ok h
        cases h₁
        obtain ⟨hspell, hle⟩ := parseString_eq_ok.mp hstr
        exact ⟨hspell, .string str (by omega)⟩

/-! ### What is encoded -/

/-- The first byte of a decimal number is a digit. -/
theorem exists_encodeString (str : BencodeString) :
    ∃ b tail, encodeString str = b :: tail ∧ isDigit b = true := by
  have hcan := canonical_ofNat str.length
  obtain ⟨b, tail, hb⟩ := List.exists_cons_of_ne_nil hcan.ne_nil
  refine ⟨b, tail ++ 0x3a :: str, by rw [encodeString, hb, List.cons_append], ?_⟩
  exact hcan.isDigit b (by rw [hb]; exact List.mem_cons_self)

/-- An encoding is not empty, and does not start like the end of a list. -/
theorem hasItem_encodeString (str : BencodeString) (tail : List UInt8) :
    hasItem (encodeString str ++ tail) = true := by
  obtain ⟨b, str', hb, hdig⟩ := exists_encodeString str
  rw [hb, List.cons_append, hasItem, decide_eq_true_iff]
  refine ⟨List.cons_ne_nil _ _, fun hc => ?_⟩
  cases hc
  exact absurd hdig (by decide)

theorem hasItem_encodeValue (v : BencodeValue) (tail : List UInt8) :
    hasItem (encodeValue v ++ tail) = true := by
  cases v with
  | int n => rfl
  | string str =>
    rw [encodeValue]
    exact hasItem_encodeString str tail
  | list l =>
    rw [encodeValue]
    rfl
  | dict d =>
    rw [encodeValue]
    rfl

theorem length_encodeValue_pos (v : BencodeValue) : 0 < (encodeValue v).length := by
  have h := hasItem_encodeValue v []
  rw [List.append_nil, hasItem, decide_eq_true_iff] at h
  exact List.length_pos_iff.mpr h.1

theorem length_encodeValue_le {l : List BencodeValue} {v : BencodeValue} (h : v ∈ l) :
    (encodeValue v).length ≤ (encodeItems l).length := by
  induction l with
  | nil => cases h
  | cons v' l ih =>
    rw [encodeItems, List.length_append]
    rcases List.mem_cons.mp h with rfl | h
    · exact Nat.le_add_right _ _
    · exact (ih h).trans (Nat.le_add_left _ _)

theorem length_le_encodeItems (l : List BencodeValue) : l.length ≤ (encodeItems l).length := by
  induction l with
  | nil => exact Nat.zero_le _
  | cons v l ih =>
    have := length_encodeValue_pos v
    rw [encodeItems, List.length_append, List.length_cons]
    omega

theorem length_encodeEntry_le {d : List (BencodeString × BencodeValue)}
    {e : BencodeString × BencodeValue} (h : e ∈ d) :
    (encodeValue e.2).length ≤ (encodeEntries d).length := by
  induction d with
  | nil => cases h
  | cons e' d ih =>
    rw [encodeEntries, List.length_append, encodeEntry, List.length_append]
    rcases List.mem_cons.mp h with rfl | h
    · omega
    · have := ih h
      omega

theorem length_le_encodeEntries (d : List (BencodeString × BencodeValue)) :
    d.length ≤ (encodeEntries d).length := by
  induction d with
  | nil => exact Nat.zero_le _
  | cons e d ih =>
    have := length_encodeValue_pos e.2
    rw [encodeEntries, encodeEntry, List.length_append, List.length_append, List.length_cons]
    omega

section Loops

variable {parseValue : List UInt8 → Except BencodeError (BencodeValue × List UInt8)}
  {rounds : ℕ} {l : List BencodeValue} {d : List (BencodeString × BencodeValue)}
  {lastKey : Option BencodeString}

/-- The loop over the items of a list ends at the closing byte. -/
theorem parseItems_encodeItems
    (hpv : ∀ v ∈ l, ∀ rest, parseValue (encodeValue v ++ rest) = .ok (v, rest))
    (hrounds : l.length ≤ rounds) :
    parseItems parseValue rounds (encodeItems l ++ 0x65 :: rest) = .ok (l, 0x65 :: rest) := by
  induction l generalizing rounds with
  | nil =>
    rw [encodeItems, List.nil_append]
    cases rounds <;> rfl
  | cons v l ih =>
    obtain ⟨hv, hl⟩ := List.forall_mem_cons.mp hpv
    obtain ⟨rounds, rfl⟩ := Nat.exists_eq_add_one_of_ne_zero
      (show rounds ≠ 0 by rw [List.length_cons] at hrounds; omega)
    rw [encodeItems, List.append_assoc, parseItems, if_pos (hasItem_encodeValue v _), hv, ok_bind]
    dsimp only
    rw [ih hl (Nat.le_of_succ_le_succ hrounds), ok_bind]
    rfl

/-- The loop over the entries of a dictionary, whose keys ascend. -/
theorem parseEntries_encodeEntries (hsorted : (d.map Prod.fst).Pairwise (· < ·))
    (hlast : ∀ k, lastKey = some k → ∀ e ∈ d, k < e.1) (hlens : ∀ e ∈ d, e.1.length ≤ sizeMax)
    (hpv : ∀ e ∈ d, ∀ rest, parseValue (encodeValue e.2 ++ rest) = .ok (e.2, rest))
    (hrounds : d.length ≤ rounds) :
    parseEntries parseValue rounds lastKey (encodeEntries d ++ 0x65 :: rest) =
      .ok (d, 0x65 :: rest) := by
  induction d generalizing rounds lastKey with
  | nil =>
    rw [encodeEntries, List.nil_append]
    cases rounds <;> rfl
  | cons e d ih =>
    obtain ⟨key, v⟩ := e
    obtain ⟨hlen, hlens'⟩ := List.forall_mem_cons.mp hlens
    obtain ⟨hv, hpv'⟩ := List.forall_mem_cons.mp hpv
    rw [List.map_cons, List.pairwise_cons] at hsorted
    obtain ⟨rounds, rfl⟩ := Nat.exists_eq_add_one_of_ne_zero
      (show rounds ≠ 0 by rw [List.length_cons] at hrounds; omega)
    -- the key is accepted, and it is the last key of what follows
    have hcheck : checkKey BencodeError.duplicateKey .keysNotSorted lastKey key = .ok () :=
      checkKey_eq_ok.mpr fun k hk => hlast k hk _ List.mem_cons_self
    have hnext : ∀ k, some key = some k → ∀ e ∈ d, k < e.1 := by
      rintro k ⟨⟩ e he
      exact hsorted.1 _ (List.mem_map_of_mem he)
    rw [encodeEntries, encodeEntry, List.append_assoc, List.append_assoc, parseEntries,
      if_pos (hasItem_encodeString key _), parseString_eq_ok.mpr ⟨rfl, hlen⟩, ok_bind]
    dsimp only
    rw [hcheck, ok_bind, hv, ok_bind]
    dsimp only
    rw [ih hsorted.2 hnext hlens' hpv' (Nat.le_of_succ_le_succ hrounds), ok_bind]
    rfl

end Loops

/-- **An encoding is accepted**, at a depth of its length, and read to its end. -/
theorem parseValueTo_encodeValue {v : BencodeValue} {depth : ℕ} (hv : v.Bounded leastInt)
    (hdepth : (encodeValue v).length ≤ depth) :
    parseValueTo depth (encodeValue v ++ rest) = .ok (v, rest) := by
  have hmax : int64Max = 2 ^ 63 - 1 := rfl
  have hsize : sizeMax = 2 ^ 64 - 1 := rfl
  induction depth generalizing v rest with
  | zero =>
    have := length_encodeValue_pos v
    omega
  | succ depth ih =>
    cases hv with
    | int n hlo hhi =>
      rw [leastInt] at hlo
      have hint : parseInt (encodeInt n ++ rest) = .ok (n, rest) :=
        parseInt_eq_ok.mpr ⟨rfl, by omega⟩
      rw [encodeValue]
      show (parseInt (encodeInt n ++ rest) >>= _) = _
      rw [hint]
      rfl
    | string str hlen =>
      have hstr : parseString (encodeString str ++ rest) = .ok (str, rest) :=
        parseString_eq_ok.mpr ⟨rfl, by omega⟩
      obtain ⟨b, tail, hb, hdig⟩ := exists_encodeString str
      -- a string starts with a digit, and so with none of the letters
      have hne : b ≠ 0x69 ∧ b ≠ 0x6c ∧ b ≠ 0x64 := by
        refine ⟨?_, ?_, ?_⟩ <;> rintro rfl <;> exact absurd hdig (by decide)
      rw [encodeValue]
      rw [hb, List.cons_append] at hstr ⊢
      rw [parseValueTo, if_neg hne.1, if_neg hne.2.1, if_neg hne.2.2, if_pos hdig, hstr]
      rfl
    | list l hl =>
      rw [encodeValue, List.length_append, List.length_cons, List.length_singleton] at hdepth
      have hitems : parseList (parseValueTo depth) (encodeValue (.list l) ++ rest) =
          .ok (l, rest) := by
        refine parseList_eq_ok.mpr ⟨encodeItems l ++ 0x65 :: rest, ?_, ?_⟩
        · rw [encodeValue, List.append_assoc, List.cons_append, List.singleton_append]
        · refine parseItems_encodeItems (fun v hv rest => ?_) ?_
          · have := length_encodeValue_le hv
            exact ih (hl v hv) (by omega)
          · have := length_le_encodeItems l
            rw [List.length_append]
            omega
      rw [encodeValue] at hitems ⊢
      show (parseList _ _ >>= _) = _
      rw [hitems]
      rfl
    | dict d hsorted hlens hd =>
      rw [encodeValue, List.length_append, List.length_cons, List.length_singleton] at hdepth
      have hentries : parseDict (parseValueTo depth) (encodeValue (.dict d) ++ rest) =
          .ok (d, rest) := by
        refine parseDict_eq_ok.mpr ⟨encodeEntries d ++ 0x65 :: rest, d, ?_, ?_, ?_⟩
        · rw [encodeValue, List.append_assoc, List.cons_append, List.singleton_append]
        · refine parseEntries_encodeEntries hsorted (fun _ hk => nomatch hk)
            (fun e he => by have := hlens e he; omega) (fun e he rest => ?_) ?_
          · have := length_encodeEntry_le he
            exact ih (hd e he) (by omega)
          · have := length_le_encodeEntries d
            rw [List.length_append]
            omega
        · rw [foldl_emplace hsorted (by simp), List.nil_append]
      rw [encodeValue] at hentries ⊢
      show (parseDict _ _ >>= _) = _
      rw [hentries]
      rfl

/-- **The encodings are a prefix code**: none begins another one. -/
theorem eq_nil_of_encodeValue_append {v w : BencodeValue} (hv : v.Bounded leastInt)
    (hw : w.Bounded leastInt) (h : encodeValue v ++ rest = encodeValue w) : rest = [] := by
  have hlen := congrArg List.length h
  rw [List.length_append] at hlen
  have hbegin : parseValueTo (encodeValue w).length (encodeValue v ++ rest) = .ok (v, rest) :=
    parseValueTo_encodeValue hv (by omega)
  have hwhole : parseValueTo (encodeValue w).length (encodeValue w ++ []) = .ok (w, []) :=
    parseValueTo_encodeValue hw le_rfl
  rw [List.append_nil] at hwhole
  rw [h, hwhole, Except.ok.injEq, Prod.mk.injEq] at hbegin
  exact hbegin.2.symm

/-! ### The whole input -/

/-- The values that are accepted are those of the types of the source without `-2 ^ 63`. -/
theorem bounded_leastInt_iff {v : BencodeValue} :
    v.Bounded leastInt ↔ v.WellFormed ∧ ¬v.Contains (-2 ^ 63) := by
  constructor
  · intro h
    induction h with
    | int n hlo hhi =>
      rw [leastInt] at hlo
      refine ⟨.int n (by omega) hhi, fun hc => ?_⟩
      -- an integer contains itself only
      cases hc
      omega
    | string str hlen => exact ⟨.string str hlen, fun hc => nomatch hc⟩
    | list l _ ih =>
      refine ⟨.list l fun v hv => (ih v hv).1, fun hc => ?_⟩
      cases hc with
      | item _ v hv hin => exact (ih v hv).2 hin
    | dict d hsorted hlens _ ih =>
      refine ⟨.dict d hsorted hlens fun e he => (ih e he).1, fun hc => ?_⟩
      cases hc with
      | entry _ e he hin => exact (ih e he).2 hin
  · rintro ⟨h, hno⟩
    induction h with
    | int n hlo hhi =>
      have hne : n ≠ -2 ^ 63 := by
        rintro rfl
        exact hno .here
      exact .int n (by rw [leastInt]; omega) hhi
    | string str hlen => exact .string str hlen
    | list l _ ih => exact .list l fun v hv => ih v hv fun hc => hno (.item l v hv hc)
    | dict d hsorted hlens _ ih =>
      exact .dict d hsorted hlens fun e he => ih e he fun hc => hno (.entry d e he hc)

theorem parse_eq_ok {x : List UInt8} {v : BencodeValue} :
    parse x = .ok v ↔ encode v = x ∧ v.Bounded leastInt := by
  constructor
  · intro h
    rw [parse] at h
    obtain ⟨⟨v', rest⟩, hv, h₁⟩ := bind_eq_ok h
    dsimp only at h₁
    obtain ⟨hx, hb⟩ := sound_parseValueTo x.length hv
    split at h₁
    case isTrue => cases h₁
    case isFalse hrest =>
      cases h₁
      rw [not_not] at hrest
      rw [hrest, List.append_nil] at hx
      exact ⟨hx.symm, hb⟩
  · rintro ⟨rfl, hb⟩
    have hv : parseValue (encode v) = .ok (v, []) := by
      have h : parseValueTo (encodeValue v).length (encodeValue v ++ []) = .ok (v, []) :=
        parseValueTo_encodeValue hb le_rfl
      rwa [List.append_nil] at h
    rw [parse, hv, ok_bind]
    rfl

/-- **A message that is cut short is rejected**, wherever it is cut. -/
theorem exists_parse_take_eq_error {v : BencodeValue} {n : ℕ} (hv : v.Bounded leastInt)
    (hn : n < (encode v).length) : ∃ e, parse ((encode v).take n) = .error e := by
  rcases hp : parse ((encode v).take n) with e | w
  · exact ⟨e, rfl⟩
  · obtain ⟨henc, hw⟩ := parse_eq_ok.mp hp
    have happ : encodeValue w ++ (encode v).drop n = encodeValue v := by
      rw [← List.take_append_drop n (encodeValue v)]
      exact congrArg (· ++ (encode v).drop n) henc
    have hdrop := eq_nil_of_encodeValue_append hw hv happ
    rw [List.drop_eq_nil_iff] at hdrop
    omega

/-- **`parse` accepts exactly what `encode` writes.** For a value of the types of the source in
which `-2 ^ 63` does not occur, `parse` answers with it on its encoding and on no other input;
it answers with such values only, so encoding the answer gives the input back; and it throws on
every input that is the encoding of none of them. -/
theorem parse_iff_encode (x : List UInt8) :
    (∀ v : BencodeValue, v.WellFormed → ¬v.Contains (-2 ^ 63) → (parse x = .ok v ↔ encode v = x)) ∧
      (∀ v, parse x = .ok v → v.WellFormed ∧ ¬v.Contains (-2 ^ 63) ∧ encode v = x) ∧
      ((∀ v : BencodeValue, v.WellFormed → ¬v.Contains (-2 ^ 63) → encode v ≠ x) →
        ∃ e, parse x = .error e) := by
  have hsound : ∀ v, parse x = .ok v → v.WellFormed ∧ ¬v.Contains (-2 ^ 63) ∧ encode v = x := by
    intro v h
    obtain ⟨hx, hb⟩ := parse_eq_ok.mp h
    obtain ⟨hwf, hno⟩ := bounded_leastInt_iff.mp hb
    exact ⟨hwf, hno, hx⟩
  refine ⟨fun v hwf hno => ⟨fun h => (hsound v h).2.2, fun h => ?_⟩, hsound, fun hnone => ?_⟩
  · exact parse_eq_ok.mpr ⟨h, bounded_leastInt_iff.mpr ⟨hwf, hno⟩⟩
  · rcases hx : parse x with e | v
    · exact ⟨e, rfl⟩
    · obtain ⟨hwf, hno, henc⟩ := hsound v hx
      exact absurd henc (hnone v hwf hno)

/-- `d1:kli-42eee`, a dictionary of one key with a list of one integer. -/
theorem parse_iff_encode_dict :
    parse [0x64, 0x31, 0x3a, 0x6b, 0x6c, 0x69, 0x2d, 0x34, 0x32, 0x65, 0x65, 0x65] =
      .ok (.dict [([0x6b], .list [.int (-42)])]) := by
  have hint : BencodeValue.Bounded leastInt (.int (-42)) := .int _ (by decide) (by decide)
  have hlist : BencodeValue.Bounded leastInt (.list [.int (-42)]) :=
    .list _ fun v hv => List.mem_singleton.mp hv ▸ hint
  have hdict : BencodeValue.Bounded leastInt (.dict [([0x6b], .list [.int (-42)])]) :=
    .dict _ (List.pairwise_singleton _ _) (fun e he => List.mem_singleton.mp he ▸ by decide)
      fun e he => List.mem_singleton.mp he ▸ hlist
  obtain ⟨hwf, hno⟩ := bounded_leastInt_iff.mp hdict
  exact ((parse_iff_encode _).1 _ hwf hno).mpr (by decide)

/-- **What `encode` writes, `parse` reads back**, whatever the value and however deep, exactly
when `-2 ^ 63` does not occur in it. -/
theorem parse_encode_iff {v : BencodeValue} (h : v.WellFormed) :
    parse (encode v) = .ok v ↔ ¬v.Contains (-2 ^ 63) := by
  rw [parse_eq_ok, bounded_leastInt_iff]
  exact ⟨fun hv => hv.2.2, fun hno => ⟨rfl, h, hno⟩⟩

/-- The largest integer, in a list. -/
theorem parse_encode_iff_maxInt :
    parse (encode (.list [.int (2 ^ 63 - 1)])) = .ok (.list [.int (2 ^ 63 - 1)]) := by
  have hint : BencodeValue.WellFormed (.int (2 ^ 63 - 1)) := .int _ (by decide) (by decide)
  refine (parse_encode_iff (.list _ fun v hv => List.mem_singleton.mp hv ▸ hint)).mpr fun hc => ?_
  cases hc with
  | item _ v hv hin =>
    cases List.mem_singleton.mp hv
    exact absurd hin fun hc => by cases hc

/-- The least integer is written, and not read back: `i-9223372036854775808e` overflows. -/
theorem not_parse_encode_leastInt :
    BencodeValue.WellFormed (.int (-2 ^ 63)) ∧
      parse (encode (.int (-2 ^ 63))) = .error .integerOverflow ∧
      ¬∀ v : BencodeValue, v.WellFormed → parse (encode v) = .ok v := by
  have hwf : BencodeValue.WellFormed (.int (-2 ^ 63)) := .int _ (by decide) (by decide)
  have hthrow : parse (encode (.int (-2 ^ 63))) = .error .integerOverflow := rfl
  refine ⟨hwf, hthrow, fun h => ?_⟩
  have hok := h _ hwf
  rw [hthrow] at hok
  cases hok

end BencodeParser

end TransferEngine
