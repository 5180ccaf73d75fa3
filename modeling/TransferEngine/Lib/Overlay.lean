import Mathlib.Algebra.Order.Group.Int
import Mathlib.Data.List.Basic

/-!
# Laying one list over another

`Overlay.overlay k d c` is the list `c` with `d` laid over it, the first element of `d` at
position `k`. The position may be negative, and `d` may stick out at either end: what falls
outside `c` is lost, so that the result is always as long as `c`.

This is what a write to a range looks like from one of the pieces that the range is spread
over. Laying over a concatenation is laying over each of its parts
(`Overlay.overlay_append`), and a concatenation is laid over a list part by part
(`Overlay.overlay_append_left`): no arithmetic is left for those who write a range part by
part, or read it part by part, but to see that each part is laid over correctly.
-/

namespace TransferEngine.Overlay

variable {α : Type*} {k l : ℤ} {c d e : List α} {n : ℕ}

/-- `c` with `d` laid over it from position `k` on. -/
def overlay (k : ℤ) (d c : List α) : List α :=
  c.mapIdx fun y b => if k ≤ y then d[((y : ℤ) - k).toNat]?.getD b else b

@[simp] theorem length_overlay : (overlay k d c).length = c.length := List.length_mapIdx

theorem getElem?_overlay {a : List α} (y : ℕ) : (overlay k d a)[y]? =
    a[y]?.map fun b => if k ≤ y then d[((y : ℤ) - k).toNat]?.getD b else b :=
  List.getElem?_mapIdx

/-- **Laying over a concatenation** is laying over both parts. -/
theorem overlay_append (k : ℤ) (d c₁ c₂ : List α) :
    overlay k d (c₁ ++ c₂) = overlay k d c₁ ++ overlay (k - c₁.length) d c₂ := by
  rw [overlay, List.mapIdx_append, overlay, overlay]
  congr 1
  refine List.mapIdx_eq_mapIdx_iff.mpr fun y hy => ?_
  rw [show ((y + c₁.length : ℕ) : ℤ) - k = (y : ℤ) - (k - c₁.length) by omega]
  exact if_congr (by omega) rfl rfl

/-- **A concatenation is laid over a list** part by part. -/
theorem overlay_append_left (k : ℤ) (d₁ d₂ c : List α) :
    overlay k (d₁ ++ d₂) c = overlay (k + d₁.length) d₂ (overlay k d₁ c) := by
  refine List.ext_getElem? fun y => ?_
  rw [getElem?_overlay, getElem?_overlay, getElem?_overlay, Option.map_map]
  congr 1
  funext b
  dsimp only [Function.comp]
  by_cases hk : k ≤ y
  · by_cases hd : k + d₁.length ≤ y
    · rw [if_pos hk, if_pos hd, if_pos hk, List.getElem?_append_right (by omega),
        List.getElem?_eq_none (l := d₁) (by omega), Option.getD_none,
        show ((y : ℤ) - k).toNat - d₁.length = ((y : ℤ) - (k + d₁.length)).toNat by omega]
    · rw [if_pos hk, if_neg hd, if_pos hk, List.getElem?_append_left (by omega)]
  · rw [if_neg hk, if_neg (by omega), if_neg hk]

/-- What lies outside changes nothing. -/
theorem overlay_of_disjoint (h : (c.length : ℤ) ≤ k ∨ k + d.length ≤ 0) : overlay k d c = c := by
  refine List.ext_getElem? fun y => ?_
  rw [getElem?_overlay]
  by_cases hy : y < c.length
  · rw [List.getElem?_eq_getElem hy, Option.map_some]
    split
    case isTrue hk => rw [List.getElem?_eq_none (by omega), Option.getD_none]
    case isFalse => rfl
  · rw [List.getElem?_eq_none (l := c) (by omega), Option.map_none]

/-- Beside `d` nothing changes. -/
theorem getElem?_overlay_of_outside {y : ℕ} (h : y < k ∨ k + d.length ≤ y) :
    (overlay k d c)[y]? = (c)[y]? := by
  rw [getElem?_overlay]
  split
  case isTrue hk =>
    rw [List.getElem?_eq_none (l := d) (by omega)]
    simp
  case isFalse => simp

@[simp] theorem overlay_nil (k : ℤ) (c : List α) : overlay k [] c = c := by
  refine List.ext_getElem? fun y => ?_
  simp [getElem?_overlay]

/-- Only what falls on `c` matters: `d` may be cut on both sides. -/
theorem overlay_window {m : ℕ} (hn : k + n ≤ 0 ∨ n = 0)
    (hm : (c.length : ℤ) ≤ k + n + m ∨ d.length ≤ n + m) :
    overlay (k + n) ((d.drop n).take m) c = overlay k d c := by
  refine List.ext_getElem? fun y => ?_
  rw [getElem?_overlay, getElem?_overlay]
  by_cases hy : y < c.length
  · rw [List.getElem?_eq_getElem hy, Option.map_some, Option.map_some]
    congr 1
    by_cases hk : k + n ≤ y
    · rw [if_pos hk, if_pos (by omega), List.getElem?_take]
      split
      case isTrue =>
        rw [List.getElem?_drop, show n + ((y : ℤ) - (k + n)).toNat = ((y : ℤ) - k).toNat by omega]
      case isFalse => rw [List.getElem?_eq_none (l := d) (by omega)]
    · rw [if_neg hk, if_neg (by omega)]
  · rw [List.getElem?_eq_none (l := c) (by omega), Option.map_none, Option.map_none]

/-- Only a beginning of `d` matters, if it reaches to the end of `c`. -/
theorem overlay_take {m : ℕ} (hm : (c.length : ℤ) ≤ k + m ∨ d.length ≤ m) :
    overlay k (d.take m) c = overlay k d c := by
  have h := overlay_window (k := k) (c := c) (d := d) (n := 0) (m := m) (Or.inr rfl) (by omega)
  rwa [List.drop_zero, Int.natCast_zero, Int.add_zero] at h

/-! ### Lists that fit -/

/-- `c` with a part of it replaced by `d`. -/
def splice (c : List α) (n : ℕ) (d : List α) : List α := c.take n ++ d ++ c.drop (n + d.length)

theorem splice_eq_overlay (h : n + d.length ≤ c.length) : splice c n d = overlay n d c := by
  refine List.ext_getElem? fun y => ?_
  rw [splice, getElem?_overlay, List.append_assoc]
  by_cases hy : y < n
  · rw [List.getElem?_append_left (by rw [List.length_take]; omega), List.getElem?_take, if_pos hy,
      List.getElem?_eq_getElem (by omega), Option.map_some, if_neg (by omega)]
  · rw [List.getElem?_append_right (by rw [List.length_take]; omega), List.length_take,
      Nat.min_eq_left (by omega)]
    by_cases hd : y - n < d.length
    · rw [List.getElem?_append_left hd, List.getElem?_eq_getElem (l := c) (by omega),
        Option.map_some, if_pos (by omega), show ((y : ℤ) - n).toNat = y - n by omega,
        List.getElem?_eq_getElem hd, Option.getD_some]
    · rw [List.getElem?_append_right (by omega), List.getElem?_drop,
        show n + d.length + (y - n - d.length) = y by omega]
      by_cases hc : y < c.length
      · rw [List.getElem?_eq_getElem hc, Option.map_some, if_pos (by omega),
          List.getElem?_eq_none (l := d) (by omega), Option.getD_none]
      · rw [List.getElem?_eq_none (l := c) (by omega), Option.map_none]

theorem length_splice (h : n + d.length ≤ c.length) : (splice c n d).length = c.length := by
  rw [splice_eq_overlay h, length_overlay]

/-- **A list laid over a shorter one**, all of which it covers. -/
theorem overlay_of_covers (h : n + c.length ≤ d.length) :
    overlay (-n) d c = (d.drop n).take c.length := by
  refine List.ext_getElem? fun y => ?_
  rw [getElem?_overlay, List.getElem?_take, List.getElem?_drop]
  by_cases hy : y < c.length
  · rw [List.getElem?_eq_getElem hy, Option.map_some, if_pos (by omega), if_pos hy,
      show ((y : ℤ) - -n).toNat = n + y by omega, List.getElem?_eq_getElem (by omega),
      Option.getD_some]
  · rw [List.getElem?_eq_none (l := c) (by omega), Option.map_none, if_neg hy]

/-- What was put in is there. -/
theorem take_drop_splice (h : n + d.length ≤ c.length) :
    ((splice c n d).drop n).take d.length = d := by
  rw [splice, List.append_assoc, List.drop_append_of_le_length (by rw [List.length_take]; omega),
    List.drop_eq_nil_of_le (by rw [List.length_take]; omega), List.nil_append,
    List.take_left]

/-- What is not there does not change. -/
theorem take_drop_splice_of_disjoint {m r : ℕ} (h : n + d.length ≤ c.length)
    (hd : m + r ≤ n ∨ n + d.length ≤ m) :
    ((splice c n d).drop m).take r = (c.drop m).take r := by
  refine List.ext_getElem? fun y => ?_
  rw [List.getElem?_take, List.getElem?_take]
  split
  case isTrue hy =>
    rw [List.getElem?_drop, List.getElem?_drop, splice_eq_overlay h, getElem?_overlay]
    by_cases hc : m + y < c.length
    · rw [List.getElem?_eq_getElem hc, Option.map_some]
      by_cases hk : (n : ℤ) ≤ (m + y : ℕ)
      · rw [if_pos hk, List.getElem?_eq_none (l := d) (by omega), Option.getD_none]
      · rw [if_neg hk]
    · rw [List.getElem?_eq_none (l := c) (by omega), Option.map_none]
  case isFalse => rfl

/-- **Parts that do not meet** may be laid over in either order. -/
theorem overlay_comm (h : k + d.length ≤ l ∨ l + e.length ≤ k) :
    overlay k d (overlay l e c) = overlay l e (overlay k d c) := by
  refine List.ext_getElem? fun y => ?_
  rw [getElem?_overlay, getElem?_overlay, getElem?_overlay, getElem?_overlay, Option.map_map,
    Option.map_map]
  congr 1
  funext b
  dsimp only [Function.comp]
  by_cases hk : k ≤ y
  · by_cases hl : l ≤ y
    · rw [if_pos hk, if_pos hl, if_pos hl, if_pos hk]
      rcases h with h | h
      · rw [List.getElem?_eq_none (l := d) (by omega), Option.getD_none, Option.getD_none]
      · rw [List.getElem?_eq_none (l := e) (by omega), Option.getD_none, Option.getD_none]
    · rw [if_pos hk, if_neg hl, if_neg hl, if_pos hk]
  · rw [if_neg hk, if_neg hk]

end TransferEngine.Overlay
