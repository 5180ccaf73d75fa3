import TransferEngine.Bitfield
import Mathlib.Data.List.FinRange
import Mathlib.Data.List.Induction

/-!
# The piece picker

`PiecePicker` of `piece_picker.hpp`: a histogram of how many peers have each piece, and
the choice of the next piece to ask a peer for. While we have fewer than four pieces
the choice is free among the candidates; from then on it is among the rarest of them.

The random engine is an argument: `draw` is the number the distribution is asked for,
and the index it yields is `draw` modulo the size of the range, so that every index is
drawn for some `draw`. The histogram counts modulo `2 ^ 32`, as the atomic counters do.

A picked piece is a `Fin n`, an index in range: the loop that collects the candidates
looks at no other.
-/

namespace TransferEngine

/-- The availability of each piece. -/
structure PiecePicker (n : ℕ) where
  /-- How many peers have the piece. -/
  availabilityHistogram : Vector UInt32 n

namespace PiecePicker

variable {n m k : ℕ}

/-- No piece is available. -/
def init (n : ℕ) : PiecePicker n := ⟨Vector.replicate n 0⟩

/-- Count a piece once more. -/
def addAvailability (pp : PiecePicker n) (pieceIdx : ℕ) : PiecePicker n :=
  if h : pieceIdx < n then
    ⟨pp.availabilityHistogram.set pieceIdx (pp.availabilityHistogram[pieceIdx] + 1)⟩
  else pp

/-- Count a piece once less; zero stays zero. -/
def removeAvailability (pp : PiecePicker n) (pieceIdx : ℕ) : PiecePicker n :=
  if h : pieceIdx < n then
    let val := pp.availabilityHistogram[pieceIdx]
    if 0 < val then ⟨pp.availabilityHistogram.set pieceIdx (val - 1)⟩ else pp
  else pp

/-- Count every piece of a bitfield once more. -/
def addPeerBitfield (pp : PiecePicker n) (bitfield : Bitfield m) : PiecePicker n :=
  (List.range n).foldl (fun pp i => if bitfield.has i then pp.addAvailability i else pp) pp

/-- Count every piece of a bitfield once less. -/
def removePeerBitfield (pp : PiecePicker n) (bitfield : Bitfield m) : PiecePicker n :=
  (List.range n).foldl (fun pp i => if bitfield.has i then pp.removeAvailability i else pp) pp

/-- `get_availability`; out of range it is zero. -/
def getAvailability (pp : PiecePicker n) (pieceIdx : ℕ) : UInt32 :=
  if h : pieceIdx < n then pp.availabilityHistogram[pieceIdx] else 0

/-- The pieces the peer has and we do not. -/
def candidates (peer : Bitfield m) (our : Bitfield k) : List (Fin n) :=
  (List.finRange n).filter fun i => peer.has i && !our.has i

/-- One round of the search for the rarest candidates: the least availability seen so
far, and the candidates that attain it. -/
def keepRarest (pp : PiecePicker n) (acc : UInt32 × List (Fin n)) (idx : Fin n) :
    UInt32 × List (Fin n) :=
  let avail := pp.availabilityHistogram[idx]
  if avail < acc.1 then (avail, [idx])
  else if avail = acc.1 then (acc.1, acc.2 ++ [idx])
  else acc

/-- The candidates with the least availability. -/
def rarest (pp : PiecePicker n) (cands : List (Fin n)) : List (Fin n) :=
  (cands.foldl pp.keepRarest (0xFFFFFFFF, [])).2

/-- **The piece to ask a peer for next.** -/
def pickPiece (pp : PiecePicker n) (peer : Bitfield m) (our : Bitfield k) (draw : ℕ) :
    Option (Fin n) :=
  let cands : List (Fin n) := candidates peer our
  if cands = [] then none
  else if our.count < 4 then cands[draw % cands.length]?
  else
    let rare := pp.rarest cands
    if rare = [] then none else rare[draw % rare.length]?

/-! ### What is picked -/

variable {pp : PiecePicker n} {cands : List (Fin n)} {peer : Bitfield m} {our : Bitfield k}
  {i : Fin n}

theorem mem_candidates : i ∈ (candidates peer our : List (Fin n)) ↔
    peer.has i = true ∧ our.has i = false := by
  simp [candidates]

/-- **What the search has found** when it has looked at the candidates `seen`. -/
structure Found (pp : PiecePicker n) (seen : List (Fin n)) (acc : UInt32 × List (Fin n)) :
    Prop where
  /-- Nothing seen is rarer. -/
  le : ∀ j ∈ seen, acc.1 ≤ pp.availabilityHistogram[j]
  /-- What is kept is what is as rare as that. -/
  mem_iff : ∀ i, i ∈ acc.2 ↔ i ∈ seen ∧ pp.availabilityHistogram[i] = acc.1
  /-- Nothing is kept only where nothing has been seen. -/
  nil : acc.2 = [] → seen = []

/-- **One round of the search.** -/
theorem Found.keepRarest {seen : List (Fin n)} {acc : UInt32 × List (Fin n)}
    (h : pp.Found seen acc) (hacc : seen = [] → acc.1 = 0xFFFFFFFF) (c : Fin n) :
    pp.Found (seen ++ [c]) (pp.keepRarest acc c) := by
  rw [PiecePicker.keepRarest]
  split
  case isTrue hlt =>
    -- a new least availability: what was kept so far is more available than that
    refine ⟨fun j hj => ?_, fun i => ?_, fun hc => nomatch hc⟩
    · rcases List.mem_append.mp hj with hj | hj
      · exact UInt32.le_of_lt (UInt32.lt_of_lt_of_le hlt (h.le j hj))
      · rw [List.mem_singleton.mp hj]
        exact UInt32.le_refl _
    · show i ∈ [c] ↔ i ∈ seen ++ [c] ∧ pp.availabilityHistogram[i] = pp.availabilityHistogram[c]
      rw [List.mem_singleton, List.mem_append, List.mem_singleton]
      constructor
      · rintro rfl
        exact ⟨Or.inr rfl, rfl⟩
      · rintro ⟨hi | hi, he⟩
        · exact absurd (he ▸ h.le i hi) (UInt32.not_le.mpr hlt)
        · exact hi
  case isFalse hge =>
    have hle : acc.1 ≤ pp.availabilityHistogram[c] := UInt32.not_lt.mp hge
    have hall : ∀ j ∈ seen ++ [c], acc.1 ≤ pp.availabilityHistogram[j] := by
      intro j hj
      rcases List.mem_append.mp hj with hj | hj
      · exact h.le j hj
      · rwa [List.mem_singleton.mp hj]
    split
    case isTrue heq =>
      refine ⟨hall, fun i => ?_, fun hc => ?_⟩
      · rw [List.mem_append, List.mem_append, h.mem_iff, List.mem_singleton]
        constructor
        · rintro (⟨hi, he⟩ | rfl)
          · exact ⟨Or.inl hi, he⟩
          · exact ⟨Or.inr rfl, heq⟩
        · rintro ⟨hi | hi, he⟩
          · exact Or.inl ⟨hi, he⟩
          · exact Or.inr hi
      · simp at hc
    case isFalse hne =>
      refine ⟨hall, fun i => ?_, fun hc => ?_⟩
      · rw [List.mem_append, h.mem_iff, List.mem_singleton]
        constructor
        · exact fun hi => ⟨Or.inl hi.1, hi.2⟩
        · rintro ⟨hi | rfl, he⟩
          · exact ⟨hi, he⟩
          · exact absurd he hne
      · -- the first candidate is kept: no availability is above the bound
        rw [hacc (h.nil hc)] at hle hne
        have hmax : pp.availabilityHistogram[c] ≤ 0xFFFFFFFF :=
          UInt32.le_iff_toNat_le.mpr (Nat.le_of_lt_succ (UInt32.toNat_lt _))
        exact absurd (UInt32.le_antisymm hmax hle) hne

/-- **The search is right.** -/
theorem found_foldl (pp : PiecePicker n) (cands : List (Fin n)) :
    pp.Found cands (cands.foldl pp.keepRarest (0xFFFFFFFF, [])) := by
  induction cands using List.reverseRecOn with
  | nil => exact ⟨by simp, by simp, fun _ => rfl⟩
  | append_singleton cands c ih =>
    rw [List.foldl_append, List.foldl_cons, List.foldl_nil]
    refine ih.keepRarest (fun hc => ?_) c
    rw [hc, List.foldl_nil]

/-- Among candidates there are always rarest ones. -/
theorem rarest_ne_nil (pp : PiecePicker n) (h : cands ≠ []) : pp.rarest cands ≠ [] :=
  fun hc => h ((pp.found_foldl cands).nil hc)

/-- **The rarest candidates** are those that no other is rarer than. -/
theorem mem_rarest : i ∈ pp.rarest cands ↔ i ∈ cands ∧
    ∀ j ∈ cands, pp.availabilityHistogram[i] ≤ pp.availabilityHistogram[j] := by
  have hf := pp.found_foldl cands
  rw [rarest, hf.mem_iff]
  constructor
  · rintro ⟨hi, he⟩
    exact ⟨hi, fun j hj => he ▸ hf.le j hj⟩
  · rintro ⟨hi, hmin⟩
    -- something is kept, and it is not rarer
    obtain ⟨k, hk⟩ := List.exists_mem_of_ne_nil _ (pp.rarest_ne_nil (List.ne_nil_of_mem hi))
    obtain ⟨hkc, hke⟩ := (hf.mem_iff k).mp hk
    exact ⟨hi, UInt32.le_antisymm (hke ▸ hmin k hkc) (hf.le i hi)⟩

/-- A number drawn and taken modulo the length of a list is the place of an element, and
every element is at a place that can be drawn. -/
theorem exists_getElem?_mod_iff {α : Type*} {l : List α} {a : α} :
    (∃ draw, l[draw % l.length]? = some a) ↔ a ∈ l := by
  constructor
  · rintro ⟨draw, h⟩
    exact List.mem_of_getElem? h
  · intro h
    obtain ⟨k, hk, rfl⟩ := List.getElem_of_mem h
    exact ⟨k, by rw [Nat.mod_eq_of_lt hk, List.getElem?_eq_getElem hk]⟩

theorem exists_getElem?_mod {α : Type*} {l : List α} (h : l ≠ []) (draw : ℕ) :
    ∃ a ∈ l, l[draw % l.length]? = some a := by
  have hlt : draw % l.length < l.length := Nat.mod_lt _ (List.length_pos_iff.mpr h)
  exact ⟨_, List.getElem_mem hlt, List.getElem?_eq_getElem hlt⟩

/-- The pieces among which the draw decides. -/
def pool (pp : PiecePicker n) (peer : Bitfield m) (our : Bitfield k) : List (Fin n) :=
  if our.count < 4 then candidates peer our else pp.rarest (candidates peer our)

theorem pool_subset (pp : PiecePicker n) (peer : Bitfield m) (our : Bitfield k) :
    pp.pool peer our ⊆ candidates peer our := by
  rw [pool]
  split
  case isTrue => exact List.Subset.refl _
  case isFalse => exact fun i hi => (mem_rarest.mp hi).1

/-- Where there are candidates, there is something to draw from. -/
theorem pool_ne_nil (h : (candidates peer our : List (Fin n)) ≠ []) : pp.pool peer our ≠ [] := by
  rw [pool]
  split
  case isTrue => exact h
  case isFalse => exact rarest_ne_nil pp h

/-- **A piece is drawn from the pool.** -/
theorem pickPiece_eq (pp : PiecePicker n) (peer : Bitfield m) (our : Bitfield k) (draw : ℕ) :
    pp.pickPiece peer our draw = (pp.pool peer our)[draw % (pp.pool peer our).length]? := by
  have hsub := pp.pool_subset peer our
  rw [pickPiece]
  dsimp only
  split
  case isTrue hnil =>
    rw [hnil] at hsub
    rw [List.eq_nil_of_subset_nil hsub]
    rfl
  case isFalse hne =>
    rw [pool]
    split
    case isTrue => rfl
    case isFalse => rw [if_neg (rarest_ne_nil pp hne)]

/-- **What is picked** is a piece the peer has and we do not. -/
theorem of_pickPiece {draw : ℕ} (h : pp.pickPiece peer our draw = some i) :
    peer.has i = true ∧ our.has i = false := by
  rw [pickPiece_eq] at h
  exact mem_candidates.mp (pp.pool_subset peer our (List.mem_of_getElem? h))

/-- **Nothing is picked** only where there is nothing to pick. -/
theorem pickPiece_eq_none {draw : ℕ} : pp.pickPiece peer our draw = none ↔
    ∀ i : Fin n, peer.has i = true → our.has i = true := by
  rw [pickPiece_eq]
  constructor
  · intro h i hp
    by_contra ho
    have hi : i ∈ (candidates peer our : List (Fin n)) := mem_candidates.mpr ⟨hp, by simpa using ho⟩
    obtain ⟨a, -, ha⟩ := exists_getElem?_mod (pp.pool_ne_nil (List.ne_nil_of_mem hi)) draw
    rw [ha] at h
    cases h
  · intro h
    have hnil : pp.pool peer our = [] := by
      rw [List.eq_nil_iff_forall_not_mem]
      intro i hi
      obtain ⟨hp, ho⟩ := mem_candidates.mp (pp.pool_subset peer our hi)
      rw [h i hp] at ho
      cases ho
    rw [hnil]
    rfl

/-- A candidate: the peer has it and we do not. -/
def Candidate (peer : Bitfield m) (our : Bitfield k) (i : Fin n) : Prop :=
  peer.has i = true ∧ our.has i = false

/-- A candidate that no other candidate is less available than. -/
def Rarest (pp : PiecePicker n) (peer : Bitfield m) (our : Bitfield k) (i : Fin n) : Prop :=
  Candidate peer our i ∧
    ∀ j : Fin n, Candidate peer our j → pp.getAvailability i ≤ pp.getAvailability j

/-- **What can be picked**: every candidate while we have fewer than four pieces, every rarest
one from then on. -/
theorem exists_pickPiece_iff : (∃ draw, pp.pickPiece peer our draw = some i) ↔
    if our.count < 4 then Candidate peer our i else pp.Rarest peer our i := by
  simp only [pickPiece_eq, exists_getElem?_mod_iff, pool]
  split
  case isTrue => exact mem_candidates
  case isFalse =>
    rw [mem_rarest, mem_candidates, Rarest]
    refine and_congr_right fun _ => forall_congr' fun j => ?_
    rw [mem_candidates, getAvailability, getAvailability, dif_pos i.isLt, dif_pos j.isLt]
    rfl

/-! ### The histogram -/

section Histogram

variable {pp : PiecePicker n} {bitfield : Bitfield m} {i j : ℕ}

@[simp] theorem getAvailability_init : (init n).getAvailability i = 0 := by
  rw [getAvailability]
  split <;> simp [init]

theorem getAvailability_of_lt (hi : i < n) :
    pp.getAvailability i = pp.availabilityHistogram[i] := by
  rw [getAvailability, dif_pos hi]

/-- Reading the histogram after one counter is written. -/
theorem getAvailability_set (hj : j < n) (val : UInt32) :
    (PiecePicker.mk (pp.availabilityHistogram.set j val)).getAvailability i =
      if i = j then val else pp.getAvailability i := by
  by_cases hi : i < n
  · rw [getAvailability_of_lt hi, getAvailability_of_lt hi, Vector.getElem_set]
    simp only [eq_comm]
  · rw [getAvailability, dif_neg hi, if_neg (by omega), getAvailability, dif_neg hi]

theorem getAvailability_addAvailability (hi : i < n) :
    (pp.addAvailability j).getAvailability i =
      if i = j then pp.getAvailability i + 1 else pp.getAvailability i := by
  rw [addAvailability]
  split
  case isTrue hj =>
    rw [getAvailability_set hj]
    split
    case isTrue hij => rw [getAvailability_of_lt hi]; simp [hij]
    case isFalse => rfl
  case isFalse hj => rw [if_neg (by omega)]

theorem getAvailability_removeAvailability (hi : i < n) :
    (pp.removeAvailability j).getAvailability i =
      if i = j then (if 0 < pp.getAvailability i then pp.getAvailability i - 1 else 0)
      else pp.getAvailability i := by
  rw [removeAvailability]
  split
  case isFalse hj => rw [if_neg (by omega)]
  case isTrue hj =>
    have hget : pp.getAvailability j = pp.availabilityHistogram[j] := getAvailability_of_lt hj
    rw [← hget]
    dsimp only
    by_cases hij : i = j
    · subst hij
      rw [if_pos rfl]
      split
      case isTrue => rw [getAvailability_set hj, if_pos rfl]
      case isFalse hz => simpa using UInt32.not_lt.mp hz
    · rw [if_neg hij]
      split
      case isTrue => rw [getAvailability_set hj, if_neg hij]
      case isFalse => rfl

/-- A loop over all pieces that changes the availability of those in a bitfield, each on
its own. -/
theorem getAvailability_foldl {op : PiecePicker n → ℕ → PiecePicker n} {g : UInt32 → UInt32}
    (hop : ∀ pp j i, i < n → (op pp j).getAvailability i =
      if i = j then g (pp.getAvailability i) else pp.getAvailability i)
    (hi : i < n) {l : List ℕ} (hl : l.Nodup) (pp : PiecePicker n) :
    (l.foldl (fun pp j => if bitfield.has j then op pp j else pp) pp).getAvailability i =
      if i ∈ l ∧ bitfield.has i = true then g (pp.getAvailability i)
      else pp.getAvailability i := by
  induction l generalizing pp with
  | nil => simp
  | cons j l ih =>
    rw [List.nodup_cons] at hl
    rw [List.foldl_cons, ih hl.2]
    by_cases hij : i = j
    · -- the counter is changed now, and left alone from here on
      subst hij
      rw [if_neg fun hc => hl.1 hc.1]
      cases hb : bitfield.has i with
      | true => rw [if_pos rfl, hop pp i i hi, if_pos rfl, if_pos ⟨List.mem_cons_self, rfl⟩]
      | false => rw [if_neg Bool.false_ne_true, if_neg fun hc => Bool.false_ne_true hc.2]
    · have hsame : (if bitfield.has j then op pp j else pp).getAvailability i =
          pp.getAvailability i := by
        split
        case isTrue => rw [hop pp j i hi, if_neg hij]
        case isFalse => rfl
      simp only [hsame, List.mem_cons, hij, false_or]

theorem getAvailability_addPeerBitfield (hi : i < n) :
    (pp.addPeerBitfield bitfield).getAvailability i =
      if bitfield.has i then pp.getAvailability i + 1 else pp.getAvailability i := by
  rw [addPeerBitfield, getAvailability_foldl (g := fun a => a + 1)
    (fun _ _ _ hi => getAvailability_addAvailability hi) hi List.nodup_range]
  simp [hi]

theorem getAvailability_removePeerBitfield (hi : i < n) :
    (pp.removePeerBitfield bitfield).getAvailability i =
      if bitfield.has i then (if 0 < pp.getAvailability i then pp.getAvailability i - 1 else 0)
      else pp.getAvailability i := by
  rw [removePeerBitfield, getAvailability_foldl (g := fun a => if 0 < a then a - 1 else 0)
    (fun _ _ _ hi => getAvailability_removeAvailability hi) hi List.nodup_range]
  simp [hi]

end Histogram

end PiecePicker

end TransferEngine
