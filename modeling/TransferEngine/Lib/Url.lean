import Mathlib.Data.List.Basic
import Mathlib.Data.List.Forall2
import Mathlib.Data.List.TakeWhile
import TransferEngine.Lib.Percent

/-!
# Queries of URLs

A request for a URL carries what is before its fragment (`Url.sent`). The query of a URL is what is
behind the first question mark there (`Url.query`); ampersands separate its fields, and in a field
an equals sign separates a name from a value, both of them percent-encoded (`Url.parameters`).

A field that spells a name and a value (`Url.Spells`) adds them at the end, whatever the query has
been before (`Url.parameters_append`), as long as it is not behind a fragment
(`Url.sent_append_of_mem`).
-/

namespace Url

open Percent

/-- What is before the first separator. -/
def before (sep : UInt8) (x : List UInt8) : List UInt8 := x.takeWhile (· ≠ sep)

/-- What is behind it. -/
def behind (sep : UInt8) (x : List UInt8) : List UInt8 := x.drop ((before sep x).length + 1)

/-- What is sent of a URL: everything but its fragment. -/
def sent (url : List UInt8) : List UInt8 := before 0x23 url

/-- What is requested: the URL up to its query. -/
def resource (url : List UInt8) : List UInt8 := before 0x3f (sent url)

/-- The query of a URL. -/
def query (url : List UInt8) : List UInt8 := behind 0x3f (sent url)

/-- A name and its value. -/
abbrev Parameter := List UInt8 × List UInt8

/-- What a field says, if its escapes have a meaning. -/
def field (x : List UInt8) : Option Parameter := do
  let name ← decode (before 0x3d x)
  let value ← decode (behind 0x3d x)
  return (name, value)

/-- **The parameters in a query**, in their order. -/
def parameters (query : List UInt8) : Option (List Parameter) :=
  (query.splitOn 0x26).mapM field

/-- The characters of fields: unreserved ones, percent signs and equals signs. -/
def Plain (b : UInt8) : Prop := b = 0x3d ∨ b = percent ∨ Unreserved b

instance : DecidablePred Plain := fun _ => inferInstanceAs (Decidable (_ ∨ _))

/-- **A field spells a parameter**, in plain characters. -/
structure Spells (x : List UInt8) (p : Parameter) : Prop where
  /-- It is read as the parameter. -/
  field_eq : field x = some p
  /-- Its characters are plain. -/
  plain : ∀ b ∈ x, Plain b

variable {sep : UInt8} {x y q name value : List UInt8} {p : Parameter} {fields : List (List UInt8)}
  {ps : List Parameter}

/-! ### Separators -/

theorem ne_of_not_mem (h : sep ∉ x) : ∀ b ∈ x, decide (b ≠ sep) = true := by
  intro b hb
  rw [decide_eq_true_iff]
  rintro rfl
  exact h hb

theorem before_of_not_mem (h : sep ∉ x) : before sep x = x :=
  List.takeWhile_eq_self_iff.mpr (ne_of_not_mem h)

theorem before_append_cons (h : sep ∉ x) : before sep (x ++ sep :: y) = x := by
  rw [before, List.takeWhile_append_of_pos (ne_of_not_mem h), List.takeWhile_cons_of_neg (by simp),
    List.append_nil]

theorem behind_append_cons (h : sep ∉ x) : behind sep (x ++ sep :: y) = y := by
  rw [behind, before_append_cons h, ← List.drop_drop, List.drop_left]
  rfl

/-- What is added behind a separator does not change what is before it. -/
theorem before_append_of_mem (h : sep ∈ x) (y : List UInt8) :
    before sep (x ++ y) = before sep x := by
  obtain ⟨x₁, x₂, rfl, hx₁⟩ := List.eq_append_cons_of_mem h
  rw [List.append_assoc, List.cons_append, before_append_cons hx₁, before_append_cons hx₁]

theorem behind_append_of_mem (h : sep ∈ x) (y : List UInt8) :
    behind sep (x ++ y) = behind sep x ++ y := by
  obtain ⟨x₁, x₂, rfl, hx₁⟩ := List.eq_append_cons_of_mem h
  rw [List.append_assoc, List.cons_append, behind_append_cons hx₁, behind_append_cons hx₁]

/-- **What is added behind a fragment is not sent.** -/
theorem sent_append_of_mem (h : 0x23 ∈ x) (y : List UInt8) : sent (x ++ y) = sent x :=
  before_append_of_mem h y

theorem sent_of_not_mem (h : 0x23 ∉ x) : sent x = x := before_of_not_mem h

/-! ### Fields -/

/-- Unreserved characters stand for themselves. -/
theorem decode_of_unreserved (h : ∀ b ∈ x, Unreserved b) : decode x = some x := by
  induction x with
  | nil => rfl
  | cons b x ih =>
    have hb : b ≠ percent := by
      rintro rfl
      exact absurd (h _ List.mem_cons_self) (by decide)
    have hx := ih fun b' hb' => h b' (List.mem_cons_of_mem _ hb')
    have happ := decode_append (.literal hb) x
    rwa [hx, Option.map_some] at happ

/-- **A field**: a name of unreserved characters, and an encoded value without delimiters. -/
theorem spells_append_cons (hname : ∀ b ∈ name, Unreserved b)
    (hx : ∀ b ∈ x, b = percent ∨ Unreserved b) (hvalue : decode x = some value) :
    Spells (name ++ 0x3d :: x) (name, value) where
  field_eq := by
    have hsep : 0x3d ∉ name := fun hmem => absurd (hname _ hmem) (by decide)
    rw [field, before_append_cons hsep, behind_append_cons hsep, decode_of_unreserved hname, hvalue]
    rfl
  plain := by
    intro b hmem
    rcases List.mem_append.mp hmem with hmem | hmem
    · exact Or.inr (Or.inr (hname b hmem))
    · exact (List.mem_cons.mp hmem).imp_right (hx b)

/-- The characters of fields behind ampersands. -/
theorem plain_of_mem_flatMap (h : List.Forall₂ Spells fields ps) {b : UInt8}
    (hb : b ∈ fields.flatMap (0x26 :: ·)) : b = 0x26 ∨ Plain b := by
  induction h with
  | nil => cases hb
  | cons hx _ ih =>
    rw [List.flatMap_cons, List.mem_append, List.mem_cons] at hb
    rcases hb with (rfl | hb) | hb
    · exact Or.inl rfl
    · exact Or.inr (hx.plain b hb)
    · exact ih hb

/-! ### Parameters -/

theorem parameters_field (h : Spells x p) : parameters x = some [p] := by
  have hone : x.splitOn 0x26 = [x] := by
    refine List.splitOnP_eq_singleton fun b hb => ?_
    rw [beq_eq_false_iff_ne]
    rintro rfl
    exact absurd (h.plain _ hb) (by decide)
  rw [parameters, hone, List.mapM_cons, h.field_eq]
  rfl

/-- **One more field** is one more parameter. -/
theorem parameters_append_cons (h : Spells x p) (q : List UInt8) :
    parameters (q ++ 0x26 :: x) = (parameters q).map (· ++ [p]) := by
  have hx := parameters_field h
  rw [parameters] at hx ⊢
  rw [List.splitOn, List.splitOnP_append_cons _ _ (by decide), List.mapM_append]
  rw [List.splitOn] at hx
  rw [hx, parameters, List.splitOn]
  rcases List.mapM field (q.splitOnP (· == 0x26)) with _ | ps
  · rfl
  · rfl

/-- **More fields** are more parameters, in the same order. -/
theorem parameters_append (h : List.Forall₂ Spells fields ps) (q : List UInt8) :
    parameters (q ++ fields.flatMap (0x26 :: ·)) = (parameters q).map (· ++ ps) := by
  induction h generalizing q with
  | nil => simp
  | cons hx _ ih =>
    rw [List.flatMap_cons, ← List.append_assoc, ih, parameters_append_cons hx, Option.map_map]
    congr 1
    funext qs
    rw [Function.comp_apply, List.append_assoc, List.singleton_append]

end Url
