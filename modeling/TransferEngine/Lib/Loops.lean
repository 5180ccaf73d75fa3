import Mathlib.Data.Nat.Notation

/-!
# Loops

The body of a loop is a function `body : σ → σ ⊕ ρ`. A round that is begun in a state either
leads to another round, begun in the state `Sum.inl s`, or leaves the loop with the result
`Sum.inr r`. Nothing bounds the number of rounds: that a loop begun in `s` is left at all, and
with what, is a proposition, `Loops.Exits body s r`.

The result is unique (`Loops.Exits.unique`), and it has what an invariant of the rounds gives
it (`Loops.Exits.rule`). There is one where every round lowers a measure, and then a loop that
is written with a bound on its rounds, `Loops.bounded`, finds it if the bound is above the
measure (`Loops.exits_bounded`).
-/

namespace Loops

variable {σ ρ : Type*} {body : σ → σ ⊕ ρ} {s s' : σ} {r r' : ρ}

/-- **A loop begun in a state is left with a result.** -/
inductive Exits (body : σ → σ ⊕ ρ) : σ → ρ → Prop
  /-- The round leaves the loop. -/
  | leave {s : σ} {r : ρ} : body s = .inr r → Exits body s r
  /-- The round leads to another one. -/
  | again {s s' : σ} {r : ρ} : body s = .inl s' → Exits body s' r → Exits body s r

/-- **A loop has one result.** -/
theorem Exits.unique (h : Exits body s r) (h' : Exits body s r') : r = r' := by
  induction h with
  | leave hr =>
    cases h' with
    | leave hr' => exact Sum.inr.inj (hr.symm.trans hr')
    | again hs' => cases hr.symm.trans hs'
  | again hs _ ih =>
    cases h' with
    | leave hr' => cases hs.symm.trans hr'
    | again hs' h' =>
      obtain rfl := Sum.inl.inj (hs.symm.trans hs')
      exact ih h'

/-- **The rule for what a loop leaves behind.** -/
theorem Exits.rule {I : σ → Prop} {Q : ρ → Prop} (h : Exits body s r) (hs : I s)
    (hagain : ∀ s s', I s → body s = .inl s' → I s')
    (hleave : ∀ s r, I s → body s = .inr r → Q r) : Q r := by
  induction h with
  | leave hr => exact hleave _ _ hs hr
  | again hs' _ ih => exact ih (hagain _ _ hs hs')

/-- The loop with a bound on the number of rounds, and what to answer where the bound is
reached. -/
def bounded (out : σ → ρ) (body : σ → σ ⊕ ρ) : ℕ → σ → ρ
  | 0, s => out s
  | fuel + 1, s =>
    match body s with
    | .inl s' => bounded out body fuel s'
    | .inr r => r

/-- **The rule for a loop with a bound**: what every round keeps, whether it leads to another one
or leaves the loop, is kept by the loop, whether or not it reaches the bound. -/
theorem bounded_rule {body : σ → σ ⊕ σ} {I : σ → Prop} (fuel : ℕ) (hs : I s)
    (hround : ∀ s, I s → I ((body s).elim id id)) : I (bounded id body fuel s) := by
  induction fuel generalizing s with
  | zero => exact hs
  | succ fuel ih =>
    have hnext := hround s hs
    rw [bounded]
    rcases hb : body s with s' | r
    · rw [hb] at hnext
      exact ih hnext
    · rwa [hb] at hnext

/-- **A loop whose rounds lower a measure is left**, and a bound above the measure is not what
ends it. -/
theorem exits_bounded {I : σ → Prop} {measure : σ → ℕ} (out : σ → ρ)
    (hagain : ∀ s s', I s → body s = .inl s' → I s' ∧ measure s' < measure s) (fuel : ℕ)
    (hs : I s) (hfuel : measure s < fuel) : Exits body s (bounded out body fuel s) := by
  induction fuel generalizing s with
  | zero => exact absurd hfuel (Nat.not_lt_zero _)
  | succ fuel ih =>
    rw [bounded]
    rcases hb : body s with s' | r
    · obtain ⟨hs', hlt⟩ := hagain s s' hs hb
      exact .again hb (ih hs' (Nat.lt_of_lt_of_le hlt (Nat.le_of_lt_succ hfuel)))
    · exact .leave hb

end Loops
