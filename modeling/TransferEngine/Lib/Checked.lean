import Mathlib.Data.Nat.Notation

/-!
# Checked computations

Some operations of a program have no result for some of their arguments: a sum that leaves its
type, a division by zero. A computation that checks them fails in two ways. It *throws*, where
the program does, and it *traps*, at an operation that has no result (`Checked.orTrap`).

It stands beside a computation that checks nothing and that has some outcome or other where the
checked one traps (`Checked.Follows`). Whether a computation traps is read off its parts, by one
rule for sequences (`Checked.traps_bind`), and it is all there is to say: where nothing traps, the
two have the same outcome (`Checked.Follows.same_iff`).
-/

namespace Checked

universe u v

/-- How a checked computation may fail. -/
inductive Failure (ε ω : Type u) : Type u
  /-- It throws. -/
  | thrown (e : ε)
  /-- An operation has no result. -/
  | trapped (op : ω)
  deriving DecidableEq

variable {ε ω : Type u} {α β γ δ : Type v} {op : ω}

/-- What throws may throw. -/
def throwing : Except ε α → Except (Failure ε ω) α := Except.mapError .thrown

theorem throwing_eq_ok {y : Except ε α} {a : α} :
    (throwing y : Except (Failure ε ω) α) = .ok a ↔ y = .ok a := by
  cases y with
  | ok b => exact ⟨fun h => by cases h; rfl, fun h => by cases h; rfl⟩
  | error e => exact iff_of_false (fun h => nomatch h) (fun h => nomatch h)

/-- An operation that has to have a result. -/
def orTrap (op : ω) : Option α → Except (Failure ε ω) α
  | none => .error (.trapped op)
  | some a => .ok a

theorem orTrap_eq_ok {o : Option α} {a : α} :
    (orTrap op o : Except (Failure ε ω) α) = .ok a ↔ o = some a := by
  cases o with
  | none => exact iff_of_false (fun h => nomatch h) (fun h => nomatch h)
  | some b => rw [orTrap, Except.ok.injEq, Option.some.injEq]

/-! ### Following a computation that checks nothing -/

section Follows

variable {r : α → β} {q : γ → δ}

/-- **The outcome of the one is that of the other**, but where an operation traps. -/
def Follows (r : α → β) (x : Except (Failure ε ω) α) (y : Except ε β) : Prop :=
  (∀ a, x = .ok a → y = .ok (r a)) ∧ ∀ e, x = .error (.thrown e) → y = .error e

theorem follows_ok (r : α → β) (a : α) :
    Follows r (.ok a : Except (Failure ε ω) α) (.ok (r a)) :=
  ⟨fun _ h => by cases h; rfl, fun _ h => nomatch h⟩

theorem follows_error (r : α → β) (e : ε) :
    Follows r (.error (.thrown e) : Except (Failure ε ω) α) (.error e) :=
  ⟨fun _ h => (nomatch h), fun _ h => by cases h; rfl⟩

theorem follows_trapped (r : α → β) (op : ω) (y : Except ε β) :
    Follows r (.error (.trapped op)) y :=
  ⟨fun _ h => (nomatch h), fun _ h => (nomatch h)⟩

theorem follows_throwing (y : Except ε α) :
    Follows id (throwing y : Except (Failure ε ω) α) y := by
  cases y with
  | ok a => exact follows_ok id a
  | error e => exact follows_error id e

/-- **Sequences** follow part by part. -/
theorem Follows.bind {x : Except (Failure ε ω) α} {y : Except ε β}
    {f : α → Except (Failure ε ω) γ} {g : β → Except ε δ} (h : Follows r x y)
    (hf : ∀ a, Follows q (f a) (g (r a))) : Follows q (x >>= f) (y >>= g) := by
  rcases x with (e | op) | a
  · rw [h.2 e rfl]
    exact follows_error q e
  · exact follows_trapped q op _
  · rw [h.1 a rfl]
    exact hf a

/-- After an operation that has a result, the rest has to follow. -/
theorem follows_orTrap_bind {o : Option γ} {f : γ → Except (Failure ε ω) α} {y : Except ε β}
    (h : ∀ a, o = some a → Follows r (f a) y) : Follows r (orTrap op o >>= f) y := by
  cases o with
  | none => exact follows_trapped r op y
  | some a => exact h a rfl

end Follows

/-! ### Where a computation traps -/

/-- An operation has no result. -/
def Traps (x : Except (Failure ε ω) α) : Prop := ∃ op, x = .error (.trapped op)

theorem not_traps_ok (a : α) : ¬Traps (.ok a : Except (Failure ε ω) α) := fun ⟨_, h⟩ => nomatch h

theorem not_traps_thrown (e : ε) : ¬Traps (.error (.thrown e) : Except (Failure ε ω) α) :=
  fun ⟨_, h⟩ => nomatch h

theorem not_traps_throwing (y : Except ε α) :
    ¬Traps (throwing y : Except (Failure ε ω) α) := by
  cases y with
  | ok a => exact not_traps_ok a
  | error e => exact not_traps_thrown e

/-- **A sequence traps** in its first part, or in the rest after it. -/
theorem traps_bind {x : Except (Failure ε ω) α} {f : α → Except (Failure ε ω) β} :
    Traps (x >>= f) ↔ Traps x ∨ ∃ a, x = .ok a ∧ Traps (f a) := by
  rcases x with (e | op) | a
  · refine iff_of_false (not_traps_thrown e) ?_
    rintro (h | ⟨a, h, -⟩)
    · exact not_traps_thrown e h
    · cases h
  · exact iff_of_true ⟨op, rfl⟩ (Or.inl ⟨op, rfl⟩)
  · constructor
    · exact fun h => Or.inr ⟨a, rfl, h⟩
    · rintro (h | ⟨a', h, h'⟩)
      · exact absurd h (not_traps_ok a)
      · cases h
        exact h'

/-- After something that only throws, the rest can trap. -/
theorem traps_throwing_bind {y : Except ε α} {f : α → Except (Failure ε ω) β} :
    Traps (throwing y >>= f) ↔ ∃ a, y = .ok a ∧ Traps (f a) := by
  rw [traps_bind, or_iff_right (not_traps_throwing y)]
  exact exists_congr fun a => and_congr_left' throwing_eq_ok

/-- An operation traps, or it has a result and the rest traps. -/
theorem traps_orTrap_bind {o : Option α} {f : α → Except (Failure ε ω) β} :
    Traps (orTrap op o >>= f) ↔ ∀ a, o = some a → Traps (f a) := by
  cases o with
  | none => exact iff_of_true ⟨op, rfl⟩ fun a h => nomatch h
  | some a =>
    constructor
    · rintro h a' ⟨⟩
      exact h
    · exact fun h => h a rfl

theorem traps_orTrap {o : Option α} :
    Traps (orTrap op o : Except (Failure ε ω) α) ↔ o = none := by
  cases o with
  | none => exact iff_of_true ⟨op, rfl⟩ rfl
  | some a => exact iff_of_false (not_traps_ok a) fun h => nomatch h

/-- **Both return or both throw**, exactly where nothing traps. -/
theorem Follows.same_iff {r : α → β} {x : Except (Failure ε ω) α} {y : Except ε β}
    (h : Follows r x y) : ((∃ a, x = .ok a ∧ y = .ok (r a)) ∨
      ∃ e, x = .error (.thrown e) ∧ y = .error e) ↔ ¬Traps x := by
  obtain ⟨hok, herr⟩ := h
  rcases x with (e | op) | a
  · exact iff_of_true (Or.inr ⟨e, rfl, herr e rfl⟩) (not_traps_thrown e)
  · refine iff_of_false ?_ fun h => h ⟨op, rfl⟩
    rintro (⟨a, h, -⟩ | ⟨e, h, -⟩)
    · cases h
    · cases h
  · exact iff_of_true (Or.inl ⟨a, rfl, hok a rfl⟩) (not_traps_ok a)

end Checked
