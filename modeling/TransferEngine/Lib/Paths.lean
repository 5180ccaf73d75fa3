import Mathlib.Data.List.Induction
import Mathlib.Order.Basic

/-!
# Lexical normalisation of paths

A path is walked step by step: a step stays, goes up, or goes down to a name
(`Paths.Step`). Its normal form is a number of steps up, followed by names
(`Paths.Normal`); above the root of an absolute path there is nothing, so a step up from
there stays.

The main fact is `Paths.normal_append`: a walk that never leaves the place where it
started does from any place what it does on its own. Such a walk is one whose own normal
form has no steps up, and it ends properly below its start if its normal form has a name
(`Paths.below_of_inner`). A walk that leaves its start is told apart from those by a start
with a name that does not come up in it (`Paths.inner_of_below`).
-/

namespace Paths

variable {κ : Type*}

/-- One step of a walk. -/
inductive Step (κ : Type*)
  /-- Stay. -/
  | stay
  /-- Go up. -/
  | up
  /-- Go down to a name. -/
  | down (k : κ)

/-- **A normal form**: steps up, and then names. -/
structure Normal (κ : Type*) where
  /-- Whether the path starts at the root. -/
  absolute : Bool
  /-- The number of steps up. -/
  ups : ℕ := 0
  /-- The names. -/
  names : List κ := []

/-- The normal form after one more step. -/
def Normal.go (n : Normal κ) : Step κ → Normal κ
  | .stay => n
  | .up =>
    if n.names ≠ [] then { n with names := n.names.dropLast }
    else if n.absolute then n
    else { n with ups := n.ups + 1 }
  | .down k => { n with names := n.names ++ [k] }

/-- **The normal form of a walk**, from the root or from anywhere. -/
def normal (absolute : Bool) (steps : List (Step κ)) : Normal κ :=
  steps.foldl Normal.go { absolute }

/-- The place `n` is properly below `base`. -/
def Normal.Below (n base : Normal κ) : Prop :=
  n.absolute = base.absolute ∧ n.ups = base.ups ∧
    ∃ rest, rest ≠ [] ∧ n.names = base.names ++ rest

/-- A normal form that is properly below where it starts: it has names and no steps up. -/
def Normal.Inner (n : Normal κ) : Prop := n.ups = 0 ∧ n.names ≠ []

variable {steps : List (Step κ)} {b n : Normal κ} {z : κ}

/-- What a step can do. -/
theorem go_cases (n : Normal κ) (c : Step κ) :
    (c = .up ∧ n.names = [] ∧ n.absolute = false ∧ n.go c = { n with ups := n.ups + 1 }) ∨
      ((n.go c).absolute = n.absolute ∧ (n.go c).ups = n.ups ∧
        ∀ k ∈ (n.go c).names, k ∈ n.names ∨ c = .down k) := by
  cases c with
  | stay => exact Or.inr ⟨rfl, rfl, fun k hk => Or.inl hk⟩
  | down k =>
    refine Or.inr ⟨rfl, rfl, fun k' hk' => ?_⟩
    rcases List.mem_append.mp hk' with hk' | hk'
    · exact Or.inl hk'
    · exact Or.inr (by rw [List.mem_singleton.mp hk'])
  | up =>
    rw [Normal.go]
    split
    case isTrue => exact Or.inr ⟨rfl, rfl, fun k hk => Or.inl (List.dropLast_subset _ hk)⟩
    case isFalse hnames =>
      split
      case isTrue => exact Or.inr ⟨rfl, rfl, fun k hk => Or.inl hk⟩
      case isFalse habs =>
        exact Or.inl ⟨rfl, not_not.mp hnames, Bool.eq_false_iff.mpr habs, rfl⟩

theorem normal_snoc (absolute : Bool) (steps : List (Step κ)) (c : Step κ) :
    normal absolute (steps ++ [c]) = (normal absolute steps).go c := by
  rw [normal, List.foldl_append, List.foldl_cons, List.foldl_nil, ← normal]

theorem absolute_normal (absolute : Bool) (steps : List (Step κ)) :
    (normal absolute steps).absolute = absolute := by
  induction steps using List.reverseRecOn with
  | nil => rfl
  | append_singleton steps c ih =>
    rw [normal_snoc]
    rcases go_cases (normal absolute steps) c with ⟨-, -, -, hgo⟩ | ⟨hgo, -⟩
    · rw [hgo]
      exact ih
    · rw [hgo, ih]

/-- **A walk that does not leave its start** does from any place what it does on its own. -/
theorem normal_append (h : (normal false steps).ups = 0) :
    steps.foldl Normal.go b = { b with names := b.names ++ (normal false steps).names } := by
  induction steps using List.reverseRecOn with
  | nil => simp [normal]
  | append_singleton steps c ih =>
    rw [normal_snoc] at h ⊢
    rw [List.foldl_append, List.foldl_cons, List.foldl_nil]
    rcases go_cases (normal false steps) c with ⟨-, -, -, hgo⟩ | ⟨-, hups, -⟩
    · rw [hgo] at h
      cases h
    · rw [hups] at h
      rw [ih h]
      cases c with
      | stay => rfl
      | down k => simp [Normal.go]
      | up =>
        -- a step up from the start would show
        have hne : (normal false steps).names ≠ [] := by
          intro hnil
          rw [Normal.go, if_neg (not_not.mpr hnil), absolute_normal, if_neg Bool.false_ne_true]
            at hups
          exact absurd hups (Nat.succ_ne_self _)
        rw [Normal.go, Normal.go, if_pos hne, if_pos (by simp [hne]),
          List.dropLast_append_of_ne_nil hne]

/-- **A walk inwards** ends properly below any place it starts at. -/
theorem below_of_inner (h : (normal false steps).Inner) (b : Normal κ) :
    (steps.foldl Normal.go b).Below b := by
  rw [normal_append h.1]
  exact ⟨rfl, rfl, (normal false steps).names, h.2, rfl⟩

/-- A walk that leaves its start does not come back to a name that is not in it. -/
theorem not_mem_of_ups (hz : Step.down z ∉ steps) (h : 0 < (normal false steps).ups) :
    z ∉ (steps.foldl Normal.go { absolute := false, names := [z] }).names := by
  induction steps using List.reverseRecOn with
  | nil => exact absurd h (Nat.lt_irrefl _)
  | append_singleton steps c ih =>
    rw [List.mem_append, List.mem_singleton, not_or] at hz
    rw [normal_snoc] at h
    rw [List.foldl_append, List.foldl_cons, List.foldl_nil]
    rcases Nat.eq_zero_or_pos (normal false steps).ups with h₀ | hpos
    · -- the step that leaves
      rw [normal_append h₀]
      rcases go_cases (normal false steps) c with ⟨rfl, hnil, -, -⟩ | ⟨-, hups, -⟩
      · rw [hnil, Normal.go, if_pos (by simp)]
        simp
      · omega
    · rcases go_cases (steps.foldl Normal.go { absolute := false, names := [z] }) c with
        ⟨-, -, -, hgo⟩ | ⟨-, -, hnames⟩
      · rw [hgo]
        exact ih hz.1 hpos
      · intro hmem
        rcases hnames z hmem with hmem | hc
        · exact ih hz.1 hpos hmem
        · exact hz.2 hc.symm

/-- **A walk that ends below a name it does not mention** is a walk inwards. -/
theorem inner_of_below (hz : Step.down z ∉ steps)
    (h : (steps.foldl Normal.go { absolute := false, names := [z] }).Below
      { absolute := false, names := [z] }) : (normal false steps).Inner := by
  obtain ⟨-, -, rest, hne, hnames⟩ := h
  have hups : (normal false steps).ups = 0 := by
    by_contra hpos
    refine not_mem_of_ups hz (Nat.pos_of_ne_zero hpos) ?_
    rw [hnames]
    exact List.mem_append_left _ (List.mem_singleton.mpr rfl)
  rw [normal_append hups] at hnames
  refine ⟨hups, ?_⟩
  rw [List.append_cancel_left hnames]
  exact hne

end Paths
