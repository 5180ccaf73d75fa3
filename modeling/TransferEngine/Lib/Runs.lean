import Mathlib.Data.Finset.Card
import Mathlib.Data.List.Induction
import Mathlib.Logic.Relation

/-!
# Guarded runs of an input machine

A machine is a step function `step : σ → ι → σ`: one input, one new state. What
is said of it is said of its *runs*, and a run usually comes with a promise about
its inputs: “no connection is registered twice”, “every block fits its piece”.
`Runs.Reach step ok s₀ l s` says that the inputs `l` lead from `s₀` to `s`
and that every one of them met its guard `ok` in the state it was given in.
With the guard `Runs.free` there is no promise at all.

The same thing without a derivation is `Runs.Throughout step s₀ l ok`: at every
place of `l` the input there meets `ok` in the state the inputs before it lead to.
The two agree (`Runs.reach_iff`); the first is what proofs do induction on, the
second is what a statement about one given run reads best as. A promise that looks at the
inputs before a place, and not only at the state they lead to, is `Runs.Along`.

Two rules carry every proof about runs: `Runs.Reach.invariant`, for a property of
the state alone, and `Runs.Reach.history`, for a property that also reads the
inputs so far. A step that is itself a chain of smaller moves is handled by
`Runs.preserved_chain`. Two more are about how far a run has come: what it has collected is
counted by `Runs.Reach.card_eq_countP`, and a run with less and less left to do is brought to
an end by `Runs.Reach.exists_finish`.

Machines that run side by side take their steps in any order. What one of them does in a run of
all is a run of its own (`Runs.Reach.part`).
-/

namespace Runs

variable {σ ι : Type*}

/-- **A guarded run**: the inputs `l` lead from `s₀` to the last argument, and each
of them met `ok` in the state it was given in. -/
inductive Reach (step : σ → ι → σ) (ok : σ → ι → Prop) (s₀ : σ) : List ι → σ → Prop
  /-- The empty run. -/
  | nil : Reach step ok s₀ [] s₀
  /-- One more input, allowed in the state the run had reached. -/
  | snoc {l : List ι} {s : σ} {a : ι} :
      Reach step ok s₀ l s → ok s a → Reach step ok s₀ (l ++ [a]) (step s a)

/-- The guard that promises nothing. -/
def free (_ : σ) (_ : ι) : Prop := True

variable {step : σ → ι → σ} {ok : σ → ι → Prop} {s₀ s : σ} {l : List ι}

/-- The state a run reaches is the fold of its inputs. -/
theorem Reach.eq_foldl (h : Reach step ok s₀ l s) : s = l.foldl step s₀ := by
  induction h with
  | nil => rfl
  | snoc _ _ ih => rw [List.foldl_append, ← ih, List.foldl_cons, List.foldl_nil]

/-- **The invariant rule, with the inputs in view.** -/
theorem Reach.history {I : List ι → σ → Prop} (h : Reach step ok s₀ l s) (h₀ : I [] s₀)
    (hstep : ∀ l s a, Reach step ok s₀ l s → I l s → ok s a → I (l ++ [a]) (step s a)) :
    I l s := by
  induction h with
  | nil => exact h₀
  | snoc hr ha ih => exact hstep _ _ _ hr ih ha

/-- **The invariant rule.** What holds at the start and is preserved by every
allowed step holds of every state a run reaches. -/
theorem Reach.invariant {I : σ → Prop} (h : Reach step ok s₀ l s) (h₀ : I s₀)
    (hstep : ∀ s a, I s → ok s a → I (step s a)) : I s :=
  h.history (I := fun _ s => I s) h₀ fun _ s a _ hI ha => hstep s a hI ha

/-! ### Places of a run -/

/-- **At every place of `l`** the elements before it and the element there satisfy `P`. -/
def Along (l : List ι) (P : List ι → ι → Prop) : Prop :=
  ∀ l₁ a l₂, l = l₁ ++ a :: l₂ → P l₁ a

theorem along_nil (P : List ι → ι → Prop) : Along [] P := fun l₁ a l₂ h => by simp at h

theorem along_cons {P : List ι → ι → Prop} {a : ι} :
    Along (a :: l) P ↔ P [] a ∧ Along l fun l₁ b => P (a :: l₁) b := by
  constructor
  · intro h
    exact ⟨h [] a l rfl, fun l₁ b l₂ hl => h (a :: l₁) b l₂ (by rw [hl, List.cons_append])⟩
  · rintro ⟨ha, h⟩ (_ | ⟨c, l₁⟩) b l₂ hl
    · obtain ⟨rfl, rfl⟩ := List.cons.inj hl
      exact ha
    · obtain ⟨rfl, rfl⟩ := List.cons.inj hl
      exact h l₁ b l₂ rfl

theorem along_snoc {P : List ι → ι → Prop} {a : ι} :
    Along (l ++ [a]) P ↔ Along l P ∧ P l a := by
  constructor
  · intro h
    exact ⟨fun l₁ b l₂ hl => h l₁ b (l₂ ++ [a]) (by simp [hl]), h l a [] rfl⟩
  · rintro ⟨h, ha⟩ l₁ b l₂ hl
    rcases List.eq_nil_or_concat l₂ with rfl | ⟨l₂', c, rfl⟩
    · obtain ⟨rfl, hb⟩ := List.append_inj' hl rfl
      obtain rfl : a = b := by simpa using hb
      exact ha
    · rw [List.concat_eq_append, ← List.cons_append, ← List.append_assoc] at hl
      exact h l₁ b l₂' (List.append_inj' hl rfl).1

/-- **At every step of the run `l`** from `s₀`, the input and the state it is given in
satisfy `P`. -/
def Throughout (step : σ → ι → σ) (s₀ : σ) (l : List ι) (P : σ → ι → Prop) : Prop :=
  Along l fun l₁ a => P (l₁.foldl step s₀) a

theorem throughout_nil (P : σ → ι → Prop) : Throughout step s₀ [] P := along_nil _

theorem throughout_cons {P : σ → ι → Prop} {a : ι} :
    Throughout step s₀ (a :: l) P ↔ P s₀ a ∧ Throughout step (step s₀ a) l P :=
  along_cons

theorem throughout_snoc {P : σ → ι → Prop} {a : ι} :
    Throughout step s₀ (l ++ [a]) P ↔ Throughout step s₀ l P ∧ P (l.foldl step s₀) a :=
  along_snoc

/-- A property of steps that can be decided can be decided for a run. -/
def decidableThroughout {P : σ → ι → Prop} [∀ s a, Decidable (P s a)] :
    (l : List ι) → (s₀ : σ) → Decidable (Throughout step s₀ l P)
  | [], _ => isTrue (throughout_nil P)
  | a :: l, s₀ =>
    haveI := decidableThroughout (P := P) l (step s₀ a)
    decidable_of_iff (P s₀ a ∧ Throughout step (step s₀ a) l P) throughout_cons.symm

instance {P : σ → ι → Prop} [∀ s a, Decidable (P s a)] (l : List ι) (s₀ : σ) :
    Decidable (Throughout step s₀ l P) :=
  decidableThroughout l s₀

/-- **Runs with a derivation and runs without one.** -/
theorem reach_iff : Reach step ok s₀ l s ↔ s = l.foldl step s₀ ∧ Throughout step s₀ l ok := by
  constructor
  · intro h
    refine ⟨h.eq_foldl, ?_⟩
    induction h with
    | nil => exact throughout_nil _
    | snoc hr ha ih => exact throughout_snoc.mpr ⟨ih, hr.eq_foldl ▸ ha⟩
  · rintro ⟨rfl, h⟩
    induction l using List.reverseRecOn with
    | nil => exact .nil
    | append_singleton l a ih =>
      obtain ⟨hl, ha⟩ := throughout_snoc.mp h
      rw [List.foldl_append]
      exact (ih hl).snoc ha

/-- At every place of a run, the inputs before it are a run, and the input there is allowed. -/
theorem Reach.places (h : Reach step ok s₀ l s) :
    Along l fun l₁ a => ∃ s₁, Reach step ok s₀ l₁ s₁ ∧ ok s₁ a := by
  induction h with
  | nil => exact along_nil _
  | snoc hr ha ih => exact along_snoc.mpr ⟨ih, _, hr, ha⟩

/-- Without a promise, every list of inputs is a run. -/
theorem reach_free (l : List ι) : Reach step free s₀ l (l.foldl step s₀) :=
  reach_iff.mpr ⟨rfl, fun _ _ _ _ => trivial⟩

/-- **Chains of moves preserve what one move preserves.** -/
theorem preserved_chain {move : σ → σ → Prop} {I : σ → Prop} {s t : σ}
    (h : Relation.ReflTransGen move s t) (hmove : ∀ a b, I a → move a b → I b) (hs : I s) :
    I t := by
  induction h with
  | refl => exact hs
  | tail _ hm ih => exact hmove _ _ ih hm

/-! ### How far a run has come -/

/-- **What a run has collected.** If an input that is marked adds an element that was not there,
and no other input changes the collection, then a run has collected as many elements as it had
marked inputs. -/
theorem Reach.card_eq_countP {κ : Type*} [DecidableEq κ] {I : σ → Prop} {f : σ → Finset κ}
    {mark : ι → Bool} (h : Reach step ok s₀ l s) (h₀ : I s₀) (hf : f s₀ = ∅)
    (hstep : ∀ s a, I s → ok s a → I (step s a))
    (hadd : ∀ s a, I s → ok s a → mark a = true → ∃ k ∉ f s, f (step s a) = insert k (f s))
    (hkeep : ∀ s a, I s → ok s a → mark a = false → f (step s a) = f s) :
    (f s).card = l.countP mark := by
  induction h with
  | nil => rw [hf, Finset.card_empty, List.countP_nil]
  | @snoc l s a hr ha ih =>
    have hI : I s := hr.invariant h₀ hstep
    rw [List.countP_append, ← ih]
    cases hm : mark a with
    | false =>
      rw [hkeep s a hI ha hm, List.countP_singleton, hm, if_neg Bool.false_ne_true, Nat.add_zero]
    | true =>
      obtain ⟨k, hk, hins⟩ := hadd s a hI ha hm
      rw [hins, Finset.card_insert_of_notMem hk, List.countP_singleton, hm, if_pos rfl]

/-- **A run that can go on comes to an end**: if in every state in which something is left there
is an input after which there is one less, then every run has a continuation, of as many inputs
as are left, after which nothing is. -/
theorem Reach.exists_finish {I : σ → Prop} {Q : ι → Prop} {m : σ → ℕ}
    (hnext : ∀ s, I s → m s ≠ 0 →
      ∃ a, Q a ∧ ok s a ∧ I (step s a) ∧ m (step s a) + 1 = m s)
    (h : Reach step ok s₀ l s) (hI : I s) :
    ∃ l' s', Reach step ok s₀ (l ++ l') s' ∧ (∀ a ∈ l', Q a) ∧ I s' ∧ m s' = 0 ∧
      l'.length = m s := by
  induction hn : m s generalizing l s with
  | zero => exact ⟨[], s, by rwa [List.append_nil], by simp, hI, hn, rfl⟩
  | succ n ih =>
    obtain ⟨a, hQ, ha, hI', hless⟩ := hnext s hI (by omega)
    obtain ⟨l', s', hr, hall, hIs, hz, hlen⟩ := ih (h.snoc ha) hI' (by omega)
    refine ⟨a :: l', s', ?_, ?_, hIs, hz, by rw [List.length_cons, hlen]⟩
    · rwa [List.append_assoc, List.singleton_append] at hr
    · exact List.forall_mem_cons.mpr ⟨hQ, hall⟩

/-! ### Machines side by side -/

section Parts

variable {κ τ : Type*} [DecidableEq κ]

/-- The inputs of one of several machines. -/
def part (k : κ) (l : List (κ × ι)) : List ι :=
  l.filterMap fun a => if a.1 = k then some a.2 else none

@[simp] theorem part_nil (k : κ) : part k ([] : List (κ × ι)) = [] := rfl

@[simp] theorem part_snoc_self (k : κ) (l : List (κ × ι)) (a : ι) :
    part k (l ++ [(k, a)]) = part k l ++ [a] := by
  simp [part]

theorem part_snoc_of_ne {j k : κ} (h : j ≠ k) (l : List (κ × ι)) (a : ι) :
    part k (l ++ [(j, a)]) = part k l := by
  simp [part, h]

/-- **What one machine does in a run of several** is a run of this machine. -/
theorem Reach.part {steps : τ → κ × ι → τ} {oks : τ → κ × ι → Prop} {x₀ x : τ}
    {l : List (κ × ι)} (step : κ → σ → ι → σ) (ok : κ → σ → ι → Prop) (view : κ → τ → σ)
    (h : Reach steps oks x₀ l x)
    (hself : ∀ x k a, oks x (k, a) →
      ok k (view k x) a ∧ view k (steps x (k, a)) = step k (view k x) a)
    (hother : ∀ x j k a, j ≠ k → view k (steps x (j, a)) = view k x) (k : κ) :
    Reach (step k) (ok k) (view k x₀) (Runs.part k l) (view k x) := by
  induction h with
  | nil => exact .nil
  | @snoc l x a _ ha ih =>
    obtain ⟨j, a⟩ := a
    by_cases hjk : j = k
    · subst hjk
      obtain ⟨hok, hview⟩ := hself x j a ha
      rw [part_snoc_self, hview]
      exact ih.snoc hok
    · rwa [part_snoc_of_ne hjk, hother x j k a hjk]

end Parts

end Runs
