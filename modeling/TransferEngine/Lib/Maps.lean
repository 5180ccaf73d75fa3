import Mathlib.Data.List.AList

/-!
# Keyed maps

What is found in a map after an entry is written or removed, and how many entries of a map have
a property, and how that changes when one entry does. Every other entry is counted by the map
without the key, `AList.erase`, so the lemmas compare with that one.
-/

namespace AList

variable {α : Type*} {β : α → Type*} {f : Sigma β → Bool} {s : AList β}

/-- The number of entries with a property. -/
def countEntries (f : Sigma β → Bool) (s : AList β) : ℕ := s.entries.countP f

/-- No more entries have a property than there are. -/
theorem countEntries_le : s.countEntries f ≤ s.keys.length := by
  rw [countEntries, keys, List.keys, List.length_map]
  exact List.countP_le_length

variable [DecidableEq α] {a : α} {b : β a}

/-- **An entry is counted apart from the others.** -/
theorem countEntries_of_lookup (h : s.lookup a = some b) :
    s.countEntries f = (s.erase a).countEntries f + if f ⟨a, b⟩ then 1 else 0 := by
  have hmem : Sigma.mk a b ∈ s.entries := mem_lookup_iff.mp h
  obtain ⟨b', l₁, l₂, hl₁, hl, hk⟩ := List.exists_of_kerase (List.mem_keys_of_mem hmem)
  have hb : b' = b := by
    have hb' : Sigma.mk a b' ∈ s.entries := by
      rw [hl]
      simp
    exact Option.some.inj ((mem_lookup_iff.mpr hb').symm.trans h)
  show s.entries.countP f = (s.entries.kerase a).countP f + _
  rw [hk, hl, hb, List.countP_append, List.countP_append, List.countP_cons, Nat.add_assoc]

/-- The entries of a map without a key it does not have. -/
theorem countEntries_erase_of_none (h : s.lookup a = none) :
    (s.erase a).countEntries f = s.countEntries f := by
  show (s.entries.kerase a).countP f = _
  rw [List.kerase_of_notMem_keys]
  · rfl
  · exact lookup_eq_none.mp h

/-- **Counting after an entry is written.** -/
theorem countEntries_insert :
    (s.insert a b).countEntries f = (s.erase a).countEntries f + if f ⟨a, b⟩ then 1 else 0 := by
  show (s.insert a b).entries.countP f = (s.entries.kerase a).countP f + _
  rw [entries_insert, List.countP_cons]

/-- The number of keys, with one of them counted apart. -/
theorem length_keys_of_lookup (h : s.lookup a = some b) :
    s.keys.length = (s.erase a).keys.length + 1 := by
  have := countEntries_of_lookup (f := fun _ => true) h
  simpa [countEntries, keys, List.keys] using this

theorem length_keys_insert : (s.insert a b).keys.length = (s.erase a).keys.length + 1 := by
  have := countEntries_insert (f := fun _ => true) (s := s) (b := b)
  simpa [countEntries, keys, List.keys] using this

/-- Writing over an entry keeps the number of keys. -/
theorem length_keys_insert_of_lookup {b' : β a} (h : s.lookup a = some b') :
    (s.insert a b).keys.length = s.keys.length := by
  rw [length_keys_insert, length_keys_of_lookup h]

theorem length_keys_erase_of_none (h : s.lookup a = none) :
    (s.erase a).keys.length = s.keys.length := by
  have := countEntries_erase_of_none (f := fun _ => true) h
  simpa [countEntries, keys, List.keys] using this

/-! ### Looking up -/

section Lookup

variable {β : Type*} {s : AList fun _ : α => β} {a a' : α} {b b' : β}

/-- **What is found after an entry is written**: it, or another key as before. -/
theorem of_lookup_insert (h : (s.insert a b).lookup a' = some b') :
    (a' = a ∧ b' = b) ∨ (a' ≠ a ∧ s.lookup a' = some b') := by
  by_cases ha : a' = a
  · subst ha
    rw [lookup_insert] at h
    exact Or.inl ⟨rfl, (Option.some.inj h).symm⟩
  · rw [lookup_insert_ne ha] at h
    exact Or.inr ⟨ha, h⟩

/-- **What is found after an entry is removed**: another key as before. -/
theorem of_lookup_erase (h : (s.erase a).lookup a' = some b') :
    a' ≠ a ∧ s.lookup a' = some b' := by
  by_cases ha : a' = a
  · subst ha
    rw [lookup_erase] at h
    cases h
  · rw [lookup_erase_ne ha] at h
    exact ⟨ha, h⟩

end Lookup

end AList
