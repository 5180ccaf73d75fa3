import Mathlib.Data.List.Basic
import Mathlib.Data.List.Lookmap

/-!
# Windows and first matches in a list

Operations that code on mutable sequences performs all the time and that a
list does not have ready-made.

* `List.overwrite l a w` lays the window `w` over `l` from position `a` on: the
  effect of copying `w` into a buffer. Its entries are read off by
  `List.getElem?_overwrite`.
* `List.modifyFirst p f l` applies `f` to the first element satisfying `p`: the
  effect of a search followed by an assignment through the iterator it returns.
  `List.modifyFirst_spec` splits the list at that element, and the other lemmas
  are read off the split.
* Two words apart by a separator that one of them has not are told apart
  (`List.append_cons_inj_left`, `List.append_cons_inj_right`).
* A field of a record that is laid out field by field is found by the lengths of the
  fields before it (`List.take_drop_flatten`).
* A list is determined by its chunks (`List.eq_of_chunks`).
* A fold over an association list, in which a field of the state is updated by the
  entry of one key, is read off by `List.foldl_field`.
-/

namespace List

variable {α β : Type*}

/-! ### Overwriting a window -/

/-- `l` with the window `w` laid over it from position `a` on. -/
def overwrite (l : List α) (a : ℕ) (w : List α) : List α :=
  l.take a ++ w ++ l.drop (a + w.length)

/-- A window inside the list does not change its length. -/
theorem length_overwrite {l : List α} {a : ℕ} {w : List α} (h : a + w.length ≤ l.length) :
    (l.overwrite a w).length = l.length := by
  simp only [overwrite, length_append, length_take, length_drop]
  omega

/-- **Reading an overwritten list**: inside the window its letters, outside it the
old ones. -/
theorem getElem?_overwrite {l : List α} {a : ℕ} {w : List α} (h : a + w.length ≤ l.length)
    (k : ℕ) : (l.overwrite a w)[k]? =
      if a ≤ k ∧ k < a + w.length then w[k - a]? else l[k]? := by
  have ha : (l.take a).length = a := by
    rw [length_take]
    omega
  rw [overwrite, append_assoc, getElem?_append, ha]
  rcases Nat.lt_or_ge k a with hk | hk
  · rw [if_pos hk, if_neg (by omega), getElem?_take, if_pos hk]
  · rw [if_neg (by omega), getElem?_append]
    rcases Nat.lt_or_ge k (a + w.length) with hk' | hk'
    · rw [if_pos (by omega), if_pos ⟨hk, hk'⟩]
    · rw [if_neg (by omega), if_neg (by omega), getElem?_drop]
      congr 1
      omega

/-! ### The first match -/

/-- `l` with `f` applied to its first element satisfying `p`, if there is one. -/
def modifyFirst (p : α → Bool) (f : α → α) (l : List α) : List α :=
  l.replaceF fun a => if p a then some (f a) else none

@[simp] theorem modifyFirst_nil (p : α → Bool) (f : α → α) : modifyFirst p f [] = [] := rfl

theorem modifyFirst_cons_pos {p : α → Bool} {f : α → α} {a : α} {l : List α} (h : p a = true) :
    modifyFirst p f (a :: l) = f a :: l := by
  simp [modifyFirst, h]

theorem modifyFirst_cons_neg {p : α → Bool} {f : α → α} {a : α} {l : List α} (h : p a = false) :
    modifyFirst p f (a :: l) = a :: modifyFirst p f l := by
  simp [modifyFirst, h]

/-- **The split at the first match**: the search finds `a` exactly when the list
opens with non-matches up to `a`, and then `f` is applied there and nowhere else. -/
theorem modifyFirst_spec {p : α → Bool} {a : α} {l : List α} (f : α → α)
    (h : l.find? p = some a) : ∃ l₁ l₂, l = l₁ ++ a :: l₂ ∧ p a = true ∧
      (∀ x ∈ l₁, p x = false) ∧ modifyFirst p f l = l₁ ++ f a :: l₂ := by
  induction l with
  | nil => simp at h
  | cons b l ih =>
    cases hb : p b with
    | true =>
      obtain rfl : b = a := by simpa [hb] using h
      exact ⟨[], l, rfl, hb, by simp, modifyFirst_cons_pos hb⟩
    | false =>
      obtain ⟨l₁, l₂, hl, ha, hl₁, hm⟩ := ih (by simpa [hb] using h)
      refine ⟨b :: l₁, l₂, by rw [hl]; rfl, ha, ?_, by rw [modifyFirst_cons_neg hb, hm]; rfl⟩
      intro x hx
      rcases mem_cons.mp hx with rfl | hx
      · exact hb
      · exact hl₁ x hx

/-- A projection that `f` does not touch is the same along the whole list. -/
theorem map_modifyFirst {p : α → Bool} {f : α → α} {g : α → β} (hg : ∀ a, g (f a) = g a)
    (l : List α) : (modifyFirst p f l).map g = l.map g := by
  induction l with
  | nil => rfl
  | cons b l ih =>
    cases hb : p b with
    | true => rw [modifyFirst_cons_pos hb, map_cons, map_cons, hg]
    | false => rw [modifyFirst_cons_neg hb, map_cons, map_cons, ih]

/-- **Searching by key after a modification.** When no two elements share a key and
`f` keeps the key, only the search for the modified element's own key answers
differently. -/
theorem find?_modifyFirst [DecidableEq β] {p : α → Bool} {f : α → α} {g : α → β} {a : α}
    {l : List α} (hf : l.find? p = some a) (hn : (l.map g).Nodup) (hg : ∀ x, g (f x) = g x)
    (k : β) : (modifyFirst p f l).find? (g · == k) =
      if g a = k then some (f a) else l.find? (g · == k) := by
  obtain ⟨l₁, l₂, rfl, -, -, hm⟩ := modifyFirst_spec f hf
  have hd : ∀ x ∈ l₁, g x ≠ g a := by
    simp only [map_append, map_cons, nodup_append, mem_map, mem_cons] at hn
    exact fun x hx => hn.2.2 _ ⟨x, hx, rfl⟩ _ (Or.inl rfl)
  rw [hm, find?_append, find?_append]
  by_cases hk : g a = k
  · have hnone : l₁.find? (g · == k) = none := by
      rw [find?_eq_none]
      intro x hx
      simpa [hk] using hd x hx
    simp [hnone, hg, hk]
  · simp [hg, hk]

/-- Searching by key finds the element with that key. -/
theorem find?_key_eq_some [DecidableEq β] {g : α → β} {a : α} {l : List α}
    (hn : (l.map g).Nodup) (ha : a ∈ l) : l.find? (g · == g a) = some a := by
  induction l with
  | nil => simp at ha
  | cons b l ih =>
    rw [map_cons, nodup_cons] at hn
    rcases mem_cons.mp ha with rfl | ha'
    · simp
    · have hb : g b ≠ g a := fun hc => hn.1 (hc ▸ mem_map_of_mem ha')
      rw [find?_cons_of_neg (by simpa using hb)]
      exact ih hn.2 ha'

/-- Counting after a modification: the modified element is counted afresh. -/
theorem countP_modifyFirst {p q : α → Bool} {f : α → α} {a : α} {l : List α}
    (hf : l.find? p = some a) :
    (modifyFirst p f l).countP q + (if q a then 1 else 0) =
      l.countP q + (if q (f a) then 1 else 0) := by
  obtain ⟨l₁, l₂, rfl, -, -, hm⟩ := modifyFirst_spec f hf
  rw [hm]
  simp only [countP_append, countP_cons]
  omega

/-! ### Joining -/

/-- Joining puts the separator before each word but the first. -/
theorem intercalate_cons_eq (x : α) (w : List α) (ws : List (List α)) :
    intercalate [x] (w :: ws) = w ++ ws.flatMap fun w' => x :: w' := by
  induction ws generalizing w with
  | nil => simp
  | cons w' ws ih => rw [intercalate_cons_cons, ih, append_assoc, flatMap_cons]; rfl

/-! ### Separators -/

/-- **The first separator** ends the first word. -/
theorem append_cons_inj_left {x : α} {l₁ l₂ r₁ r₂ : List α} (h₁ : x ∉ l₁) (h₂ : x ∉ l₂)
    (h : l₁ ++ x :: r₁ = l₂ ++ x :: r₂) : l₁ = l₂ ∧ r₁ = r₂ := by
  rcases append_eq_append_iff.mp h with ⟨m, rfl, hm⟩ | ⟨m, rfl, hm⟩
  · rcases m with _ | ⟨y, m⟩
    · simpa using hm
    · rw [(cons.inj hm).1] at h₂
      simp at h₂
  · rcases m with _ | ⟨y, m⟩
    · simpa using hm.symm
    · rw [(cons.inj hm).1] at h₁
      simp at h₁

/-- **A field of a record** that is laid out field by field. -/
theorem take_drop_flatten (fields : List (List α)) (i : ℕ) {off n : ℕ} {w : List α}
    (hw : fields[i]? = some w) (hoff : (fields.take i).flatten.length = off)
    (hn : w.length = n) : (fields.flatten.drop off).take n = w := by
  obtain ⟨hi, rfl⟩ := getElem?_eq_some_iff.mp hw
  have hsplit : fields = fields.take i ++ fields[i] :: fields.drop (i + 1) := by
    rw [← drop_eq_getElem_cons hi, take_append_drop]
  nth_rewrite 1 [hsplit]
  rw [flatten_append, flatten_cons, drop_left' hoff, take_left' hn]

/-! ### Chunks -/

/-- **A list is determined by its chunks.** -/
theorem eq_of_chunks {n k : ℕ} {x y : List α} (hx : x.length ≤ k * n) (hy : y.length ≤ k * n)
    (h : ∀ i < k, (x.drop (i * n)).take n = (y.drop (i * n)).take n) : x = y := by
  induction k generalizing x y with
  | zero =>
    rw [Nat.zero_mul, Nat.le_zero, length_eq_zero_iff] at hx hy
    rw [hx, hy]
  | succ k ih =>
    have hfirst := h 0 (Nat.succ_pos k)
    rw [Nat.zero_mul, drop_zero, drop_zero] at hfirst
    -- behind the first chunk there is one chunk less
    have hrest : x.drop n = y.drop n := by
      rw [Nat.succ_mul] at hx hy
      refine ih (by rw [length_drop]; omega) (by rw [length_drop]; omega) fun i hi => ?_
      have hnext := h (i + 1) (Nat.succ_lt_succ hi)
      rwa [Nat.succ_mul, Nat.add_comm, ← drop_drop, ← drop_drop] at hnext
    rw [← take_append_drop n x, hfirst, hrest, take_append_drop]

/-! ### Distinct keys -/

/-- Where keys are distinct, erasing the element of a key leaves none of that key. -/
theorem ne_of_mem_eraseP {κ : Type*} {l : List α} {p : α → Bool} {f : α → κ} {k : κ}
    (hd : (l.map f).Nodup) (hp : ∀ x, p x = true ↔ f x = k) (hk : ∃ x ∈ l, f x = k) {y : α}
    (hy : y ∈ l.eraseP p) : f y ≠ k := by
  obtain ⟨x, hx, hxk⟩ := hk
  obtain ⟨a, l₁, l₂, h₁, ha, rfl, he⟩ := exists_of_eraseP hx ((hp x).mpr hxk)
  rw [he, mem_append] at hy
  rcases hy with hy | hy
  · exact fun hc => h₁ y hy ((hp y).mpr hc)
  · -- two elements of one key
    rw [map_append, map_cons, nodup_append, nodup_cons] at hd
    intro hc
    refine hd.2.1.1 ?_
    rw [(hp a).mp ha, ← hc]
    exact mem_map_of_mem hy

/-! ### Association lists -/

theorem mem_of_lookup {κ : Type*} [BEq κ] [LawfulBEq κ] {d : List (κ × α)} {k : κ} {v : α}
    (h : d.lookup k = some v) : (k, v) ∈ d := by
  obtain ⟨pre, post, rfl, -⟩ := lookup_eq_some_iff.mp h
  exact mem_append_right _ mem_cons_self

/-- Where keys are distinct, an entry is the one that is looked up. -/
theorem lookup_of_mem {κ : Type*} [BEq κ] [LawfulBEq κ] {d : List (κ × α)} {e : κ × α}
    (hd : (d.map Prod.fst).Nodup) (he : e ∈ d) : d.lookup e.1 = some e.2 := by
  obtain ⟨pre, post, rfl⟩ := append_of_mem he
  refine lookup_eq_some_iff.mpr ⟨pre, post, rfl, fun e' he' => ?_⟩
  rw [map_append, nodup_append] at hd
  exact bne_iff_ne.mpr (hd.2.2 _ (mem_map_of_mem he') _ (mem_map_of_mem mem_cons_self)).symm

/-- **A field that the entry of one key updates.** Over an association list with distinct keys it
is updated by the entry at that key, and not at all if there is none. -/
theorem foldl_field {κ σ : Type*} [BEq κ] [LawfulBEq κ] [DecidableEq κ] {upd : σ → κ × α → σ}
    (f : σ → β) (key : κ)
    (g : β → α → β) (hupd : ∀ s k v, f (upd s (k, v)) = if k = key then g (f s) v else f s)
    {d : List (κ × α)} (hd : (d.map Prod.fst).Nodup) (s : σ) :
    f (d.foldl upd s) = (d.lookup key).elim (f s) (g (f s)) := by
  induction d generalizing s with
  | nil => rfl
  | cons e d ih =>
    obtain ⟨k, v⟩ := e
    rw [map_cons, nodup_cons] at hd
    rw [foldl_cons, ih hd.2, hupd, lookup_cons]
    by_cases hk : k = key
    · -- the key does not come again
      subst hk
      have hnone : d.lookup k = none := by
        refine lookup_eq_none_iff.mpr fun e he => bne_iff_ne.mpr ?_
        rintro rfl
        exact hd.1 (mem_map.mpr ⟨e, he, rfl⟩)
      simp [hnone]
    · have hk' : (key == k) = false := by
        rw [beq_eq_false_iff_ne]
        exact fun hc => hk hc.symm
      simp [hk, hk']

end List
