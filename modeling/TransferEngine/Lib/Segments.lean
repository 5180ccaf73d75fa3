import Mathlib.Data.List.Basic

/-!
# Streams that arrive in pieces

A stream is a sequence of *segments* followed by the beginning of one more, and it
arrives in chunks whose boundaries have nothing to do with those of the segments. At any
time some of the segments have arrived in full and a part of the next one has
(`Segments.exists_cut`).

A receiver that works through the full segments whenever something arrives therefore never
sees how the stream was cut: `Segments.foldl_feed` is the induction over the arrivals, and
`Segments.foldl_feed_all` its end, when the whole stream is there.
-/

namespace Segments

variable {α υ σ ε : Type*}

/-- The next of the segments `us` is not in `r` in full. -/
def Short (bytes : υ → List α) (us : List υ) (r : List α) : Prop :=
  ∀ u ∈ us.head?, r.length < (bytes u).length

/-- The segments as they are laid out one after the other. -/
def spell (bytes : υ → List α) (us : List υ) : List α := (us.map bytes).flatten

variable {bytes : υ → List α} {us us₁ us₂ : List υ} {r t b : List α}

@[simp] theorem spell_nil : spell bytes [] = [] := rfl

@[simp] theorem spell_cons (u : υ) : spell bytes (u :: us) = bytes u ++ spell bytes us := rfl

@[simp] theorem spell_append : spell bytes (us₁ ++ us₂) = spell bytes us₁ ++ spell bytes us₂ := by
  simp [spell]

theorem short_nil : Short bytes [] r := fun u hu => by simp at hu

/-- **Any beginning of a stream** is a number of its segments and a part of the next. -/
theorem exists_cut (us : List υ) (h : b <+: spell bytes us ++ t) :
    ∃ us₁ us₂ r, us = us₁ ++ us₂ ∧ b = spell bytes us₁ ++ r ∧ r <+: spell bytes us₂ ++ t ∧
      Short bytes us₂ r := by
  induction us generalizing b with
  | nil => exact ⟨[], [], b, rfl, rfl, h, short_nil⟩
  | cons u us ih =>
    rcases Nat.lt_or_ge b.length (bytes u).length with hlt | hge
    · refine ⟨[], u :: us, b, rfl, rfl, h, fun v hv => ?_⟩
      obtain rfl : u = v := by simpa using hv
      exact hlt
    · -- the segment `u` is there, and the rest is a beginning of the rest
      rw [spell_cons, List.append_assoc] at h
      obtain ⟨b', rfl⟩ : bytes u <+: b :=
        List.prefix_of_prefix_length_le (List.prefix_append _ _) h hge
      obtain ⟨us₁, us₂, r, rfl, rfl, hr, hs⟩ := ih ((List.prefix_append_right_inj _).mp h)
      exact ⟨u :: us₁, us₂, r, rfl, by rw [spell_cons, List.append_assoc], hr, hs⟩

/-- No segment is there in full as long as the next one is not. -/
theorem eq_nil_of_short (hs : Short bytes (us₁ ++ us₂) r) (hr : r = spell bytes us₁ ++ t) :
    us₁ = [] := by
  cases us₁ with
  | nil => rfl
  | cons u us₁ =>
    have hlt := hs u rfl
    rw [hr] at hlt
    simp only [spell_cons, List.length_append] at hlt
    omega

/-- **The induction over the arrivals.** `P done us r s` says that the state `s` has worked
through the segments `done`, waits for `us` and holds `r` of them. If the receiver, given
what one event `e` brings, works through the segments that are now there in full, then it
has done so at any beginning of the stream. -/
theorem foldl_feed {feed : σ → ε → σ} {brings : ε → List α}
    {P : List υ → List υ → List α → σ → Prop} (events : List ε)
    (hfeed : ∀ e ∈ events, ∀ done us₁ us₂ r r' s, P done (us₁ ++ us₂) r s →
      Short bytes (us₁ ++ us₂) r → r ++ brings e = spell bytes us₁ ++ r' →
      r' <+: spell bytes us₂ ++ t → Short bytes us₂ r' → P (done ++ us₁) us₂ r' (feed s e))
    {done : List υ} {s : σ} (h₀ : P done us r s) (hs : Short bytes us r)
    (hc : r ++ spell brings events <+: spell bytes us ++ t) :
    ∃ us₁ us₂ r', us = us₁ ++ us₂ ∧ r ++ spell brings events = spell bytes us₁ ++ r' ∧
      Short bytes us₂ r' ∧ P (done ++ us₁) us₂ r' (events.foldl feed s) := by
  induction events generalizing done us r s with
  | nil => exact ⟨[], us, r, rfl, by simp, hs, by simpa using h₀⟩
  | cons e events ih =>
    rw [spell_cons, ← List.append_assoc] at hc ⊢
    obtain ⟨us₁, us₂, r', rfl, hx, hr', hs'⟩ :=
      exists_cut us ((List.prefix_append _ _).trans hc)
    -- the receiver works through `us₁`; the events that follow bring a beginning of the rest
    rw [hx, spell_append, List.append_assoc, List.append_assoc,
      List.prefix_append_right_inj] at hc
    have hstep := hfeed e List.mem_cons_self done us₁ us₂ r r' s h₀ hs hx hr' hs'
    obtain ⟨us₁', us₂', r'', rfl, hx', hs'', hP⟩ :=
      ih (fun e he => hfeed e (List.mem_cons_of_mem _ he)) hstep hs' hc
    refine ⟨us₁ ++ us₁', us₂', r'', by rw [List.append_assoc], ?_, hs'', ?_⟩
    · rw [hx, List.append_assoc, hx', spell_append, List.append_assoc]
    · rwa [List.append_assoc] at hP

/-- **The whole stream**, however it arrived. -/
theorem foldl_feed_all {feed : σ → ε → σ} {brings : ε → List α}
    {P : List υ → List υ → List α → σ → Prop} (events : List ε)
    (hfeed : ∀ e ∈ events, ∀ done us₁ us₂ r r' s, P done (us₁ ++ us₂) r s →
      Short bytes (us₁ ++ us₂) r → r ++ brings e = spell bytes us₁ ++ r' →
      r' <+: spell bytes us₂ ++ t → Short bytes us₂ r' → P (done ++ us₁) us₂ r' (feed s e))
    {s : σ} (h₀ : P [] us [] s) (hs : Short bytes us [])
    (hc : spell brings events = spell bytes us ++ t) : P us [] t (events.foldl feed s) := by
  have hall : [] ++ spell brings events <+: spell bytes us ++ t := by simp [hc]
  obtain ⟨us₁, us₂, r', rfl, hb, hs', hP⟩ := foldl_feed events hfeed h₀ hs hall
  rw [List.nil_append, hc, spell_append, List.append_assoc] at hb
  have hr : r' = spell bytes us₂ ++ t := (List.append_cancel_left hb).symm
  have hs'' : Short bytes (us₂ ++ []) r' := by rwa [List.append_nil]
  obtain rfl : us₂ = [] := eq_nil_of_short hs'' hr
  rw [hr] at hP
  simpa using hP

end Segments
