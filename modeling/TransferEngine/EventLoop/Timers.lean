import TransferEngine.EventLoop.Model

/-!
# The timers of the event loop

Cancelling a timer only notes its id, and the note is looked at when the timer comes to the
top of the heap; a note about a timer that has fired is never removed. What keeps this right
is that ids are not used twice: `TransferEngine.EventLoop.Book` says that the ids handed out are
1, 2, 3 and so on, that a timer on the heap has been cancelled exactly if its id is noted, and
that every deadline on the heap is at least that of every timer that has fired.

The result is `TransferEngine.EventLoop.timerSemantics`: in every run under a clock that does
not go back, in which no deadline overflows, a timer's callback is called at most once, not before
its deadline, not after it was cancelled, and in the order of the deadlines; and at `epoll_wait` no
timer is overdue. A deadline that overflows may lie in the past, and then its timer fires at once
(`TransferEngine.EventLoop.not_due_overflow`).
-/

namespace TransferEngine

namespace EventLoop

variable {loop : EventLoop} {trace : List Event} {clock now delay : ℤ} {t top : Timer} {k : ℕ}

/-! ### Reading the trace -/

@[simp] theorem registered_append (l₁ l₂ : List Event) :
    registered (l₁ ++ l₂) = registered l₁ ++ registered l₂ :=
  List.filterMap_append

@[simp] theorem fired_append (l₁ l₂ : List Event) : fired (l₁ ++ l₂) = fired l₁ ++ fired l₂ :=
  List.filterMap_append

@[simp] theorem registered_registered : registered [.registered t now delay] = [t] := rfl
@[simp] theorem registered_cancelled : registered [.cancelled k] = [] := rfl
@[simp] theorem registered_fired : registered [.fired t now] = [] := rfl
@[simp] theorem fired_registered : fired [.registered t now delay] = [] := rfl
@[simp] theorem fired_cancelled : fired [.cancelled k] = [] := rfl
@[simp] theorem fired_fired : fired [.fired t now] = [t] := rfl

/-- **A sum that does not overflow** is the deadline. -/
theorem deadline_eq (hdelay : 0 ≤ delay) (h : Fits now delay) :
    deadline now delay = now + delay * 1000000 := by
  obtain ⟨hlo, hmul, hhi⟩ := h
  rw [deadline, Int.add_bmod_bmod, Int.bmod_eq_of_le (by omega) (by omega)]

/-! ### The books of the loop -/

/-- No timer of the trace fires after it was cancelled. -/
def CancelsKept (trace : List Event) : Prop :=
  Runs.Along trace fun before e => ∀ t now, e = .fired t now → Event.cancelled t.id ∉ before

/-- **The books of the loop**: what holds between the heap, the set of cancelled ids, the
clock and what happened, wherever the loop stands. -/
structure Book (loop : EventLoop) (trace : List Event) (clock : ℤ) : Prop where
  /-- The ids handed out are 1, 2, 3 and so on. -/
  ids : (registered trace).map Timer.id = List.range' 1 (registered trace).length
  /-- There are fewer than 2^64 of them. -/
  few : (registered trace).length < 2 ^ 64
  /-- The next id is the one after. -/
  next : loop.nextTimerId = ((registered trace).length + 1) % 2 ^ 64
  /-- A timer expires when it was to. -/
  exact_deadline : ∀ t at' delay, .registered t at' delay ∈ trace →
    t.deadline = at' + delay * 1000000
  /-- A timer on the heap was registered. -/
  heap : ∀ t ∈ loop.timers, t ∈ registered trace
  /-- The ids on the heap are different. -/
  nodup : (loop.timers.map Timer.id).Nodup
  /-- A timer on the heap has not fired. -/
  pending : ∀ t ∈ loop.timers, t.id ∉ (fired trace).map Timer.id
  /-- A timer that fired was registered. -/
  fired_mem : ∀ t ∈ fired trace, t ∈ registered trace
  /-- No timer fired twice. -/
  once : ((fired trace).map Timer.id).Nodup
  /-- No timer fired early. -/
  due : ∀ t now, .fired t now ∈ trace → t.deadline ≤ now
  /-- What fired was due by now. -/
  past : ∀ t ∈ fired trace, t.deadline ≤ clock
  /-- What fired was due before what is on the heap. -/
  before : ∀ t ∈ fired trace, ∀ t' ∈ loop.timers, t.deadline ≤ t'.deadline
  /-- The timers fired in the order of their deadlines. -/
  ordered : (fired trace).Pairwise (·.deadline ≤ ·.deadline)
  /-- Only ids that were handed out are cancelled. -/
  known : ∀ k, .cancelled k ∈ trace → k ≤ (registered trace).length
  /-- What is noted was cancelled. -/
  noted : ∀ k ∈ loop.cancelledTimers, .cancelled k ∈ trace
  /-- What was cancelled is noted as long as it is on the heap. -/
  note : ∀ t ∈ loop.timers, .cancelled t.id ∈ trace → t.id ∈ loop.cancelledTimers
  /-- No timer fired after it was cancelled. -/
  cancels : CancelsKept trace

namespace Book

/-- The books of a new loop. -/
theorem init (clock : ℤ) : Book {} [] clock where
  ids := rfl
  few := by decide
  next := rfl
  exact_deadline := by simp
  heap := by simp
  nodup := List.nodup_nil
  pending := by simp
  fired_mem := by simp [fired]
  once := List.nodup_nil
  due := by simp
  past := by simp [fired]
  before := by simp [fired]
  ordered := List.Pairwise.nil
  known := by simp
  noted := by simp
  note := by simp
  cancels := Runs.along_nil _

/-- A later reading of the clock changes nothing. -/
theorem later (h : Book loop trace clock) (hle : clock ≤ now) : Book loop trace now :=
  { h with past := fun t ht => (h.past t ht).trans hle }

/-- Whether the loop is running does not matter. -/
theorem setRunning (h : Book loop trace clock) (b : Bool) :
    Book { loop with running := b } trace clock :=
  { h with }

/-- The id of a registered timer. -/
theorem id_mem (h : Book loop trace clock) (ht : t ∈ registered trace) :
    0 < t.id ∧ t.id ≤ (registered trace).length := by
  have hm : t.id ∈ List.range' 1 (registered trace).length := by
    rw [← h.ids]
    exact List.mem_map_of_mem ht
  rw [List.mem_range'_1] at hm
  omega

/-- **Registering a timer.** -/
theorem register (h : Book loop trace clock) (hclock : clock ≤ now) (hdelay : 0 ≤ delay)
    (hfits : Fits now delay) (hfew : (registered trace).length + 1 < 2 ^ 64) :
    Book { loop with
        nextTimerId := (loop.nextTimerId + 1) % 2 ^ 64
        timers := { id := loop.nextTimerId, deadline := deadline now delay } :: loop.timers }
      (trace ++ [.registered { id := loop.nextTimerId, deadline := deadline now delay } now delay])
      now := by
  have hnext : loop.nextTimerId = (registered trace).length + 1 := by
    rw [h.next, Nat.mod_eq_of_lt hfew]
  -- the id is new: greater than all that were handed out
  have hnew : ∀ t ∈ registered trace, t.id ≠ loop.nextTimerId := by
    intro t ht
    have := h.id_mem ht
    omega
  have hlate : clock ≤ deadline now delay := by
    rw [deadline_eq hdelay hfits]
    omega
  have hfired : fired (trace ++ [.registered ⟨loop.nextTimerId, deadline now delay⟩ now delay]) =
      fired trace := by
    rw [fired_append, fired_registered, List.append_nil]
  exact
    { ids := by
        rw [registered_append, registered_registered, List.map_append, h.ids, List.map_singleton,
          List.length_append, List.length_singleton, List.range'_concat, hnext, Nat.one_mul,
          Nat.add_comm]
      few := by simpa using hfew
      next := by simp [hnext]
      exact_deadline := by
        intro t at' delay' ht
        rcases List.mem_append.mp ht with ht | ht
        · exact h.exact_deadline t at' delay' ht
        · obtain ⟨rfl, rfl, rfl⟩ : t = ⟨loop.nextTimerId, deadline now delay⟩ ∧ at' = now ∧
              delay' = delay := by simpa using ht
          exact deadline_eq hdelay hfits
      heap := by
        intro t ht
        rcases List.mem_cons.mp ht with rfl | ht
        · simp
        · simp [h.heap t ht]
      nodup := by
        refine List.nodup_cons.mpr ⟨?_, h.nodup⟩
        rw [List.mem_map]
        rintro ⟨t, ht, heq⟩
        exact hnew t (h.heap t ht) heq
      pending := by
        rw [hfired]
        intro t ht
        rcases List.mem_cons.mp ht with rfl | ht
        · rw [List.mem_map]
          rintro ⟨t, ht, heq⟩
          exact hnew t (h.fired_mem t ht) heq
        · exact h.pending t ht
      fired_mem := by
        rw [hfired, registered_append]
        exact fun t ht => List.mem_append_left _ (h.fired_mem t ht)
      once := by
        rw [hfired]
        exact h.once
      due := fun t now' ht => h.due t now' (by simpa using ht)
      past := by
        rw [hfired]
        exact fun t ht => (h.past t ht).trans hclock
      before := by
        rw [hfired]
        intro t ht t' ht'
        rcases List.mem_cons.mp ht' with rfl | ht'
        · exact (h.past t ht).trans hlate
        · exact h.before t ht t' ht'
      ordered := by
        rw [hfired]
        exact h.ordered
      known := by
        intro k hk
        have hle := h.known k (by simpa using hk)
        rw [registered_append, List.length_append]
        omega
      noted := fun k hk => List.mem_append_left _ (h.noted k hk)
      note := by
        intro t ht hc
        have hc' : Event.cancelled t.id ∈ trace := by simpa using hc
        rcases List.mem_cons.mp ht with rfl | ht
        · -- the id was not handed out yet, so it was not cancelled
          have hle := h.known _ hc'
          dsimp only at hle
          omega
        · exact h.note t ht hc'
      cancels := by
        refine Runs.along_snoc.mpr ⟨h.cancels, ?_⟩
        rintro t now' hcon
        cases hcon }

/-- **Cancelling a timer.** -/
theorem cancel (h : Book loop trace clock)
    (hk : k = 0 ∨ ∃ t ∈ registered trace, t.id = k) :
    Book (loop.cancelTimer k) (trace ++ [.cancelled k]) clock := by
  have hset : ∀ j, j ∈ (loop.cancelTimer k).cancelledTimers ↔
      (0 < k ∧ j = k) ∨ j ∈ loop.cancelledTimers := by
    intro j
    rw [cancelTimer]
    split
    case isTrue hpos => simp [hpos]
    case isFalse hpos => simp [hpos]
  have htimers : (loop.cancelTimer k).timers = loop.timers := by
    rw [cancelTimer]
    split <;> rfl
  have hid : (loop.cancelTimer k).nextTimerId = loop.nextTimerId := by
    rw [cancelTimer]
    split <;> rfl
  refine
    { ids := by simpa using h.ids
      few := by simpa using h.few
      next := by simpa [hid] using h.next
      exact_deadline := by simpa using h.exact_deadline
      heap := by simpa [htimers] using h.heap
      nodup := by simpa [htimers] using h.nodup
      pending := by simpa [htimers] using h.pending
      fired_mem := by simpa using h.fired_mem
      once := by simpa using h.once
      due := by simpa using h.due
      past := by simpa using h.past
      before := by simpa [htimers] using h.before
      ordered := by simpa using h.ordered
      known := ?_, noted := ?_, note := ?_, cancels := ?_ }
  · intro j hj
    rw [registered_append, registered_cancelled, List.append_nil]
    rcases List.mem_append.mp hj with hj | hj
    · exact h.known j hj
    · obtain rfl : j = k := by simpa using hj
      rcases hk with rfl | ⟨t, ht, rfl⟩
      · exact Nat.zero_le _
      · exact (h.id_mem ht).2
  · intro j hj
    rcases (hset j).mp hj with ⟨-, rfl⟩ | hj
    · simp
    · exact List.mem_append_left _ (h.noted j hj)
  · intro t ht hc
    rw [htimers] at ht
    rw [hset]
    rcases List.mem_append.mp hc with hc | hc
    · exact Or.inr (h.note t ht hc)
    · obtain hk : t.id = k := by simpa using hc
      exact Or.inl ⟨hk ▸ (h.id_mem (h.heap t ht)).1, hk⟩
  · refine Runs.along_snoc.mpr ⟨h.cancels, ?_⟩
    rintro t now' hcon
    cases hcon

/-- What is left on the heap has other ids than what was taken. -/
theorem id_ne_of_mem_erase (h : Book loop trace clock) (htop : top ∈ loop.timers)
    (ht : t ∈ loop.timers.erase top) : t.id ≠ top.id := by
  intro heq
  have hmem := List.mem_of_mem_erase ht
  obtain rfl : t = top := List.inj_on_of_nodup_map h.nodup hmem htop heq
  exact h.nodup.of_map.not_mem_erase ht

theorem nodup_erase (h : Book loop trace clock) : ((loop.timers.erase top).map Timer.id).Nodup :=
  h.nodup.sublist (List.erase_sublist.map _)

/-- **Pruning a cancelled timer.** -/
theorem prune (h : Book loop trace clock) (htop : top ∈ loop.timers) :
    Book { loop with
        cancelledTimers := loop.cancelledTimers.erase top.id
        timers := loop.timers.erase top } trace clock :=
  { h with
    heap := fun t ht => h.heap t (List.mem_of_mem_erase ht)
    nodup := h.nodup_erase
    pending := fun t ht => h.pending t (List.mem_of_mem_erase ht)
    before := fun t ht t' ht' => h.before t ht t' (List.mem_of_mem_erase ht')
    noted := fun k hk => h.noted k (Finset.mem_of_mem_erase hk)
    note := fun t ht hc => Finset.mem_erase.mpr
      ⟨h.id_ne_of_mem_erase htop ht, h.note t (List.mem_of_mem_erase ht) hc⟩ }

/-- **Calling the callback of a timer** that is due and not cancelled. -/
theorem fire (h : Book loop trace clock) (htop : IsTop loop.timers top)
    (hc : top.id ∉ loop.cancelledTimers) (hdue : top.deadline ≤ clock) :
    Book { loop with timers := loop.timers.erase top } (trace ++ [.fired top clock]) clock := by
  obtain ⟨hmem, hmin⟩ := htop
  have hfired : ∀ t, t ∈ fired (trace ++ [.fired top clock]) ↔ t ∈ fired trace ∨ t = top := by
    intro t
    rw [fired_append, List.mem_append, fired_fired, List.mem_singleton]
  exact
    { ids := by simpa using h.ids
      few := by simpa using h.few
      next := by simpa using h.next
      exact_deadline := by simpa using h.exact_deadline
      heap := fun t ht => by simpa using h.heap t (List.mem_of_mem_erase ht)
      nodup := h.nodup_erase
      pending := by
        intro t ht
        rw [fired_append, fired_fired, List.map_append, List.mem_append, not_or]
        exact ⟨h.pending t (List.mem_of_mem_erase ht),
          by simpa using h.id_ne_of_mem_erase hmem ht⟩
      fired_mem := by
        intro t ht
        rw [registered_append, registered_fired, List.append_nil]
        rcases (hfired t).mp ht with ht | rfl
        · exact h.fired_mem t ht
        · exact h.heap t hmem
      once := by
        rw [fired_append, fired_fired, List.map_append, List.map_singleton]
        exact h.once.append (List.nodup_singleton _) (by simpa using h.pending top hmem)
      due := by
        intro t now' ht
        rcases List.mem_append.mp ht with ht | ht
        · exact h.due t now' ht
        · obtain ⟨rfl, rfl⟩ : t = top ∧ now' = clock := by simpa using ht
          exact hdue
      past := by
        intro t ht
        rcases (hfired t).mp ht with ht | rfl
        · exact h.past t ht
        · exact hdue
      before := by
        intro t ht t' ht'
        rcases (hfired t).mp ht with ht | rfl
        · exact h.before t ht t' (List.mem_of_mem_erase ht')
        · -- what fires now is the least on the heap
          exact hmin t' (List.mem_of_mem_erase ht')
      ordered := by
        rw [fired_append, fired_fired, List.pairwise_append]
        refine ⟨h.ordered, List.pairwise_singleton _ _, fun t ht t' ht' => ?_⟩
        obtain rfl := List.mem_singleton.mp ht'
        exact h.before t ht t' hmem
      known := by simpa using h.known
      noted := fun k hk => List.mem_append_left _ (h.noted k hk)
      note := fun t ht hcan => h.note t (List.mem_of_mem_erase ht) (by simpa using hcan)
      cancels := by
        refine Runs.along_snoc.mpr ⟨h.cancels, ?_⟩
        intro t now' heq hcan
        obtain ⟨rfl, -⟩ : top = t ∧ clock = now' := by simpa using heq
        -- a cancelled timer is noted as long as it is on the heap, and this one was on it
        exact hc (h.note top hmem hcan) }

end Book

/-! ### Where the loop stands -/

/-- What holds where the loop stands: the reading that the draining loop works with is the last
one, and at `epoll_wait` no timer is overdue. -/
def Settled (m : Machine) : Prop :=
  match m.place with
  | .draining now => now = m.clock
  | .polling _ => m.loop.running = true ∧
      ∀ t ∈ m.loop.timers, t.id ∉ m.loop.cancelledTimers → m.clock < t.deadline
  | _ => True

/-- **What every step keeps.** -/
structure Inv (m : Machine) : Prop where
  /-- The books are right. -/
  book : Book m.loop m.trace m.clock
  /-- The loop stands where it may. -/
  settled : Settled m

variable {m : Machine} {a : Input}

/-- Where code of the caller runs there is nothing to say. -/
theorem settled_of_inCaller (h : m.place.InCaller) : Settled m := by
  rcases h with h | h | h <;> simp [Settled, h]

/-- **A pass of the draining loop.** -/
theorem Inv.drain (h : Inv m) (he : Enabled m (.drain top)) : Inv (m.step (.drain top)) := by
  obtain ⟨⟨now, hplace⟩, hrun, htop⟩ := he
  have hnow : now = m.clock := by
    have := h.settled
    rwa [Settled, hplace] at this
  subst hnow
  rw [Machine.step, hplace]
  simp only [pass]
  by_cases hc : top.id ∈ m.loop.cancelledTimers
  · rw [if_pos hc]
    exact ⟨h.book.prune htop.1, rfl⟩
  · rw [if_neg hc]
    by_cases hdue : top.deadline ≤ m.clock
    · rw [if_pos hdue]
      exact ⟨h.book.fire htop hc hdue, trivial⟩
    · rw [if_neg hdue]
      exact ⟨h.book, hrun, fun t ht _ => (Int.not_le.mp hdue).trans_le (htop.2 t ht)⟩

/-- **One step keeps the books.** -/
theorem Inv.step (h : Inv m) (ha : Allowed m a) (hr : InRange a) : Inv (m.step a) := by
  obtain ⟨he, hp⟩ := ha
  cases a with
  | registerTimer now delay callback =>
    cases callback with
    | false => exact h
    | true => exact ⟨h.book.register hp.1 hp.2.1 (hr rfl) hp.2.2, settled_of_inCaller he⟩
  | cancelTimer k => exact ⟨h.book.cancel hp, settled_of_inCaller he⟩
  | shutdown => exact ⟨h.book.setRunning false, settled_of_inCaller he⟩
  | run => exact ⟨h.book.setRunning true, trivial⟩
  | enter now =>
    rw [Machine.step]
    split
    · exact ⟨h.book.later hp, rfl⟩
    · exact ⟨h.book, trivial⟩
  | drain top => exact h.drain he
  | drained =>
    obtain ⟨-, hcond⟩ := he
    refine ⟨h.book, ?_⟩
    rw [Machine.step]
    rcases hrun : m.loop.running with _ | _
    · simp [Settled]
    · have hnil : m.loop.timers = [] := hcond.resolve_right (by simp [hrun])
      simp [Settled, hrun, hnil]
  | returns now => exact ⟨h.book.later hp, rfl⟩
  | throws => exact ⟨h.book, trivial⟩
  | epollWait answer => cases answer <;> exact ⟨h.book, trivial⟩
  | dispatched => exact ⟨h.book, trivial⟩

/-! ### Whole runs -/

/-- **What is claimed of the timers** in a state that a run has reached. -/
structure TimerSemantics (m : Machine) : Prop where
  /-- Timers have different ids. -/
  distinct : ((registered m.trace).map Timer.id).Nodup
  /-- A callback that is called is that of a registered timer, whose deadline it has. -/
  registered : ∀ t ∈ fired m.trace, t ∈ registered m.trace
  /-- No callback is called twice. -/
  once : ((fired m.trace).map Timer.id).Nodup
  /-- A timer expires when it was to, so many milliseconds after it was registered. -/
  deadlines : ∀ t at' delay, .registered t at' delay ∈ m.trace →
    t.deadline = at' + delay * 1000000
  /-- No callback is called before the deadline. -/
  due : ∀ t now, .fired t now ∈ m.trace → t.deadline ≤ now
  /-- No callback is called after its timer was cancelled. -/
  cancels : CancelsKept m.trace
  /-- The callbacks are called in the order of the deadlines. -/
  ordered : (fired m.trace).Pairwise (·.deadline ≤ ·.deadline)
  /-- At `epoll_wait` the loop is running and no timer that was not cancelled is overdue. -/
  drained : ∀ timeoutMs, m.place = .polling timeoutMs → m.loop.running = true ∧
    ∀ t ∈ m.loop.timers, .cancelled t.id ∉ m.trace → m.clock < t.deadline

theorem inv_init : Inv (.init clock) := ⟨Book.init clock, trivial⟩

/-- **The timers of the event loop.** In every run, whatever the callbacks do, under a clock that
does not go back, with delays that are not negative and deadlines that do not overflow, fewer than
2^64 timers and cancellations of ids that were returned: each callback is called at most once, not
before its deadline, not after a cancellation and in the order of the deadlines, and at
`epoll_wait` nothing is overdue. -/
theorem timerSemantics {l : List Input}
    (h : Runs.Reach Machine.step (fun m a => Allowed m a ∧ InRange a) (.init clock) l m) :
    TimerSemantics m := by
  have hinv := h.invariant inv_init fun _ _ hi ha => hi.step ha.1 ha.2
  refine
    { distinct := ?_
      registered := hinv.book.fired_mem
      once := hinv.book.once
      deadlines := hinv.book.exact_deadline
      due := hinv.book.due
      cancels := hinv.book.cancels
      ordered := hinv.book.ordered
      drained := ?_ }
  · rw [hinv.book.ids]
    exact List.nodup_range'
  · intro timeoutMs hplace
    have hsettled := hinv.settled
    rw [Settled, hplace] at hsettled
    refine ⟨hsettled.1, fun t ht hc => hsettled.2 t ht fun hnoted => hc ?_⟩
    exact hinv.book.noted t.id hnoted

/-- A timer of two milliseconds fires late, at 4, and its callback cancels a second one of three
milliseconds that is due by then. -/
def cancelsNext : List Input :=
  [.registerTimer 0 2 true, .registerTimer 0 3 true, .run, .enter 4000000, .drain ⟨1, 2000000⟩,
    .cancelTimer 2, .returns 4000000, .drain ⟨2, 3000000⟩, .drained]

/-- The second timer is pruned. -/
theorem timerSemantics_cancelled :
    TimerSemantics (cancelsNext.foldl Machine.step (.init 0)) ∧
      fired (cancelsNext.foldl Machine.step (.init 0)).trace = [⟨1, 2000000⟩] := by
  refine ⟨timerSemantics (Runs.reach_iff.mpr ⟨(rfl : cancelsNext.foldl _ _ = _), ?_⟩), rfl⟩
  simp only [cancelsNext, Runs.throughout_cons]
  have htop : IsTop [⟨2, 3000000⟩, ⟨1, 2000000⟩] ⟨1, 2000000⟩ := ⟨by decide, by decide⟩
  have hlast : IsTop [⟨2, 3000000⟩] ⟨2, 3000000⟩ := ⟨by decide, by decide⟩
  have hlate : (0 : ℤ) ≤ 4000000 := by decide
  exact ⟨⟨⟨Or.inl rfl, le_rfl, by decide, by decide⟩, fun _ => by decide⟩,
    ⟨⟨Or.inl rfl, le_rfl, by decide, by decide⟩, fun _ => by decide⟩,
    ⟨⟨rfl, trivial⟩, trivial⟩, ⟨⟨rfl, hlate⟩, trivial⟩,
    ⟨⟨⟨⟨_, rfl⟩, rfl, htop⟩, trivial⟩, trivial⟩,
    ⟨⟨Or.inr (Or.inl rfl), Or.inr ⟨⟨2, 3000000⟩, by decide, rfl⟩⟩, trivial⟩,
    ⟨⟨rfl, le_rfl⟩, trivial⟩, ⟨⟨⟨⟨_, rfl⟩, rfl, hlast⟩, trivial⟩, trivial⟩,
    ⟨⟨⟨⟨_, rfl⟩, Or.inl rfl⟩, trivial⟩, trivial⟩, Runs.throughout_nil _⟩

/-- **A deadline that overflows.** A timer of 9223372036855 ms, about 292 years, that is registered
at 0 fires at 0: its deadline is in the past. -/
theorem not_due_overflow :
    ¬∀ (clock : ℤ) (l : List Input) (m : Machine),
      Runs.Reach Machine.step Allowed (.init clock) l m →
        ∀ t at' delay now, .registered t at' delay ∈ m.trace → .fired t now ∈ m.trace →
          at' + delay * 1000000 ≤ now := by
  intro h
  have hr : Runs.Reach Machine.step Allowed (.init 0)
      [.registerTimer 0 9223372036855 true, .run, .enter 0, .drain ⟨1, -9223372036854551616⟩]
      (([.registerTimer 0 9223372036855 true, .run, .enter 0, .drain ⟨1, -9223372036854551616⟩] :
        List Input).foldl Machine.step (.init 0)) := by
    refine Runs.reach_iff.mpr ⟨rfl, ?_⟩
    simp only [Runs.throughout_cons]
    have htop : IsTop [⟨1, -9223372036854551616⟩] ⟨1, -9223372036854551616⟩ :=
      ⟨by decide, by decide⟩
    exact ⟨⟨Or.inl rfl, le_rfl, by decide, by decide⟩, ⟨rfl, trivial⟩, ⟨rfl, le_rfl⟩,
      ⟨⟨⟨_, rfl⟩, rfl, htop⟩, trivial⟩, Runs.throughout_nil _⟩
  have hdue := h _ _ _ hr ⟨1, -9223372036854551616⟩ 0 9223372036855 0 (by decide) (by decide)
  revert hdue
  decide

end EventLoop

end TransferEngine
