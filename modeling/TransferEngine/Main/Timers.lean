import TransferEngine.Coordinator.Picking
import TransferEngine.Main.Model

/-!
# The timers of the main program

As long as the loop is running, each of the two timers is on the heap exactly once, or its callback
is about to put it there again, and the deadline of the one that looks for a stop is at most a
quarter of a second away (`TransferEngine.Main.Inv`). So `epoll_wait` is never entered without a
timeout, nor with one of more than 250 ms; a stop that was requested is noticed within 250 ms, and a
download that is complete within a second (`TransferEngine.Main.noticed`).

A stop that comes in between the test of the flag and the registration of the timer is noticed by
the next call only, and the 250 ms count from the end of the callback.
-/

namespace TransferEngine

namespace Coordinator

variable {T : Torrent} {s : State T} {i : ℕ}

/-- A piece that is complete stays complete. -/
theorem hasPiece_step_of_hasPiece (env : Env) (a : Input)
    (h : s.pieceManager.hasPiece i = true) : (step env s a).pieceManager.hasPiece i = true := by
  rw [(moves_step env s a).hasPiece_eq]
  rcases (head_spec env s a).trace_cases with ⟨hhas, -⟩ |
    ⟨p, idx, c, x, state, pm, -, -, -, -, -, hhas, -⟩ |
    ⟨p, idx, c, x, state, pm, tr, outcome, -, -, -, -, -, hhas, -⟩
  · rwa [hhas]
  · rwa [hhas]
  · exact (hhas i).mpr (Or.inr h)

/-- Our bitfield stays clean. -/
theorem clean_step (env : Env) (a : Input) (h : s.pieceManager.bitfield.Clean) :
    (step env s a).pieceManager.bitfield.Clean :=
  Runs.preserved_chain (I := fun t : State T => t.pieceManager.bitfield.Clean) (moves_step env s a)
    (fun _ _ hs hm => hm.completed_eq.symm ▸ hs) ((head_spec env s a).clean h)

end Coordinator

namespace Main

variable {T : Torrent} {s s' : State T} {env : Env} {a : Input} {check render other top : Timer}
  {m : EventLoop.Machine} {c c' r r' now after delay clock t₁ t₂ : ℤ} {l : List Input}
  {io : FileInfo → ReadOutcome} {callback : Callback}

/-- **Both timers are on the heap**, each of them once. -/
structure Armed (s : State T) (check render : Timer) : Prop where
  /-- There is no other timer. -/
  timers : s.machine.loop.timers.Perm [check, render]
  /-- The one looks for a stop. -/
  check_callback : s.callbacks check.id = some .checkShutdown
  /-- The other shows the progress. -/
  render_callback : s.callbacks render.id = some .renderProgress

/-- **A callback is about to register its timer again**, and the other timer is on the heap. -/
inductive Rearming (s : State T) (c r : ℤ) : Prop
  /-- It is the one that looks for a stop. -/
  | check (render : Timer) : s.rearming = some (250, .checkShutdown) →
      s.machine.loop.timers = [render] → s.callbacks render.id = some .renderProgress →
      render.deadline ≤ r + 1000000000 → Rearming s c r
  /-- It is the one that shows the progress, and the download is not complete. -/
  | render (check : Timer) : s.rearming = some (1000, .renderProgress) → ¬Complete s →
      s.machine.loop.timers = [check] → s.callbacks check.id = some .checkShutdown →
      check.deadline ≤ c + 250000000 → Rearming s c r

/-- **What every step keeps.** The one timer was registered when the clock read `c` at the latest,
the other when it read `r`. -/
structure Inv (s : State T) (c r : ℤ) : Prop where
  /-- The books of the loop are right. -/
  loop : EventLoop.Inv s.machine
  /-- The clock has read `c`. -/
  since : c ≤ s.machine.clock
  /-- Our bitfield is clean. -/
  clean : s.coordinator.pieceManager.bitfield.Clean
  /-- No timer is cancelled. -/
  uncancelled : s.machine.loop.cancelledTimers = ∅
  /-- No wait takes more than 250 ms. -/
  wait : ∀ t, s.machine.place = .polling t → 0 ≤ t ∧ t ≤ 250
  /-- While the loop is running, both timers are pending. -/
  armed : s.machine.loop.running = true → s.machine.place ≠ .inTimer →
    ∃ check render, Armed s check render ∧
      check.deadline ≤ c + 250000000 ∧ render.deadline ≤ r + 1000000000
  /-- In a callback the one is pending, and the other about to be. -/
  rearming : s.machine.loop.running = true → s.machine.place = .inTimer → Rearming s c r
  /-- Elsewhere no timer is about to be registered. -/
  settled : s.machine.loop.running = false ∨ s.machine.place ≠ .inTimer → s.rearming = none
  /-- Once the loop is to stop, it does nothing more. -/
  stopped : s.machine.loop.running = false → s.machine.place = .outside ∨
    s.machine.place = .inTimer ∨ ∃ now, s.machine.place = .draining now

/-- The count that `main` looks at. -/
theorem count_eq_iff (h : s.coordinator.pieceManager.bitfield.Clean) :
    s.coordinator.pieceManager.bitfield.count = T.count ↔ Complete s := by
  rw [h.count_eq, Bitfield.members]
  conv_lhs => rhs; rw [← Finset.card_range T.count]
  rw [Finset.card_filter_eq_iff]
  exact forall_congr' fun i => by rw [Finset.mem_range]; rfl

theorem Rearming.mono (h : Rearming s c r) (hc : c ≤ c') (hr : r ≤ r') : Rearming s c' r' := by
  cases h with
  | check render hre htimers hcb hdead => exact .check render hre htimers hcb (by omega)
  | render check hre hnot htimers hcb hdead => exact .render check hre hnot htimers hcb (by omega)

theorem Inv.mono (h : Inv s c r) (hc : c ≤ c') (hle : c' ≤ s.machine.clock) (hr : r ≤ r') :
    Inv s c' r' :=
  { h with
    since := hle
    armed := fun hrun hplace => by
      obtain ⟨check, render, harmed, hcheck, hrender⟩ := h.armed hrun hplace
      exact ⟨check, render, harmed, by omega, by omega⟩
    rearming := fun hrun hplace => (h.rearming hrun hplace).mono hc hr }

/-- A download that is complete is not shown again. -/
theorem Inv.rearming_ne_of_complete (h : Inv s c r) (hall : Complete s) (d : ℤ) :
    s.rearming ≠ some (d, .renderProgress) := by
  intro hre
  by_cases hin : s.machine.loop.running = true ∧ s.machine.place = .inTimer
  · cases h.rearming hin.1 hin.2 with
    | check render hre' => cases hre.symm.trans hre'
    | render check hre' hnot => exact hnot hall
  · have hnone := h.settled (by
      rw [not_and_or, Bool.not_eq_true] at hin
      exact hin)
    cases hre.symm.trans hnone

/-! ### A pass of the draining loop -/

/-- The callback of a timer has been called, and the other timer is on the heap. -/
structure Called (m : EventLoop.Machine) (other : Timer) : Prop where
  /-- The books of the loop are right. -/
  loop : EventLoop.Inv m
  /-- The callback is running. -/
  place : m.place = .inTimer
  /-- The loop goes on. -/
  running : m.loop.running = true
  /-- No timer is cancelled. -/
  uncancelled : m.loop.cancelledTimers = ∅
  /-- There is no other timer. -/
  timers : m.loop.timers = [other]

/-- Where a pass begins: the clock was read last, and the top timer was not cancelled. -/
theorem Inv.drain_enabled (h : Inv s c r) (he : EventLoop.Enabled s.machine (.drain top)) :
    s.machine.place = .draining s.machine.clock ∧ s.machine.loop.running = true ∧
      EventLoop.IsTop s.machine.loop.timers top ∧ top.id ∉ s.machine.loop.cancelledTimers := by
  obtain ⟨⟨clock, hplace⟩, hrun, hmin⟩ := he
  have hclock : clock = s.machine.clock := by
    have hsettled := h.loop.settled
    rwa [EventLoop.Settled, hplace] at hsettled
  refine ⟨hclock ▸ hplace, hrun, hmin, ?_⟩
  rw [h.uncancelled]
  exact Finset.notMem_empty _

/-- A timer that is not due: the wait for it is one for the timer that looks for a stop at most. -/
theorem Inv.drain_waits (h : Inv s c r) (he : EventLoop.Enabled s.machine (.drain top))
    (hlate : s.machine.clock < top.deadline) :
    ∃ t, 0 ≤ t ∧ t ≤ 250 ∧
      s.machine.step (.drain top) = { s.machine with place := .polling t } := by
  obtain ⟨hplace, hrun, hmin, hc⟩ := h.drain_enabled he
  obtain ⟨check, render, harmed, hcheck, -⟩ := h.armed hrun (by simp [hplace])
  have hle : top.deadline ≤ check.deadline :=
    hmin.2 check (harmed.timers.mem_iff.mpr List.mem_cons_self)
  have hsince := h.since
  have hlo : 0 ≤ (top.deadline - s.machine.clock).tdiv 1000000 :=
    Int.tdiv_nonneg (by omega) (by omega)
  have hhi : (top.deadline - s.machine.clock).tdiv 1000000 ≤ 250 := by
    rw [Int.tdiv_eq_ediv_of_nonneg (by omega)]
    omega
  refine ⟨(top.deadline - s.machine.clock).tdiv 1000000, hlo, hhi, ?_⟩
  rw [EventLoop.Machine.step, hplace]
  simp only [EventLoop.pass, if_neg hc, if_neg (not_le.mpr hlate)]
  rw [Int.bmod_eq_of_le (n := top.deadline - s.machine.clock) (by omega) (by omega),
    Int.bmod_eq_of_le (by omega) (by omega)]

/-- A timer that is due: its callback is called, and the other timer stays. -/
theorem Inv.drain_calls (h : Inv s c r) (he : EventLoop.Enabled s.machine (.drain top))
    (hdue : top.deadline ≤ s.machine.clock) :
    ∃ other, Called (s.machine.step (.drain top)) other ∧
      (s.machine.step (.drain top)).clock = s.machine.clock ∧
      ((s.callbacks top.id = some .checkShutdown ∧
          s.callbacks other.id = some .renderProgress ∧ other.deadline ≤ r + 1000000000) ∨
        (s.callbacks top.id = some .renderProgress ∧
          s.callbacks other.id = some .checkShutdown ∧ other.deadline ≤ c + 250000000)) := by
  obtain ⟨hplace, hrun, hmin, hc⟩ := h.drain_enabled he
  obtain ⟨check, render, harmed, hcheck, hrender⟩ := h.armed hrun (by simp [hplace])
  have hstep : s.machine.step (.drain top) =
      { s.machine with
        loop := { s.machine.loop with timers := s.machine.loop.timers.erase top }
        place := .inTimer
        trace := s.machine.trace ++ [.fired top s.machine.clock] } := by
    rw [EventLoop.Machine.step, hplace]
    simp only [EventLoop.pass, if_neg hc, if_pos hdue]
  have hcalled : ∀ other, (s.machine.loop.timers.erase top).Perm [other] →
      Called (s.machine.step (.drain top)) other := fun other hother =>
    { loop := h.loop.step (a := .drain top) ⟨he, trivial⟩ trivial
      place := by rw [hstep]
      running := by rwa [hstep]
      uncancelled := by
        rw [hstep]
        exact h.uncancelled
      timers := by
        rw [hstep]
        exact List.perm_singleton.mp hother }
  have hclock : (s.machine.step (.drain top)).clock = s.machine.clock := by rw [hstep]
  have herase : (s.machine.loop.timers.erase top).Perm ([check, render].erase top) :=
    harmed.timers.erase top
  rcases List.mem_pair.mp (harmed.timers.mem_iff.mp hmin.1) with rfl | rfl
  · rw [List.erase_cons_head] at herase
    exact ⟨render, hcalled render herase, hclock,
      Or.inl ⟨harmed.check_callback, harmed.render_callback, hrender⟩⟩
  · have hne : check ≠ top := by
      rintro rfl
      cases harmed.check_callback.symm.trans harmed.render_callback
    rw [List.erase_cons_tail (by simpa using hne), List.erase_cons_head] at herase
    exact ⟨check, hcalled check herase, hclock,
      Or.inr ⟨harmed.render_callback, harmed.check_callback, hcheck⟩⟩

/-- **What a pass of the draining loop comes to**: a wait, or the call of one of the two callbacks
with the timer of the other on the heap. -/
theorem Inv.drain_cases (h : Inv s c r) (he : EventLoop.Enabled s.machine (.drain top)) :
    (∃ t, 0 ≤ t ∧ t ≤ 250 ∧ s.machine.step (.drain top) = { s.machine with place := .polling t }) ∨
    ∃ other, Called (s.machine.step (.drain top)) other ∧
      (s.machine.step (.drain top)).clock = s.machine.clock ∧
      ((s.callbacks top.id = some .checkShutdown ∧
          s.callbacks other.id = some .renderProgress ∧ other.deadline ≤ r + 1000000000) ∨
        (s.callbacks top.id = some .renderProgress ∧
          s.callbacks other.id = some .checkShutdown ∧ other.deadline ≤ c + 250000000)) := by
  rcases le_or_gt top.deadline s.machine.clock with hdue | hlate
  · exact Or.inr (h.drain_calls he hdue)
  · exact Or.inl (h.drain_waits he hlate)

/-- A pass that calls a callback. -/
theorem step_drain (hplace : (s.machine.step (.drain top)).place = .inTimer)
    (htop : s.callbacks top.id = some callback) :
    step env s (.drain top io) =
      call env io { s with machine := s.machine.step (.drain top) } callback := by
  simp only [step, hplace, htop]

/-- A pass that ends in a wait. -/
theorem step_drain_wait {t : ℤ}
    (hstep : s.machine.step (.drain top) = { s.machine with place := .polling t }) :
    step env s (.drain top io) = { s with machine := { s.machine with place := .polling t } } := by
  simp only [step, hstep]

/-- The draining loop leaves the coordinator alone, and the wish to stop. -/
theorem step_drain_eq (env : Env) (s : State T) (top : Timer) (io : FileInfo → ReadOutcome) :
    (step env s (.drain top io)).coordinator = s.coordinator ∧
      (step env s (.drain top io)).shutdownRequested = s.shutdownRequested := by
  rw [step]
  dsimp only
  split
  case h_1 callback hplace htop =>
    cases callback with
    | checkShutdown =>
      rw [call, checkShutdown]
      split <;> exact ⟨rfl, rfl⟩
    | renderProgress =>
      rw [call, renderProgress]
      dsimp only
      split <;> exact ⟨rfl, rfl⟩
  case h_2 => exact ⟨rfl, rfl⟩

/-- A callback has the loop stop. -/
theorem Called.shutdown (h : Called m other) (hmachine : s'.machine = m.step .shutdown)
    (hclean : s'.coordinator.pieceManager.bitfield.Clean) (hc : c ≤ m.clock)
    (hre : s'.rearming = none) : Inv s' c r := by
  have hloop : EventLoop.Inv (m.step .shutdown) :=
    h.loop.step ⟨Or.inr (Or.inl h.place), trivial⟩ trivial
  have hplace : s'.machine.place = .inTimer := by
    rw [hmachine]
    exact h.place
  have hrunning : s'.machine.loop.running = false := by
    rw [hmachine]
    rfl
  exact
    { loop := hmachine ▸ hloop
      since := by
        rw [hmachine]
        exact hc
      clean := hclean
      uncancelled := by
        rw [hmachine]
        exact h.uncancelled
      wait := fun t ht => by simp [hplace] at ht
      armed := fun hrun => absurd (hrunning.symm.trans hrun) (by decide)
      rearming := fun hrun => absurd (hrunning.symm.trans hrun) (by decide)
      settled := fun _ => hre
      stopped := fun _ => Or.inr (Or.inl hplace) }

/-- A callback has decided to register its timer again. -/
theorem Called.rearming (h : Called m other) (hmachine : s'.machine = m)
    (hclean : s'.coordinator.pieceManager.bitfield.Clean) (hc : c ≤ m.clock)
    (hre : Rearming s' c r) : Inv s' c r := by
  subst hmachine
  exact
    { loop := h.loop
      since := hc
      clean := hclean
      uncancelled := h.uncancelled
      wait := fun t ht => by simp [h.place] at ht
      armed := fun _ hplace => absurd h.place hplace
      rearming := fun _ _ => hre
      settled := fun hor => by
        rcases hor with hrun | hplace
        · exact absurd (h.running.symm.trans hrun) (by decide)
        · exact absurd h.place hplace
      stopped := fun hrun => absurd (h.running.symm.trans hrun) (by decide) }

theorem Inv.drain (h : Inv s c r) (env : Env) (io : FileInfo → ReadOutcome)
    (he : EventLoop.Enabled s.machine (.drain top)) : Inv (step env s (.drain top io)) c r := by
  obtain ⟨⟨clock, hplace⟩, hrun, -⟩ := id he
  have hnone : s.rearming = none := h.settled (Or.inr (by simp [hplace]))
  rcases h.drain_cases he with ⟨t, hlo, hhi, hstep⟩ | ⟨other, hcalled, hclock, hroles⟩
  · have hloop := h.loop.step (a := .drain top) ⟨he, trivial⟩ trivial
    rw [hstep] at hloop
    rw [step_drain_wait hstep]
    exact
      { loop := hloop
        since := h.since
        clean := h.clean
        uncancelled := h.uncancelled
        wait := fun t' ht => by
          obtain rfl := EventLoop.Place.polling.inj ht
          exact ⟨hlo, hhi⟩
        armed := fun hrun _ => by
          obtain ⟨check, render, harmed, hdeadlines⟩ := h.armed hrun (by simp [hplace])
          exact ⟨check, render, { harmed with }, hdeadlines⟩
        rearming := fun _ hp => by simp at hp
        settled := fun _ => hnone
        stopped := fun hno => absurd (hrun.symm.trans hno) (by decide) }
  · have hsince : c ≤ (s.machine.step (.drain top)).clock := hclock ▸ h.since
    rcases hroles with ⟨htop, hother, hdead⟩ | ⟨htop, hother, hdead⟩
    · rw [step_drain hcalled.place htop, call, checkShutdown]
      split
      case isTrue => exact hcalled.shutdown rfl h.clean hsince hnone
      case isFalse =>
        exact hcalled.rearming rfl h.clean hsince (.check other rfl hcalled.timers hother hdead)
    · rw [step_drain hcalled.place htop, call, renderProgress]
      dsimp only
      split
      case isTrue => exact hcalled.shutdown rfl h.clean hsince hnone
      case isFalse hcount =>
        exact hcalled.rearming rfl h.clean hsince (.render other rfl
          (fun hall => hcount ((count_eq_iff h.clean).mpr hall)) hcalled.timers hother hdead)

/-! ### The end of a callback -/

/-- The callback registers its timer again: the new timer has an id of its own. -/
theorem Inv.registerTimer (h : Inv s c r) (callback : Callback)
    (hplace : s.machine.place = .inTimer)
    (htimers : s.machine.loop.timers = [other]) (hnow : s.machine.clock ≤ now)
    (hafter : now ≤ after) (hdelay : 0 ≤ delay) (hfits : EventLoop.Fits now delay)
    (hfew : (EventLoop.registered s.machine.trace).length + 1 < 2 ^ 64) :
    EventLoop.Inv ((Main.registerTimer now delay callback s).machine.step (.returns after)) ∧
    ∃ new : Timer, new.deadline = now + delay * 1000000 ∧
      (Main.registerTimer now delay callback s).machine.loop.timers = [new, other] ∧
      (Main.registerTimer now delay callback s).callbacks new.id = some callback ∧
      (Main.registerTimer now delay callback s).callbacks other.id = s.callbacks other.id := by
  have hreg : EventLoop.Inv (s.machine.step (.registerTimer now delay true)) :=
    h.loop.step ⟨Or.inr (Or.inl hplace), hnow, hdelay, hfew⟩ fun _ => hfits
  refine ⟨hreg.step (a := .returns after) ⟨hplace, hafter⟩ trivial,
    ⟨s.machine.loop.nextTimerId, EventLoop.deadline now delay⟩, EventLoop.deadline_eq hdelay hfits,
    congrArg _ htimers, Function.update_self _ _ _, Function.update_of_ne ?_ _ _⟩
  -- the id of the other timer was handed out before
  have hnext := h.loop.book.next
  rw [Nat.mod_eq_of_lt hfew] at hnext
  have hother := h.loop.book.id_mem (h.loop.book.heap other (by rw [htimers]; simp))
  show other.id ≠ s.machine.loop.nextTimerId
  omega

/-- The callback has returned, and both timers are on the heap again. -/
theorem Inv.rearmed (h : Inv s c r) (hrun : s.machine.loop.running = true)
    (hloop : EventLoop.Inv ((Main.registerTimer now delay callback s).machine.step
      (.returns after))) (hle : c' ≤ after)
    (harmed : ∃ check render, Armed (Main.registerTimer now delay callback s) check render ∧
      check.deadline ≤ c' + 250000000 ∧ render.deadline ≤ r' + 1000000000) :
    Inv { Main.registerTimer now delay callback s with
      rearming := none
      machine := (Main.registerTimer now delay callback s).machine.step (.returns after) }
      c' r' where
  loop := hloop
  since := hle
  clean := h.clean
  uncancelled := h.uncancelled
  wait := fun t ht => by simp [EventLoop.Machine.step] at ht
  armed := fun _ _ => by
    obtain ⟨check, render, harmed, hdeadlines⟩ := harmed
    exact ⟨check, render, { harmed with }, hdeadlines⟩
  rearming := fun _ hp => by simp [EventLoop.Machine.step] at hp
  settled := fun _ => rfl
  stopped := fun hno => absurd (hrun.symm.trans hno) (by decide)

/-- **The callback returns.** The bound of a timer that is registered moves up to the clock. -/
theorem Inv.returns (h : Inv s c r) (ha : Allowed env s (.returns now after)) (hc : c ≤ c')
    (hr : r ≤ r') (hle : c' ≤ after)
    (hc' : (∀ d, s.rearming ≠ some (d, .checkShutdown)) ∨ after ≤ c')
    (hr' : (∀ d, s.rearming ≠ some (d, .renderProgress)) ∨ after ≤ r') :
    Inv (step env s (.returns now after)) c' r' := by
  obtain ⟨hplace, hnow, hafter, ⟨hlo, -, hhi⟩, hfew⟩ := ha
  cases hrun : s.machine.loop.running with
  | false =>
    -- the callback has had the loop stop
    have hnone : s.rearming = none := h.settled (Or.inl hrun)
    have hstep : step env s (.returns now after) =
        { s with machine := s.machine.step (.returns after) } := by
      simp only [step, rearm, hnone]
    have hloop := h.loop.step (a := .returns after) ⟨hplace, hnow.trans hafter⟩ trivial
    rw [hstep]
    exact
      { loop := hloop
        since := hle
        clean := h.clean
        uncancelled := h.uncancelled
        wait := fun t ht => by simp [EventLoop.Machine.step] at ht
        armed := fun hyes => absurd (hrun.symm.trans hyes) (by decide)
        rearming := fun hyes => absurd (hrun.symm.trans hyes) (by decide)
        settled := fun _ => hnone
        stopped := fun _ => Or.inr (Or.inr ⟨after, rfl⟩) }
  | true =>
    cases h.rearming hrun hplace with
    | check render hre htimers hcb hdead =>
      obtain ⟨hloop, new, hnew, hheap, hself, hkeep⟩ :=
        h.registerTimer .checkShutdown hplace htimers
        hnow hafter (by decide : (0 : ℤ) ≤ 250) ⟨hlo, by omega, by omega⟩ hfew
      have hstep : step env s (.returns now after) =
          { Main.registerTimer now 250 .checkShutdown s with
            rearming := none
            machine := (Main.registerTimer now 250 .checkShutdown s).machine.step
              (.returns after) } := by
        simp only [step, rearm, hre]
      rw [hstep]
      have hlate : after ≤ c' := hc'.resolve_left fun hne => hne 250 hre
      exact h.rearmed hrun hloop hle ⟨new, render,
        ⟨hheap ▸ List.Perm.refl _, hself, hkeep.trans hcb⟩, by omega, by omega⟩
    | render check hre hnot htimers hcb hdead =>
      obtain ⟨hloop, new, hnew, hheap, hself, hkeep⟩ := h.registerTimer .renderProgress hplace
        htimers hnow hafter (by decide : (0 : ℤ) ≤ 1000) ⟨hlo, by omega, by omega⟩ hfew
      have hstep : step env s (.returns now after) =
          { Main.registerTimer now 1000 .renderProgress s with
            rearming := none
            machine := (Main.registerTimer now 1000 .renderProgress s).machine.step
              (.returns after) } := by
        simp only [step, rearm, hre]
      rw [hstep]
      have hlate : after ≤ r' := hr'.resolve_left fun hne => hne 1000 hre
      exact h.rearmed hrun hloop hle ⟨check, new,
        ⟨hheap ▸ List.Perm.swap _ _ _, hkeep.trans hcb, hself⟩, by omega, by omega⟩

/-- The end of a callback leaves the coordinator alone, the wish to stop, and whether the loop goes
on. -/
theorem step_returns_eq (env : Env) (s : State T) (now after : ℤ) :
    (step env s (.returns now after)).coordinator = s.coordinator ∧
      (step env s (.returns now after)).shutdownRequested = s.shutdownRequested ∧
      (step env s (.returns now after)).machine.loop.running = s.machine.loop.running ∧
      (step env s (.returns now after)).machine.place = .draining after ∧
      (step env s (.returns now after)).machine.clock = after ∧
      (step env s (.returns now after)).rearming = none := by
  rw [step, rearm]
  cases hre : s.rearming with
  | none => exact ⟨rfl, rfl, rfl, rfl, rfl, hre⟩
  | some x => exact ⟨rfl, rfl, rfl, rfl, rfl, rfl⟩

/-! ### One step -/

/-- The loop goes on to another place, and nothing else happens. -/
theorem Inv.goes (h : Inv s c r) {m : EventLoop.Machine} (hfrom : s.machine.place ≠ .inTimer)
    (hle : c ≤ m.clock) (hloop : EventLoop.Inv m) (hl : m.loop = s.machine.loop)
    (hin : m.place ≠ .inTimer) (hpoll : ∀ t, m.place ≠ .polling t)
    (hstop : m.loop.running = false → m.place = .outside ∨ ∃ now, m.place = .draining now) :
    Inv { s with machine := m } c r where
  loop := hloop
  since := hle
  clean := h.clean
  uncancelled := (congrArg EventLoop.cancelledTimers hl).trans h.uncancelled
  wait := fun t ht => absurd ht (hpoll t)
  armed := fun hrun _ => by
    obtain ⟨check, render, harmed, hdeadlines⟩ := h.armed ((congrArg _ hl).symm.trans hrun) hfrom
    exact ⟨check, render, { harmed with timers := hl ▸ harmed.timers }, hdeadlines⟩
  rearming := fun _ hp => absurd hp hin
  settled := fun _ => h.settled (Or.inr hfrom)
  stopped := fun hno => (hstop hno).imp_right Or.inr

/-- Nothing happens to the loop. -/
theorem Inv.congr (h : Inv s c r) (hm : s'.machine = s.machine) (hcb : s'.callbacks = s.callbacks)
    (hre : s'.rearming = s.rearming) (hclean : s'.coordinator.pieceManager.bitfield.Clean)
    (hall : s.machine.place = .inTimer → Complete s' → Complete s) : Inv s' c r where
  loop := hm ▸ h.loop
  since := hm ▸ h.since
  clean := hclean
  uncancelled := hm ▸ h.uncancelled
  wait := hm ▸ h.wait
  armed := fun hrun hplace => by
    rw [hm] at hrun hplace
    obtain ⟨check, render, harmed, hdeadlines⟩ := h.armed hrun hplace
    exact ⟨check, render, ⟨hm ▸ harmed.timers, hcb ▸ harmed.check_callback,
      hcb ▸ harmed.render_callback⟩, hdeadlines⟩
  rearming := fun hrun hplace => by
    rw [hm] at hrun hplace
    cases h.rearming hrun hplace with
    | check render hre' htimers hcb' hdead =>
      exact .check render (hre.trans hre') (hm ▸ htimers) (hcb ▸ hcb') hdead
    | render check hre' hnot htimers hcb' hdead =>
      exact .render check (hre.trans hre') (fun hc => hnot (hall hplace hc)) (hm ▸ htimers)
        (hcb ▸ hcb') hdead
  settled := fun hor => hre.trans (h.settled (hm ▸ hor))
  stopped := hm ▸ h.stopped

/-- A loop that is to stop does not wait, nor deal with events. -/
theorem Inv.running (h : Inv s c r) (hout : s.machine.place ≠ .outside)
    (hin : s.machine.place ≠ .inTimer) (hdrain : ∀ now, s.machine.place ≠ .draining now) :
    s.machine.loop.running = true := by
  cases hrun : s.machine.loop.running with
  | true => rfl
  | false =>
    rcases h.stopped hrun with hp | hp | ⟨now, hp⟩
    · exact absurd hp hout
    · exact absurd hp hin
    · exact absurd hp (hdrain now)

/-- A loop that deals with events goes on. -/
theorem Inv.running_of_inEvents (h : Inv s c r) (hplace : s.machine.place = .inEvents) :
    s.machine.loop.running = true :=
  h.running (by simp [hplace]) (by simp [hplace]) (by simp [hplace])

/-- **One step.** The bounds may be moved up to the clock, and need not be as long as no callback
registers its timer again. -/
theorem Inv.step (h : Inv s c r) (ha : Allowed env s a) (hc : c ≤ c') (hr : r ≤ r')
    (hle : c' ≤ (Main.step env s a).machine.clock)
    (hc' : (∀ d, s.rearming ≠ some (d, .checkShutdown)) ∨
      (Main.step env s a).machine.clock ≤ c')
    (hr' : (∀ d, s.rearming ≠ some (d, .renderProgress)) ∨
      (Main.step env s a).machine.clock ≤ r') :
    Inv (Main.step env s a) c' r' := by
  have hsince := h.since
  cases a with
  | sigint =>
    refine Inv.mono ?_ hc hle hr
    exact h.congr rfl rfl rfl h.clean fun _ => id
  | enter now =>
    have hplace : s.machine.place = .head := ha.1
    have hnow : s.machine.clock ≤ now := ha.2
    refine Inv.mono ?_ hc hle hr
    refine h.goes (by simp [hplace]) ?_ (h.loop.step ha trivial) ?_ ?_ ?_ ?_
    all_goals
      rw [EventLoop.Machine.step]
      split <;> simp_all
    omega
  | drain top io => exact (h.drain env io ha).mono hc hle hr
  | returns now after =>
    obtain ⟨-, -, -, -, hclock, -⟩ := step_returns_eq env s now after
    rw [hclock] at hle hc' hr'
    exact h.returns ha hc hr hle hc' hr'
  | drained =>
    obtain ⟨⟨now, hplace⟩, hcond⟩ := ha.1
    -- the heap of a running loop is not empty
    have hrun : s.machine.loop.running = false := by
      cases hrun : s.machine.loop.running with
      | false => rfl
      | true =>
        obtain ⟨check, render, harmed, -⟩ := h.armed hrun (by simp [hplace])
        have hnil := hcond.resolve_right (by simp [hrun])
        exact absurd harmed.timers (by simp [hnil])
    refine Inv.mono ?_ hc hle hr
    refine h.goes (by simp [hplace]) hsince (h.loop.step ha trivial) rfl ?_ ?_ ?_
    all_goals simp [EventLoop.Machine.step, hrun]
  | epollWait answer =>
    obtain ⟨t, hplace⟩ := ha.1
    have hrun : s.machine.loop.running = true :=
      h.running (by simp [hplace]) (by simp [hplace]) (by simp [hplace])
    refine Inv.mono ?_ hc hle hr
    cases answer <;> exact h.goes (by simp [hplace]) hsince (h.loop.step ha trivial) rfl
      (by simp [EventLoop.Machine.step]) (by simp [EventLoop.Machine.step])
      fun hno => absurd (hrun.symm.trans hno) (by decide)
  | event a =>
    have hplace : s.machine.place = .inEvents := ha.1
    refine Inv.mono ?_ hc hle hr
    exact h.congr rfl rfl rfl (Coordinator.clean_step env a h.clean) fun hp => by
      simp [hplace] at hp
  | dispatched =>
    have hplace : s.machine.place = .inEvents := ha.1
    have hrun := h.running_of_inEvents hplace
    refine Inv.mono ?_ hc hle hr
    exact h.goes (by simp [hplace]) hsince (h.loop.step ha trivial) rfl
      (by simp [EventLoop.Machine.step]) (by simp [EventLoop.Machine.step])
      fun hno => absurd (hrun.symm.trans hno) (by decide)
  | throws =>
    have hplace : s.machine.place = .inEvents := ha
    refine Inv.mono ?_ hc hle hr
    exact h.goes (by simp [hplace]) hsince
      (h.loop.step (a := .throws) ⟨Or.inr ha, trivial⟩ trivial) rfl
      (by simp [EventLoop.Machine.step]) (by simp [EventLoop.Machine.step])
      fun _ => Or.inl rfl

/-- The clock does not go back. -/
theorem Inv.clock_le (h : Inv s c r) (ha : Allowed env s a) :
    s.machine.clock ≤ (Main.step env s a).machine.clock := by
  cases a with
  | enter now =>
    rw [Main.step, EventLoop.Machine.step]
    split
    case isTrue => exact ha.2
    case isFalse => exact le_rfl
  | drain top io =>
    rcases h.drain_cases ha with ⟨t, -, -, hstep⟩ | ⟨other, hcalled, hclock, hroles⟩
    · rw [step_drain_wait hstep]
    · rcases hroles with ⟨htop, -⟩ | ⟨htop, -⟩
      · rw [step_drain hcalled.place htop, call, checkShutdown]
        split <;> exact hclock.ge
      · rw [step_drain hcalled.place htop, call, renderProgress]
        dsimp only
        split <;> exact hclock.ge
  | returns now after =>
    obtain ⟨-, -, -, -, hclock, -⟩ := step_returns_eq env s now after
    rw [hclock]
    exact ha.2.1.trans ha.2.2.1
  | epollWait answer => cases answer <;> exact le_rfl
  | _ => exact le_rfl

/-- **A wish to stop is seen**: from then on the timer that looks for it is not registered again. -/
theorem rearming_ne_step (env : Env) (a : Input) (hreq : s.shutdownRequested = true)
    (h : ∀ d, s.rearming ≠ some (d, .checkShutdown)) (d : ℤ) :
    (step env s a).rearming ≠ some (d, .checkShutdown) := by
  cases a with
  | drain top io =>
    rw [step]
    dsimp only
    split
    case h_1 callback hplace htop =>
      cases callback with
      | checkShutdown =>
        rw [call, checkShutdown, if_pos hreq]
        exact h d
      | renderProgress =>
        rw [call, renderProgress]
        dsimp only
        split
        · exact h d
        · simp
    case h_2 => exact h d
  | returns now after =>
    obtain ⟨-, -, -, -, -, hnone⟩ := step_returns_eq env s now after
    rw [hnone]
    simp
  | _ => exact h d

/-! ### Whole runs -/

theorem inv_start (disk : Disk) (ht : Readings clock t₁ t₂) :
    Inv (start T disk clock t₁ t₂) t₂ t₂ where
  loop := by
    have hfew : ∀ n : ℕ, n < 2 → n + 1 < 2 ^ 64 := fun n hn => by omega
    have hinit : EventLoop.Inv (.init clock) := EventLoop.inv_init
    have hcheck := hinit.step (a := .registerTimer t₁ 250 true)
      ⟨Or.inl rfl, ht.clock_le, by decide, hfew 0 (by decide)⟩ fun _ => ht.fits₁
    have hrender := hcheck.step (a := .registerTimer t₂ 1000 true)
      ⟨Or.inl rfl, ht.le, by decide, hfew 1 (by decide)⟩ fun _ => ht.fits₂
    exact hrender.step (a := .run) ⟨rfl, trivial⟩ trivial
  since := le_rfl
  clean := Bitfield.clean_empty _
  uncancelled := rfl
  wait := fun t ht => by simp [start, EventLoop.Machine.step] at ht
  armed := fun _ _ => by
    refine ⟨⟨1, EventLoop.deadline t₁ 250⟩, ⟨2, EventLoop.deadline t₂ 1000⟩,
      ⟨List.Perm.swap _ _ _, rfl, rfl⟩, ?_, ?_⟩
    · have hle := ht.le
      have hdead := EventLoop.deadline_eq (by decide) ht.fits₁
      dsimp only
      omega
    · have hdead := EventLoop.deadline_eq (by decide) ht.fits₂
      dsimp only
      omega
  rearming := fun _ hp => by simp [start, EventLoop.Machine.step] at hp
  settled := fun _ => rfl
  stopped := fun hrun => by simp [start, EventLoop.Machine.step] at hrun

/-- Every state of a run, with the bounds at the clock. -/
theorem inv_run {disk : Disk} (ht : Readings clock t₁ t₂)
    (hr : Runs.Reach (step env) (Allowed env) (start T disk clock t₁ t₂) l s) :
    Inv s s.machine.clock s.machine.clock :=
  hr.invariant (I := fun s => Inv s s.machine.clock s.machine.clock) (inv_start disk ht)
    fun _ _ hI ha => hI.step ha (hI.clock_le ha) (hI.clock_le ha) le_rfl (Or.inr le_rfl)
      (Or.inr le_rfl)

/-- A download that is complete stays complete. -/
theorem Complete.step (h : Complete s) (env : Env) (a : Input) : Complete (step env s a) := by
  cases a with
  | event a => exact fun i hi => Coordinator.hasPiece_step_of_hasPiece env a (h i hi)
  | drain top io =>
    rw [Complete, (step_drain_eq env s top io).1]
    exact h
  | returns now after =>
    rw [Complete, (step_returns_eq env s now after).1]
    exact h
  | _ => exact h

theorem shutdownRequested_step (h : s.shutdownRequested = true) (env : Env) (a : Input) :
    (step env s a).shutdownRequested = true := by
  cases a with
  | sigint => rfl
  | drain top io => exact (step_drain_eq env s top io).2.trans h
  | returns now after => exact (step_returns_eq env s now after).2.1.trans h
  | _ => exact h

/-- **What a wait says about the clock.** -/
theorem Inv.of_polling (h : Inv s c r) {t : ℤ} (hp : s.machine.place = .polling t) :
    s.machine.clock < c + 250000000 ∧ s.machine.clock < r + 1000000000 := by
  have hsettled := h.loop.settled
  rw [EventLoop.Settled, hp] at hsettled
  obtain ⟨hrun, hdue⟩ := hsettled
  obtain ⟨check, render, harmed, hcheck, hrender⟩ := h.armed hrun (by simp [hp])
  have hnone : ∀ t : Timer, t.id ∉ s.machine.loop.cancelledTimers := fun t => by
    rw [h.uncancelled]
    exact Finset.notMem_empty _
  exact ⟨(hdue check (harmed.timers.mem_iff.mpr (by simp)) (hnone check)).trans_le hcheck,
    (hdue render (harmed.timers.mem_iff.mpr (by simp)) (hnone render)).trans_le hrender⟩

/-- **What happens is noticed.** In every run, with any answers of `epoll_wait`, any events and
SIGINT at any time: while the loop is running both timers are pending, or the callback of one is
about to register it again; every wait has a timeout, of at most 250 ms; once a stop is requested
and no callback is about to register its timer, the loop does not wait any more when the clock has
gone on by 250 ms from its last reading, and once the download is complete when it has gone on by a
second. -/
theorem noticed {disk : Disk} (ht : Readings clock t₁ t₂)
    (hr : Runs.Reach (step env) (Allowed env) (start T disk clock t₁ t₂) l s) :
    (s.machine.loop.running = true → (∃ check render, Armed s check render) ∨
      Rearming s s.machine.clock s.machine.clock) ∧
    (∀ t, s.machine.place = .polling t → 0 ≤ t ∧ t ≤ 250) ∧
    ∀ l' s', Runs.Reach (step env) (Allowed env) s l' s' → ∀ t, s'.machine.place = .polling t →
      (s.shutdownRequested = true → s.rearming = none →
        s'.machine.clock < s.machine.clock + 250000000) ∧
      (Complete s → s'.machine.clock < s.machine.clock + 1000000000) := by
  have hI := inv_run ht hr
  refine ⟨fun hrun => ?_, hI.wait, fun l' s' hr' t hp => ⟨fun hreq hnone => ?_, fun hall => ?_⟩⟩
  · by_cases hin : s.machine.place = .inTimer
    · exact Or.inr (hI.rearming hrun hin)
    · obtain ⟨check, render, harmed, -⟩ := hI.armed hrun hin
      exact Or.inl ⟨check, render, harmed⟩
  · -- the timer that was pending when the stop was requested is not registered again
    have hkept : s'.shutdownRequested = true ∧ (∀ d, s'.rearming ≠ some (d, .checkShutdown)) ∧
        Inv s' s.machine.clock s'.machine.clock :=
      hr'.invariant (I := fun s' => s'.shutdownRequested = true ∧
          (∀ d, s'.rearming ≠ some (d, .checkShutdown)) ∧
          Inv s' s.machine.clock s'.machine.clock) ⟨hreq, by simp [hnone], hI⟩
        fun _ a ⟨hreq, hne, hI⟩ ha => ⟨shutdownRequested_step hreq env a,
          rearming_ne_step env a hreq hne,
          hI.step ha le_rfl (hI.clock_le ha) (hI.since.trans (hI.clock_le ha)) (Or.inl hne)
            (Or.inr le_rfl)⟩
    exact (hkept.2.2.of_polling hp).1
  · have hkept : Complete s' ∧ Inv s' s'.machine.clock s.machine.clock :=
      hr'.invariant (I := fun s' => Complete s' ∧ Inv s' s'.machine.clock s.machine.clock)
        ⟨hall, hI⟩
        fun _ a ⟨hall, hI⟩ ha => ⟨hall.step env a,
          hI.step ha (hI.clock_le ha) le_rfl le_rfl (Or.inr le_rfl)
            (Or.inl (hI.rearming_ne_of_complete hall))⟩
    exact (hkept.2.of_polling hp).2

/-- SIGINT comes in when `check_shutdown` has tested the flag and is about to register its timer,
which then expires at 510 ms. The callback has returned at 300 ms, and the wait that follows is
entered before 550 ms. -/
def lateStop : List Input :=
  [.enter 250000000, .drain ⟨1, 250000000⟩ fun _ => .good, .sigint, .returns 260000000 300000000]

/-- Both pieces come in after a first wait. -/
def firstEvents : List Input :=
  [.enter 0, .drain ⟨1, 250000000⟩ fun _ => .good, .epollWait .events] ++
    Coordinator.bothPieces.map .event

/-- A stop and a completion are noticed. -/
theorem noticed_late :
    let start : State Torrent.twoBytes := start Torrent.twoBytes Coordinator.twoBytesDisk 0 0 0
    let s := lateStop.foldl (step Env.calm) start
    let s' := step Env.calm s (.drain ⟨3, 510000000⟩ fun _ => .good)
    let t := firstEvents.foldl (step Env.calm) start
    let t' := ([.dispatched, .enter 100000000, .drain ⟨1, 250000000⟩ fun _ => .good] :
      List Input).foldl (step Env.calm) t
    (s'.machine.place = .polling 210 ∧ s'.machine.clock < s.machine.clock + 250000000) ∧
      t'.machine.place = .polling 150 ∧ t'.machine.clock < t.machine.clock + 1000000000 := by
  intro start s s' t t'
  have ht : Readings 0 0 0 := ⟨le_rfl, le_rfl, by decide, by decide⟩
  have hlate : (0 : ℤ) ≤ 250000000 := by decide
  have hfirstRead : (0 : ℤ) ≤ 100000000 := by decide
  have hs : Runs.Reach (step Env.calm) (Allowed Env.calm) start lateStop s := by
    refine Runs.reach_iff.mpr ⟨rfl, ?_⟩
    simp only [lateStop, Runs.throughout_cons]
    exact ⟨⟨rfl, hlate⟩, ⟨⟨250000000, rfl⟩, rfl, by decide⟩, trivial,
      ⟨rfl, by decide, by decide, by decide, by decide⟩, Runs.throughout_nil _⟩
  have hs' : Runs.Reach (step Env.calm) (Allowed Env.calm) s
      [.drain ⟨3, 510000000⟩ fun _ => .good] s' := by
    refine Runs.reach_iff.mpr ⟨rfl, ?_⟩
    simp only [Runs.throughout_cons]
    exact ⟨⟨⟨300000000, rfl⟩, rfl, by decide⟩, Runs.throughout_nil _⟩
  have hfirst : Runs.Reach (step Env.calm) (Allowed Env.calm) start firstEvents t := by
    refine Runs.reach_iff.mpr ⟨rfl, ?_⟩
    simp only [firstEvents, Coordinator.bothPieces, List.map_cons, List.map_nil, List.cons_append,
      List.nil_append, Runs.throughout_cons]
    refine ⟨⟨rfl, le_rfl⟩, ⟨⟨0, rfl⟩, rfl, ?_⟩, ⟨⟨250, rfl⟩, trivial⟩, ⟨rfl, ?_⟩, ⟨rfl, ?_⟩,
      ⟨rfl, ?_⟩, ⟨rfl, ?_⟩, ⟨rfl, ?_⟩, ⟨rfl, ?_⟩, Runs.throughout_nil _⟩
    all_goals decide +kernel
  have hlast : Runs.Reach (step Env.calm) (Allowed Env.calm) t
      [.dispatched, .enter 100000000, .drain ⟨1, 250000000⟩ fun _ => .good] t' := by
    refine Runs.reach_iff.mpr ⟨rfl, ?_⟩
    simp only [Runs.throughout_cons]
    exact ⟨⟨rfl, trivial⟩, ⟨rfl, hfirstRead⟩, ⟨⟨100000000, rfl⟩, rfl, by decide⟩,
      Runs.throughout_nil _⟩
  have hcomplete : Complete t := by
    show ∀ i < Torrent.twoBytes.count, t.coordinator.pieceManager.hasPiece i = true
    decide +kernel
  exact ⟨⟨rfl, ((noticed ht hs).2.2 _ _ hs' 210 rfl).1 rfl rfl⟩, rfl,
    ((noticed ht hfirst).2.2 _ _ hlast 150 rfl).2 hcomplete⟩

end Main

end TransferEngine
