import Mathlib.Algebra.Ring.Int.Defs
import Mathlib.Algebra.Ring.Nat
import Mathlib.Data.Finset.Basic
import TransferEngine.Lib.Runs

/-!
# The event loop

`EventLoop` of `event_loop.hpp`, as far as its timers go: the heap of pending timers, the
set of cancelled ids, and the loop of `run` that drains the one with the help of the other
before it waits for events.

A timer's callback, and the callback of a file descriptor, is code of the caller. While it
runs it may register and cancel timers and shut the loop down, any number of times and in any
order, so the loop is a machine with one input per thing that happens
(`TransferEngine.EventLoop.Input`), and where it stands is part of its state
(`TransferEngine.EventLoop.Place`). Three things are not decided by the program and come with
the input: what the clock reads, which of several timers with the least deadline
`std::priority_queue::top` returns, and what `epoll_wait` answers.

Times are in nanoseconds, and delays in milliseconds. Both are 64 bits wide, and so are ids; the
wraps of the sums, and of `next_timer_id_`, are written out. What a registration asks for is
recorded next to the timer that it puts on the heap, since the two differ where the sum wraps.
-/

namespace TransferEngine

/-- `EventLoop::Timer`. The callback is not a field: what it does is input. -/
structure Timer where
  /-- The id `register_timer` returned. -/
  id : ℕ
  /-- When it expires. -/
  deadline : ℤ
  deriving DecidableEq, Repr

/-- The timer side of an event loop. -/
structure EventLoop where
  /-- Whether the loop goes on. -/
  running : Bool := false
  /-- The id of the next timer, 64 bits. -/
  nextTimerId : ℕ := 1
  /-- The timers on the heap, in no particular order. -/
  timers : List Timer := []
  /-- The cancelled ids that have not been seen at the top of the heap yet. -/
  cancelledTimers : Finset ℕ := ∅

namespace EventLoop

/-- `now + delay`, in 64 bits: the delay is turned into nanoseconds, and then added. -/
def deadline (now delay : ℤ) : ℤ := (now + (delay * 1000000).bmod (2 ^ 64)).bmod (2 ^ 64)

/-- Register a timer. Without a callback nothing happens, and the id is 0. -/
def registerTimer (loop : EventLoop) (now delay : ℤ) (callback : Bool) : ℕ × EventLoop :=
  if callback = false then (0, loop)
  else
    (loop.nextTimerId,
      { loop with
        nextTimerId := (loop.nextTimerId + 1) % 2 ^ 64
        timers := { id := loop.nextTimerId, deadline := deadline now delay } :: loop.timers })

/-- Cancel a timer: its id is noted, the heap is left alone. -/
def cancelTimer (loop : EventLoop) (timerId : ℕ) : EventLoop :=
  if 0 < timerId then { loop with cancelledTimers := insert timerId loop.cancelledTimers }
  else loop

/-- Have the loop stop. -/
def shutdown (loop : EventLoop) : EventLoop := { loop with running := false }

/-- **What `top` may return**: a timer of the heap with the least deadline. -/
def IsTop (timers : List Timer) (top : Timer) : Prop :=
  top ∈ timers ∧ ∀ t ∈ timers, top.deadline ≤ t.deadline

instance (timers : List Timer) (top : Timer) : Decidable (IsTop timers top) :=
  inferInstanceAs (Decidable (_ ∧ _))

/-- What a pass of the draining loop comes to. -/
inductive Pass
  /-- The top timer was cancelled and is gone. -/
  | pruned (loop : EventLoop)
  /-- The top timer has expired: it is gone, and its callback is called. -/
  | expired (timer : Timer) (loop : EventLoop)
  /-- The top timer is not due: wait for so many milliseconds. -/
  | wait (timeoutMs : ℤ)

/-- One pass of the draining loop, with `top` at the top of the heap. -/
def pass (loop : EventLoop) (now : ℤ) (top : Timer) : Pass :=
  if top.id ∈ loop.cancelledTimers then
    .pruned { loop with
      cancelledTimers := loop.cancelledTimers.erase top.id
      timers := loop.timers.erase top }
  else if top.deadline ≤ now then .expired top { loop with timers := loop.timers.erase top }
  -- `duration_cast` rounds towards zero, and the count is narrowed to an `int`
  else .wait ((((top.deadline - now).bmod (2 ^ 64)).tdiv 1000000).bmod (2 ^ 32))

/-! ### Runs -/

/-- Where the loop stands. -/
inductive Place
  /-- `run` is not being executed. -/
  | outside
  /-- At the head of the outer loop. -/
  | head
  /-- At the head of the draining loop, after a reading of the clock. -/
  | draining (now : ℤ)
  /-- In the callback of a timer. -/
  | inTimer
  /-- At `epoll_wait`. -/
  | polling (timeoutMs : ℤ)
  /-- In the loop over the events, or in a callback it calls. -/
  | inEvents
  deriving DecidableEq

/-- What is recorded of a run. -/
inductive Event
  /-- A timer was put on the heap, which was to expire `delay` milliseconds after `now`. -/
  | registered (timer : Timer) (now delay : ℤ)
  /-- `cancel_timer` was called. -/
  | cancelled (timerId : ℕ)
  /-- The callback of a timer was called, after the clock had read `now`. -/
  | fired (timer : Timer) (now : ℤ)
  deriving DecidableEq

/-- A loop in the middle of a run. -/
structure Machine where
  /-- The loop. -/
  loop : EventLoop
  /-- Where it stands. -/
  place : Place
  /-- The last reading of the clock. -/
  clock : ℤ
  /-- What happened so far. -/
  trace : List Event

/-- A loop that was just made. -/
def Machine.init (clock : ℤ) : Machine := { loop := {}, place := .outside, clock, trace := [] }

/-- What `epoll_wait` answers. -/
inductive Answer
  /-- The wait was interrupted. -/
  | interrupted
  /-- It failed. -/
  | failed
  /-- There are events, or the time is over. -/
  | events
  deriving DecidableEq

/-- What can happen next. -/
inductive Input
  /-- Code of the caller registers a timer. -/
  | registerTimer (now delay : ℤ) (callback : Bool)
  /-- Code of the caller cancels a timer. -/
  | cancelTimer (timerId : ℕ)
  /-- Code of the caller shuts the loop down. -/
  | shutdown
  /-- `run` is called. -/
  | run
  /-- The outer loop tests `running_` and reads the clock. -/
  | enter (now : ℤ)
  /-- A pass of the draining loop. -/
  | drain (top : Timer)
  /-- The draining loop is over, because its condition is false. -/
  | drained
  /-- The callback of a timer returns and the clock is read. -/
  | returns (now : ℤ)
  /-- A callback throws, and `run` with it. -/
  | throws
  /-- `epoll_wait` returns. -/
  | epollWait (answer : Answer)
  /-- The events are dealt with. -/
  | dispatched

/-- **One step.** -/
def Machine.step (m : Machine) : Input → Machine
  | .registerTimer now delay callback =>
    if callback = false then m
    else
      { m with
        loop := (m.loop.registerTimer now delay callback).2
        clock := now
        trace := m.trace ++ [.registered
          { id := (m.loop.registerTimer now delay callback).1, deadline := deadline now delay }
          now delay] }
  | .cancelTimer timerId =>
    { m with
      loop := m.loop.cancelTimer timerId
      trace := m.trace ++ [.cancelled timerId] }
  | .shutdown => { m with loop := m.loop.shutdown }
  | .run => { m with loop := { m.loop with running := true }, place := .head }
  | .enter now =>
    if m.loop.running then { m with place := .draining now, clock := now }
    else { m with place := .outside }
  | .drain top =>
    match m.place with
    | .draining now =>
      match m.loop.pass now top with
      | .pruned loop => { m with loop }
      | .expired timer loop =>
        { m with loop, place := .inTimer, trace := m.trace ++ [.fired timer now] }
      | .wait timeoutMs => { m with place := .polling timeoutMs }
    | _ => m
  | .drained => { m with place := if m.loop.running then .polling (-1) else .outside }
  | .returns now => { m with place := .draining now, clock := now }
  | .throws => { m with place := .outside }
  | .epollWait .interrupted => { m with place := .head }
  | .epollWait .failed => { m with place := .outside }
  | .epollWait .events => { m with place := .inEvents }
  | .dispatched => { m with place := .head }

/-- The timers put on the heap so far, in order. -/
def registered (trace : List Event) : List Timer :=
  trace.filterMap fun
    | .registered t _ _ => some t
    | _ => none

/-- The timers whose callbacks were called so far, in order. -/
def fired (trace : List Event) : List Timer :=
  trace.filterMap fun
    | .fired t _ => some t
    | _ => none

/-- Code of the caller is running. -/
def Place.InCaller (p : Place) : Prop := p = .outside ∨ p = .inTimer ∨ p = .inEvents

/-- **What the program allows to happen** where it stands. -/
def Enabled (m : Machine) : Input → Prop
  | .registerTimer _ _ _ => m.place.InCaller
  | .cancelTimer _ => m.place.InCaller
  | .shutdown => m.place.InCaller
  | .run => m.place = .outside
  | .enter _ => m.place = .head
  | .drain top =>
    (∃ now, m.place = .draining now) ∧ m.loop.running = true ∧ IsTop m.loop.timers top
  | .drained => (∃ now, m.place = .draining now) ∧ (m.loop.timers = [] ∨ m.loop.running = false)
  | .returns _ => m.place = .inTimer
  | .throws => m.place = .inTimer ∨ m.place = .inEvents
  | .epollWait _ => ∃ timeoutMs, m.place = .polling timeoutMs
  | .dispatched => m.place = .inEvents

/-- **What is promised of the inputs**: the clock does not go back, delays are not negative,
only ids that `register_timer` returned are cancelled, and there are fewer than 2^64 timers. -/
def Promised (m : Machine) : Input → Prop
  | .registerTimer now delay _ =>
    m.clock ≤ now ∧ 0 ≤ delay ∧ (registered m.trace).length + 1 < 2 ^ 64
  | .cancelTimer timerId => timerId = 0 ∨ ∃ t ∈ registered m.trace, t.id = timerId
  | .enter now => m.clock ≤ now
  | .returns now => m.clock ≤ now
  | _ => True

/-- An input that can happen and keeps the promise. -/
def Allowed (m : Machine) (a : Input) : Prop := Enabled m a ∧ Promised m a

/-- **The sum does not overflow**: the reading, the delay in nanoseconds and the deadline are all
64 bits wide. -/
def Fits (now delay : ℤ) : Prop :=
  -2 ^ 63 ≤ now ∧ delay * 1000000 < 2 ^ 63 ∧ now + delay * 1000000 < 2 ^ 63

instance (now delay : ℤ) : Decidable (Fits now delay) := inferInstanceAs (Decidable (_ ∧ _))

/-- No deadline overflows. -/
def InRange : Input → Prop
  | .registerTimer now delay callback => callback = true → Fits now delay
  | _ => True

end EventLoop

end TransferEngine
