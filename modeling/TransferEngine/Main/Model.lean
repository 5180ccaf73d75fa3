import TransferEngine.Coordinator.Integrity
import TransferEngine.EventLoop.Timers
import TransferEngine.Tracker.Model

/-!
# The main program

What `main` does once the peers are known: it puts two timers on the event loop and runs it. The
one looks every quarter of a second whether the user wants to stop; the other shows every second
how far the download has come, and brings the program to an end when it is complete.

A state (`TransferEngine.Main.State`) is the event loop with everything that hangs on it, and a step
(`TransferEngine.Main.step`) is a step of the loop together with what the callback that it calls
does. What the events of the wait bring, the coordinator handles; that SIGINT comes in is an input
as well, and so is what the clock reads.

A callback that puts its timer on the loop again decides to do so first, and `register_timer` reads
the clock later. SIGINT can come in between, so these are two steps, and the state tells what has
been decided (`TransferEngine.Main.State.rearming`).

The line of progress is kept without its floating-point numbers: the percentage, the bar and the
speed in MB/s.
-/

namespace TransferEngine

namespace Main

/-- The timers of `main`. -/
inductive Callback
  /-- `check_shutdown`. -/
  | checkShutdown
  /-- `render_progress`. -/
  | renderProgress
  deriving DecidableEq, Repr

/-- A line of progress. -/
structure Progress where
  /-- Bytes of the pieces that are complete. -/
  currentBytes : ℕ
  /-- The number of these pieces. -/
  completedPieces : ℕ
  /-- Bytes since the last line. -/
  bytesThisSec : ℕ
  /-- Bytes that are left. -/
  bytesLeft : ℕ
  /-- Minutes and seconds to go, where they can be told. -/
  eta : Option (ℕ × ℕ)
  deriving DecidableEq, Repr

/-- The program in the middle of a run. -/
structure State (T : Torrent) where
  /-- The event loop. -/
  machine : EventLoop.Machine
  /-- The callbacks of the timers, by id. -/
  callbacks : ℕ → Option Callback
  /-- The coordinator, and what it shares. -/
  coordinator : Coordinator.State T
  /-- The delay and the callback of the timer that the callback of a timer is about to register. -/
  rearming : Option (ℤ × Callback)
  /-- `g_shutdown_requested`. -/
  shutdownRequested : Bool
  /-- The bytes of the last line of progress. -/
  lastBytes : ℕ
  /-- The lines of progress so far, the latest first. -/
  shown : List Progress
  /-- The result of the closing validation. -/
  validated : Option Bool
  /-- What was announced to the tracker since the start, the latest first. -/
  announced : List AnnounceArgs

variable {T : Torrent}

/-! ### The callbacks -/

/-- `register_timer` of the loop. -/
def registerTimer (now delay : ℤ) (callback : Callback) (s : State T) : State T :=
  { s with
    machine := s.machine.step (.registerTimer now delay true)
    callbacks := Function.update s.callbacks (s.machine.loop.registerTimer now delay true).1
      (some callback) }

/-- `check_shutdown`, up to a call of `register_timer`. -/
def checkShutdown (s : State T) : State T :=
  if s.shutdownRequested then { s with machine := s.machine.step .shutdown }
  else { s with rearming := some (250, .checkShutdown) }

/-- The line that `render_progress` shows. -/
def progress (s : State T) : Progress :=
  let currentBytes := s.coordinator.pieceManager.getDownloadedBytes
  let bytesThisSec := if s.lastBytes < currentBytes then currentBytes - s.lastBytes else 0
  let bytesLeft := u64 (T.totalLength - currentBytes)
  { currentBytes
    completedPieces := s.coordinator.pieceManager.bitfield.count
    bytesThisSec
    bytesLeft
    eta :=
      if 0 < bytesThisSec then some (bytesLeft / bytesThisSec / 60, bytesLeft / bytesThisSec % 60)
      else none }

/-- What is announced when the download is complete. The bytes that were downloaded stand where
`announce` takes those that were uploaded. -/
def completedArgs (currentBytes : ℕ) : AnnounceArgs where
  listeningPort := 6881
  uploaded := .ofNat currentBytes
  downloaded := 0
  left := 0
  event := some "completed".toUTF8.toList

/-- `render_progress`, up to a call of `register_timer`. -/
def renderProgress (env : Env) (io : FileInfo → ReadOutcome) (s : State T) : State T :=
  let line := progress s
  let s := { s with lastBytes := line.currentBytes, shown := line :: s.shown }
  if line.completedPieces = T.count then
    { s with
      validated := some (Coordinator.allOk T env.sha1 io env.outputDir s.coordinator.disk)
      announced := completedArgs line.currentBytes :: s.announced
      machine := s.machine.step .shutdown }
  else { s with rearming := some (1000, .renderProgress) }

/-- The callback of a timer. -/
def call (env : Env) (io : FileInfo → ReadOutcome) (s : State T) : Callback → State T
  | .checkShutdown => checkShutdown s
  | .renderProgress => renderProgress env io s

/-- The call of `register_timer` that a callback ends with, if it does. -/
def rearm (now : ℤ) (s : State T) : State T :=
  match s.rearming with
  | some (delay, callback) => { registerTimer now delay callback s with rearming := none }
  | none => s

/-! ### Runs -/

/-- Where `main` enters the loop: both timers are registered, and nothing is downloaded. -/
def start (T : Torrent) (disk : Disk) (clock t₁ t₂ : ℤ) : State T :=
  let s : State T :=
    { machine := .init clock
      callbacks := fun _ => none
      coordinator := .init T disk
      rearming := none
      shutdownRequested := false
      lastBytes := 0
      shown := []
      validated := none
      announced := [] }
  let s := registerTimer t₂ 1000 .renderProgress (registerTimer t₁ 250 .checkShutdown s)
  { s with machine := s.machine.step .run }

/-- What can happen next. -/
inductive Input
  /-- SIGINT comes in. -/
  | sigint
  /-- The outer loop tests `running_` and reads the clock. -/
  | enter (now : ℤ)
  /-- A pass of the draining loop. A callback that it calls finds the files as `io` has it, and
  has come to `register_timer` or to its end. -/
  | drain (top : Timer) (io : FileInfo → ReadOutcome)
  /-- The callback of a timer comes to its end. If it registers its timer again the clock reads
  `now`, and when it has returned the clock reads `after`. -/
  | returns (now after : ℤ)
  /-- The draining loop is over, because its condition is false. -/
  | drained
  /-- `epoll_wait` returns. -/
  | epollWait (answer : EventLoop.Answer)
  /-- The coordinator is called in the loop over the events. -/
  | event (a : Coordinator.Input)
  /-- The events are dealt with. -/
  | dispatched
  /-- The callback of an event throws, and `run` with it. -/
  | throws

/-- **One step.** -/
def step (env : Env) (s : State T) : Input → State T
  | .sigint => { s with shutdownRequested := true }
  | .enter now => { s with machine := s.machine.step (.enter now) }
  | .drain top io =>
    let s := { s with machine := s.machine.step (.drain top) }
    match s.machine.place, s.callbacks top.id with
    | .inTimer, some callback => call env io s callback
    | _, _ => s
  | .returns now after =>
    let s := rearm now s
    { s with machine := s.machine.step (.returns after) }
  | .drained => { s with machine := s.machine.step .drained }
  | .epollWait answer => { s with machine := s.machine.step (.epollWait answer) }
  | .event a => { s with coordinator := Coordinator.step env s.coordinator a }
  | .dispatched => { s with machine := s.machine.step .dispatched }
  | .throws => { s with machine := s.machine.step .throws }

/-- **What can happen** where the program stands, under a clock that does not go back and is a
second away from its end, with fewer than 2^64 timers, and as long as what the coordinator does is
defined. -/
def Allowed (env : Env) (s : State T) : Input → Prop
  | .sigint => True
  | .enter now => EventLoop.Allowed s.machine (.enter now)
  | .drain top _ => EventLoop.Enabled s.machine (.drain top)
  | .returns now after => s.machine.place = .inTimer ∧ s.machine.clock ≤ now ∧ now ≤ after ∧
      EventLoop.Fits now 1000 ∧ (EventLoop.registered s.machine.trace).length + 1 < 2 ^ 64
  | .drained => EventLoop.Allowed s.machine .drained
  | .epollWait answer => EventLoop.Allowed s.machine (.epollWait answer)
  | .event a => s.machine.place = .inEvents ∧ Coordinator.Defined env s.coordinator a
  | .dispatched => EventLoop.Allowed s.machine .dispatched
  | .throws => s.machine.place = .inEvents

/-- **The readings of the clock at the start**: they do not go back, and the first deadlines do not
overflow. -/
structure Readings (clock t₁ t₂ : ℤ) : Prop where
  /-- The first timer is registered after the loop was made. -/
  clock_le : clock ≤ t₁
  /-- The second timer is registered after the first. -/
  le : t₁ ≤ t₂
  /-- The deadline of the first timer does not overflow. -/
  fits₁ : EventLoop.Fits t₁ 250
  /-- The deadline of the second timer does not overflow. -/
  fits₂ : EventLoop.Fits t₂ 1000

/-- Every piece is complete. -/
def Complete (s : State T) : Prop := ∀ i < T.count, s.coordinator.pieceManager.hasPiece i = true

end Main

end TransferEngine
