import Mathlib.Data.List.Chain
import TransferEngine.Connection.Model

/-!
# The life of a connection

What a connection may do, and when, is said by a small machine that reads what happens
(`TransferEngine.Phase`). It has a phase for each state of a connection and two for the
moments between entering a state and calling the callback for it.

* Whatever it allows has the properties one expects of the life of a connection
  (`TransferEngine.Phase.lifecycle_of_lives`): the state moves forward, the callbacks are called
  where they should be, and nothing follows the end.
* A connection does nothing that it does not allow (`TransferEngine.Endpoint.Inv`): the phase after
  what happened is the one of the connection's state. The functions that were interrupted by a
  callback go on with an empty buffer and a closed socket, and find nothing to do.
-/

namespace TransferEngine

/-- The phases of a connection. -/
inductive Phase
  | idle
  | connecting
  | handshaking
  /-- Active, and `on_handshake` is not called yet. -/
  | activated
  | active
  /-- Disconnected, and `on_disconnect` is not called yet. -/
  | closing
  | closed
  deriving DecidableEq

namespace Phase

/-- The phase of a state, once its callback is called. -/
def ofState : ConnectionState → Phase
  | .idle => idle
  | .connecting => connecting
  | .handshaking => handshaking
  | .active => active
  | .disconnected => closed

/-- The phase that a state is entered in. -/
def entering : ConnectionState → Phase
  | .active => activated
  | .disconnected => closing
  | σ => ofState σ

/-- The phase after something happens. -/
def next (p : Phase) : Happening → Phase
  | .entered σ => entering σ
  | .call (.onHandshake _) => active
  | .call (.onMessage _) => p
  | .call .onDisconnect => closed
  | .queued _ => p
  | .handed _ _ => p

/-- The phases in which the connection is not closed and owes no call. -/
def IsOpen (p : Phase) : Prop := p = idle ∨ p = connecting ∨ p = handshaking ∨ p = active

/-- **What may happen** in a phase. -/
def Allows (p : Phase) : Happening → Prop
  | .entered .idle => False
  | .entered .connecting => p = idle
  | .entered .handshaking => p = connecting
  | .entered .active => p = handshaking
  | .entered .disconnected => p.IsOpen
  | .call (.onHandshake _) => p = activated
  | .call (.onMessage _) => p = active
  | .call .onDisconnect => p = closing
  | .queued _ => p.IsOpen
  | .handed _ _ => p = handshaking ∨ p = active

/-- What happened is allowed, and leads to the phase. -/
abbrev Lives : List Happening → Phase → Prop := Runs.Reach next Allows idle

end Phase

/-! ### The properties of a life -/

/-- The states entered, in order. -/
def states (trace : List Happening) : List ConnectionState :=
  trace.filterMap fun
    | .entered σ => some σ
    | _ => none

/-- The last state entered. -/
def lastState (trace : List Happening) : ConnectionState := (states trace).getLast?.getD .idle

/-- The order of the states. -/
inductive ConnectionState.Next : ConnectionState → ConnectionState → Prop
  | connect : Next .idle .connecting
  | handshake : Next .connecting .handshaking
  | activate : Next .handshaking .active
  | disconnect {σ : ConnectionState} : σ ≠ .disconnected → Next σ .disconnected

/-- Whether something is a call of `on_handshake`. -/
def Happening.isHandshake : Happening → Bool
  | .call (.onHandshake _) => true
  | _ => false

/-- Whether something is a call of `on_disconnect`. -/
def Happening.isDisconnect : Happening → Bool
  | .call .onDisconnect => true
  | _ => false

/-- **The life of a connection**, as what happened tells it. -/
structure Lifecycle (trace : List Happening) : Prop where
  /-- The state moves forward, one state at a time or to the end. -/
  forward : List.IsChain ConnectionState.Next (.idle :: states trace)
  /-- `on_handshake` is called at most once. -/
  handshake_once : trace.countP Happening.isHandshake ≤ 1
  /-- `on_handshake` is called on entering `Active`. -/
  handshake_entering : Runs.Along trace fun before e =>
    ∀ h, e = .call (.onHandshake h) → ∃ l, before = l ++ [.entered .active]
  /-- `on_message` is called while `Active`, and after `on_handshake`. -/
  message_active : Runs.Along trace fun before e =>
    ∀ m, e = .call (.onMessage m) →
      lastState before = .active ∧ ∃ h, .call (.onHandshake h) ∈ before
  /-- `on_disconnect` is called at most once. -/
  disconnect_once : trace.countP Happening.isDisconnect ≤ 1
  /-- `on_disconnect` is called on entering `Disconnected`. -/
  disconnect_entering : Runs.Along trace fun before e =>
    e = .call .onDisconnect → ∃ l, before = l ++ [.entered .disconnected]
  /-- After `Disconnected` is entered `on_disconnect` is called, and that is all: no other
  callback is called, and no byte is queued or handed to the socket. -/
  ended : ∀ l₁ l₂, trace = l₁ ++ .entered .disconnected :: l₂ → l₂ = [.call .onDisconnect]

namespace Phase

variable {trace : List Happening} {p : Phase} {e : Happening}

/-- The state of a phase. -/
def state : Phase → ConnectionState
  | idle => .idle
  | connecting => .connecting
  | handshaking => .handshaking
  | activated => .active
  | active => .active
  | closing => .disconnected
  | closed => .disconnected

/-- **The moves of the machine**, one by one. -/
inductive Move : Phase → Happening → Phase → Prop
  | connect : Move idle (.entered .connecting) connecting
  | handshake : Move connecting (.entered .handshaking) handshaking
  | activate : Move handshaking (.entered .active) activated
  | shake (h : HandshakeMsg) : Move activated (.call (.onHandshake h)) active
  | message (m : PeerMessage) : Move active (.call (.onMessage m)) active
  | close {p : Phase} : p.IsOpen → Move p (.entered .disconnected) closing
  | hang : Move closing (.call .onDisconnect) closed
  | queue {p : Phase} (bytes : List UInt8) : p.IsOpen → Move p (.queued bytes) p
  | hand {p : Phase} (bytes : List UInt8) (n : ℕ) : p = handshaking ∨ p = active →
      Move p (.handed bytes n) p

theorem move_of_allows (h : p.Allows e) : Move p e (p.next e) := by
  cases e with
  | entered σ =>
    cases σ with
    | idle => exact h.elim
    | connecting => exact h ▸ .connect
    | handshaking => exact h ▸ .handshake
    | active => exact h ▸ .activate
    | disconnected => exact .close h
  | call e =>
    cases e with
    | onHandshake m => exact (show p = activated from h) ▸ .shake m
    | onMessage m => exact (show p = active from h) ▸ .message m
    | onDisconnect => exact (show p = closing from h) ▸ .hang
  | queued bytes => exact .queue bytes h
  | handed bytes n => exact .hand bytes n h

/-- Induction over a life, move by move. -/
theorem Lives.induction {I : List Happening → Phase → Prop} (h : Lives trace p) (h₀ : I [] idle)
    (hmove : ∀ l p e q, Lives l p → I l p → Move p e q → I (l ++ [e]) q) : I trace p :=
  h.history h₀ fun l p e hl hI he => hmove l p e (p.next e) hl hI (move_of_allows he)

/-- **The state moves forward**, and the phase tells which one was entered last. -/
theorem Lives.forward (h : Lives trace p) :
    List.IsChain ConnectionState.Next (.idle :: states trace) ∧ lastState trace = p.state := by
  -- most happenings enter no state
  have hkeep : ∀ l e, states [e] = [] → states (l ++ [e]) = states l := by
    intro l e he
    rw [states, List.filterMap_append, ← states, ← states, he, List.append_nil]
  have henter : ∀ l (p : Phase) σ,
      List.IsChain ConnectionState.Next (.idle :: states l) ∧ lastState l = p.state →
      p.state.Next σ → List.IsChain ConnectionState.Next (.idle :: states (l ++ [.entered σ])) ∧
        lastState (l ++ [.entered σ]) = σ := by
    rintro l p σ ⟨hchain, hlast⟩ hnext
    have hstates : states (l ++ [.entered σ]) = states l ++ [σ] := List.filterMap_append
    refine ⟨?_, by rw [lastState, hstates, List.getLast?_concat, Option.getD_some]⟩
    -- a chain grows at its end, and its last link is the last state entered
    rw [hstates, ← List.cons_append, List.isChain_append]
    refine ⟨hchain, List.isChain_singleton _, fun a ha b hb => ?_⟩
    obtain rfl : σ = b := by simpa using hb
    obtain rfl : lastState l = a := by
      rw [lastState]
      rcases hl : states l with _ | ⟨c, rest⟩
      · simpa [hl] using ha
      · rw [hl, List.getLast?_cons_cons] at ha
        rw [Option.mem_def.mp ha, Option.getD_some]
    rw [hlast]
    exact hnext
  refine h.induction (I := fun trace p =>
    List.IsChain ConnectionState.Next (.idle :: states trace) ∧ lastState trace = p.state)
    ⟨List.isChain_singleton _, rfl⟩ ?_
  intro l p e q _ hI hmove
  cases hmove with
  | connect => exact henter l idle _ hI .connect
  | handshake => exact henter l connecting _ hI .handshake
  | activate => exact henter l handshaking _ hI .activate
  | close hopen =>
    refine henter l p _ hI (.disconnect ?_)
    rcases hopen with rfl | rfl | rfl | rfl <;> simp [state]
  | shake m => rwa [lastState, hkeep l _ rfl]
  | message m => rwa [lastState, hkeep l _ rfl]
  | hang => rwa [lastState, hkeep l _ rfl]
  | queue bytes _ => rwa [lastState, hkeep l _ rfl]
  | hand bytes n _ => rwa [lastState, hkeep l _ rfl]

/-- How often `on_handshake` may have been called. -/
def Shaken (n : ℕ) : Phase → Prop
  | idle | connecting | handshaking | activated => n = 0
  | active => n = 1
  | closing | closed => n ≤ 1

theorem Lives.shaken (h : Lives trace p) : Shaken (trace.countP Happening.isHandshake) p := by
  refine h.induction (I := fun trace p => Shaken (trace.countP Happening.isHandshake) p) rfl ?_
  intro l p e q _ hI hmove
  rw [List.countP_append, List.countP_singleton]
  cases hmove with
  | shake m => exact congrArg (· + 1) hI
  | close hopen =>
    have hle : l.countP Happening.isHandshake ≤ 1 := by
      rcases hopen with rfl | rfl | rfl | rfl <;> exact hI.le.trans (by simp)
    exact hle
  | connect => exact hI
  | handshake => exact hI
  | activate => exact hI
  | message m => exact hI
  | hang => exact hI
  | queue bytes _ => exact hI
  | hand bytes n _ => exact hI

/-- How often `on_disconnect` may have been called. -/
def Hung (n : ℕ) : Phase → Prop
  | closed => n = 1
  | _ => n = 0

theorem Lives.hung (h : Lives trace p) : Hung (trace.countP Happening.isDisconnect) p := by
  refine h.induction (I := fun trace p => Hung (trace.countP Happening.isDisconnect) p) rfl ?_
  intro l p e q _ hI hmove
  rw [List.countP_append, List.countP_singleton]
  cases hmove with
  | hang => exact congrArg (· + 1) hI
  | close hopen => rcases hopen with rfl | rfl | rfl | rfl <;> exact hI
  | connect => exact hI
  | handshake => exact hI
  | activate => exact hI
  | shake m => exact hI
  | message m => exact hI
  | queue bytes _ => exact hI
  | hand bytes n _ => exact hI

/-- What the trace ends with when the connection is disconnected. -/
def Over (trace : List Happening) : Phase → Prop
  | closing => ∃ l, trace = l ++ [.entered .disconnected] ∧ .entered .disconnected ∉ l
  | closed => ∃ l, trace = l ++ [.entered .disconnected, .call .onDisconnect] ∧
      .entered .disconnected ∉ l
  | _ => .entered .disconnected ∉ trace

theorem Lives.over (h : Lives trace p) : Over trace p := by
  have hadd : ∀ l (e : Happening), e ≠ .entered .disconnected → .entered .disconnected ∉ l →
      .entered .disconnected ∉ l ++ [e] := by
    intro l e he hl
    rw [List.mem_append, List.mem_singleton, not_or]
    exact ⟨hl, he.symm⟩
  refine h.induction (I := Over) (by simp [Over]) ?_
  intro l p e q _ hI hmove
  cases hmove with
  | close hopen =>
    refine ⟨l, rfl, ?_⟩
    rcases hopen with rfl | rfl | rfl | rfl <;> exact hI
  | hang =>
    obtain ⟨l', rfl, hl'⟩ := hI
    exact ⟨l', by simp, hl'⟩
  | connect => exact hadd l _ (by simp) hI
  | handshake => exact hadd l _ (by simp) hI
  | activate => exact hadd l _ (by simp) hI
  | shake m => exact hadd l _ (by simp) hI
  | message m => exact hadd l _ (by simp) hI
  | queue bytes hopen =>
    rcases hopen with rfl | rfl | rfl | rfl <;> exact hadd l _ (by simp) hI
  | hand bytes n hopen => rcases hopen with rfl | rfl <;> exact hadd l _ (by simp) hI

/-- The moments between entering a state and the callback for it. -/
theorem Lives.ends (h : Lives trace p) :
    (p = activated → ∃ l, trace = l ++ [.entered .active]) ∧
      (p = closing → ∃ l, trace = l ++ [.entered .disconnected]) := by
  refine h.induction (I := fun trace p => (p = activated → ∃ l, trace = l ++ [.entered .active]) ∧
    (p = closing → ∃ l, trace = l ++ [.entered .disconnected])) (by simp) ?_
  intro l p e q _ hI hmove
  cases hmove with
  | activate => exact ⟨fun _ => ⟨l, rfl⟩, by simp⟩
  | close _ => exact ⟨by simp, fun _ => ⟨l, rfl⟩⟩
  | connect => simp
  | handshake => simp
  | shake m => simp
  | message m => simp
  | hang => simp
  | queue bytes hopen => rcases hopen with rfl | rfl | rfl | rfl <;> simp
  | hand bytes n hopen => rcases hopen with rfl | rfl <;> simp

/-- **What the machine allows is a life**, once it owes no call. -/
theorem lifecycle_of_lives {σ : ConnectionState} (h : Lives trace (ofState σ)) :
    Lifecycle trace where
  forward := (Lives.forward h).1
  handshake_once := by
    have hn := Lives.shaken h
    cases σ with
    | idle => exact hn.le.trans (by simp)
    | connecting => exact hn.le.trans (by simp)
    | handshaking => exact hn.le.trans (by simp)
    | active => exact hn.le
    | disconnected => exact hn
  handshake_entering := by
    rintro l₁ e l₂ hl m rfl
    obtain ⟨q, hq, hallows⟩ := h.places l₁ _ l₂ hl
    exact (Lives.ends hq).1 hallows
  message_active := by
    rintro l₁ e l₂ hl m rfl
    obtain ⟨q, hq, rfl⟩ := h.places l₁ _ l₂ hl
    refine ⟨(Lives.forward hq).2, ?_⟩
    -- the phase is `active`, so `on_handshake` was called before
    have hn : l₁.countP Happening.isHandshake = 1 := Lives.shaken hq
    obtain ⟨e, he, hshake⟩ := List.countP_pos_iff.mp (hn ▸ Nat.one_pos)
    rcases e with _ | (m' | _ | _) | _ | _
    all_goals first | exact ⟨m', he⟩ | cases hshake
  disconnect_once := by
    have hn := Lives.hung h
    cases σ with
    | disconnected => exact hn.le
    | idle => exact hn.le.trans (by simp)
    | connecting => exact hn.le.trans (by simp)
    | handshaking => exact hn.le.trans (by simp)
    | active => exact hn.le.trans (by simp)
  disconnect_entering := by
    rintro l₁ e l₂ hl rfl
    obtain ⟨q, hq, hallows⟩ := h.places l₁ _ l₂ hl
    exact (Lives.ends hq).2 hallows
  ended := by
    intro l₁ l₂ hl
    have hmem : Happening.entered .disconnected ∈ trace := by simp [hl]
    have hover := Lives.over h
    cases σ with
    | disconnected =>
      obtain ⟨l, hend, hnot⟩ := hover
      rcases List.append_eq_append_iff.mp (hend.symm.trans hl) with ⟨w, rfl, hw⟩ | ⟨w, rfl, hw⟩
      · -- the state is entered in the last two happenings
        rcases w with _ | ⟨a, _ | ⟨b, w⟩⟩
        · simpa using hw.symm
        · simp at hw
        · simp at hw
      · rcases w with _ | ⟨a, w⟩
        · simpa using hw
        · obtain rfl : Happening.entered .disconnected = a := by simpa using (List.cons.inj hw).1
          simp at hnot
    | idle => exact absurd hmem hover
    | connecting => exact absurd hmem hover
    | handshaking => exact absurd hmem hover
    | active => exact absurd hmem hover

/-! ### Extending a life -/

theorem isOpen_ofState {σ : ConnectionState} (h : σ ≠ .disconnected) : (ofState σ).IsOpen := by
  cases σ with
  | disconnected => exact absurd rfl h
  | idle => exact Or.inl rfl
  | connecting => exact Or.inr (Or.inl rfl)
  | handshaking => exact Or.inr (Or.inr (Or.inl rfl))
  | active => exact Or.inr (Or.inr (Or.inr rfl))

theorem Lives.snoc (h : Lives trace p) (e : Happening) (he : p.Allows e) :
    Lives (trace ++ [e]) (p.next e) :=
  Runs.Reach.snoc h he

/-- A connection that is not closed may be closed. -/
theorem Lives.close (h : Lives trace p) (hp : p.IsOpen) :
    Lives (trace ++ [.entered .disconnected] ++ [.call .onDisconnect]) closed :=
  (Lives.snoc h (.entered .disconnected) hp).snoc (.call .onDisconnect) rfl

/-- A connection that is not closed may queue bytes. -/
theorem Lives.queue (h : Lives trace p) (hp : p.IsOpen) (bytes : List UInt8) :
    Lives (trace ++ [.queued bytes]) p :=
  Lives.snoc h (.queued bytes) hp

/-- While the handshake is exchanged or later, bytes may be handed to the socket. -/
theorem Lives.hand (h : Lives trace p) (hp : p = handshaking ∨ p = active) {l : List Happening}
    (hl : ∀ e ∈ l, ∃ bytes n, e = .handed bytes n) : Lives (trace ++ l) p := by
  induction l using List.reverseRecOn with
  | nil => rwa [List.append_nil]
  | append_singleton l e ih =>
    obtain ⟨bytes, n, rfl⟩ := hl e (by simp)
    rw [← List.append_assoc]
    exact Lives.snoc (ih fun e' he' => hl e' (by simp [he'])) (.handed bytes n) hp

end Phase

/-- The loop of `handle_write` does nothing but hand bytes to the socket. -/
theorem handed_of_mem_writeLoop {tx : List UInt8} {answers : List Sent} {e : Happening}
    (h : e ∈ (writeLoop tx answers).1) : ∃ bytes n, e = .handed bytes n := by
  fun_induction writeLoop tx answers with
  | case1 => simp at h
  | case2 a tx n answers out ih =>
    rcases List.mem_cons.mp h with rfl | h
    · exact ⟨_, _, rfl⟩
    · exact ih h
  | case3 a tx answers out ih =>
    rcases List.mem_cons.mp h with rfl | h
    · exact ⟨_, _, rfl⟩
    · exact ih h
  | case4 => exact ⟨_, _, List.mem_singleton.mp h⟩
  | case5 => exact ⟨_, _, List.mem_singleton.mp h⟩
  | case6 => exact ⟨_, _, List.mem_singleton.mp h⟩

@[simp] theorem PeerConnection.state_sending (c : PeerConnection) (msg : PeerMessage) :
    (c.sending msg).state = c.state := by
  cases msg <;> rfl

@[simp] theorem PeerConnection.rxBuffer_sending (c : PeerConnection) (msg : PeerMessage) :
    (c.sending msg).rxBuffer = c.rxBuffer := by
  cases msg <;> rfl

namespace Endpoint

/-- **What `send_message` does**: nothing once the connection is closed; otherwise the bytes of
the message are queued, and `handle_write` comes next if there is someone to write to. -/
theorem sendMessage_cases (c : Endpoint) (msg : PeerMessage) :
    (c.connection.state = .disconnected ∧ c.sendMessage msg = c) ∨
    (c.connection.state ≠ .disconnected ∧ (∃ e, msg.serialize = .error e) ∧
      c.sendMessage msg = { c with connection := c.connection.sending msg }.push .crashed) ∨
    (c.connection.state ≠ .disconnected ∧ ∃ bytes, msg.serialize = .ok bytes ∧
      c.sendMessage msg = { c with
        connection := c.connection.sending msg
        txBuffer := c.txBuffer ++ bytes
        trace := c.trace ++ [.queued bytes]
        todo := if c.connection.state = .handshaking ∨ c.connection.state = .active then
          .handleWrite :: c.todo else c.todo }) := by
  by_cases hs : c.connection.state = .disconnected
  · exact Or.inl ⟨hs, if_pos hs⟩
  · rcases hser : msg.serialize with e | bytes
    · refine Or.inr (Or.inl ⟨hs, ⟨e, rfl⟩, ?_⟩)
      rw [sendMessage, if_neg hs, hser]
    · refine Or.inr (Or.inr ⟨hs, bytes, rfl, ?_⟩)
      rw [sendMessage, if_neg hs, hser]
      simp only [queue, push, PeerConnection.state_sending]
      split <;> rfl

/-! ### A connection lives -/

/-- **What every step keeps.** -/
structure Inv (c : Endpoint) : Prop where
  /-- What happened is allowed, and tells the state. -/
  lives : Phase.Lives c.trace (.ofState c.connection.state)
  /-- An idle connection has nothing under way. -/
  idle : c.connection.state = .idle →
    c.registered = false ∧ c.connection.rxBuffer = [] ∧ ∀ t ∈ c.todo, t = .crashed
  /-- Nothing is sent while connecting. -/
  connecting : c.connection.state = .connecting → .handleWrite ∉ c.todo
  /-- A closed connection has nothing to read and nothing to send. -/
  closed : c.connection.state = .disconnected →
    c.registered = false ∧ c.connection.rxBuffer = [] ∧ (c.txBuffer = [] ∨ .handleWrite ∉ c.todo)

theorem inv_new : Inv {} where
  lives := .nil
  idle := fun _ => ⟨rfl, rfl, by simp⟩
  connecting := by simp
  closed := by simp

namespace Inv

variable {c : Endpoint} {infoHash ourPeerId : Vector UInt8 20}

/-- Less may be under way. -/
theorem tail (h : Inv c) : Inv { c with todo := c.todo.tail } where
  lives := h.lives
  idle := fun hs => ⟨(h.idle hs).1, (h.idle hs).2.1,
    fun t ht => (h.idle hs).2.2 t (List.mem_of_mem_tail ht)⟩
  connecting := fun hs ht => h.connecting hs (List.mem_of_mem_tail ht)
  closed := fun hs => ⟨(h.closed hs).1, (h.closed hs).2.1,
    (h.closed hs).2.2.imp_right fun hn ht => hn (List.mem_of_mem_tail ht)⟩

/-- **Closing** a connection, from wherever it is called. -/
theorem disconnect (h : Inv c) : Inv c.disconnect := by
  rw [Endpoint.disconnect]
  split
  case isTrue => exact h
  case isFalse hne =>
    refine ⟨h.lives.close (Phase.isOpen_ofState hne), ?_, ?_, ?_⟩
    · simp [call, enter]
    · simp [call, enter]
    · exact fun _ => ⟨rfl, rfl, Or.inl rfl⟩

/-- A connection that could not be started. -/
theorem refused (h : Inv c) (hs : c.connection.state ≠ .disconnected)
    (hrx : c.connection.rxBuffer = []) (hreg : c.registered = false)
    (htodo : .handleWrite ∉ c.todo) : Inv c.refused where
  lives := h.lives.close (Phase.isOpen_ofState hs)
  idle := by simp [Endpoint.refused, call, enter]
  connecting := by simp [Endpoint.refused, call, enter]
  closed := fun _ => ⟨hreg, hrx, Or.inr (by simpa [Endpoint.refused, call, enter] using htodo)⟩

/-- The handshake is sent on entering `Handshaking`. -/
theorem sendHandshake (hlives : Phase.Lives c.trace .connecting) :
    Inv ((c.enter .handshaking).sendHandshake infoHash ourPeerId) where
  lives := by
    exact (hlives.snoc (.entered .handshaking) rfl).queue
      (Phase.isOpen_ofState (σ := .handshaking) (by simp)) _
  idle := by simp [Endpoint.sendHandshake, enter, queue, push]
  connecting := by simp [Endpoint.sendHandshake, enter, queue, push]
  closed := by simp [Endpoint.sendHandshake, enter, queue, push]

theorem connect (h : Inv c) (status : ConnectStatus) (regOk : Bool) :
    Inv (c.connect infoHash ourPeerId status regOk) := by
  rw [Endpoint.connect]
  split
  case isTrue => exact h
  case isFalse hidle =>
    have hs : c.connection.state = .idle := not_not.mp hidle
    obtain ⟨hreg, hrx, htodo⟩ := h.idle hs
    -- nothing but callbacks can be under way in `Idle`
    have hnot : Task.handleWrite ∉ c.todo := fun ht => by simpa using htodo _ ht
    have hlives := h.lives
    rw [hs] at hlives
    have hconn : Inv (c.enter .connecting) :=
      ⟨hlives.snoc (.entered .connecting) rfl, by simp [enter], fun _ => hnot,
        by simp [enter]⟩
    have hrefused : Inv (c.enter .connecting).refused :=
      hconn.refused (by simp [enter]) hrx hreg hnot
    -- registered, and the answer of `connect_async` is still to be looked at
    have hopen : Inv { c.enter .connecting with registered := true } :=
      ⟨hconn.lives, by simp [enter], fun _ => hnot, by simp [enter]⟩
    dsimp only
    split
    case isTrue => exact hrefused
    case isFalse =>
      split
      case isTrue => exact hrefused
      case isFalse =>
        split
        case isTrue => exact sendHandshake hopen.lives
        case isFalse => exact hopen

theorem sendMessage (h : Inv c) (msg : PeerMessage) : Inv (c.sendMessage msg) := by
  rcases sendMessage_cases c msg with ⟨-, he⟩ | ⟨hne, -, he⟩ | ⟨hne, bytes, -, he⟩
  · rw [he]
    exact h
  · rw [he]
    refine ⟨?_, ?_, ?_, ?_⟩ <;> simp only [push, PeerConnection.state_sending,
      PeerConnection.rxBuffer_sending]
    · exact h.lives
    · exact fun hs => ⟨(h.idle hs).1, (h.idle hs).2.1, by simpa using (h.idle hs).2.2⟩
    · exact fun hs => by simpa using h.connecting hs
    · exact fun hs => absurd hs hne
  · rw [he]
    refine ⟨?_, ?_, ?_, ?_⟩ <;> simp only [PeerConnection.state_sending,
      PeerConnection.rxBuffer_sending]
    · exact h.lives.queue (Phase.isOpen_ofState hne) bytes
    · intro hs
      rw [if_neg (by simp [hs])]
      exact h.idle hs
    · intro hs
      rw [if_neg (by simp [hs])]
      exact h.connecting hs
    · exact fun hs => absurd hs hne

theorem handleEvents (h : Inv c) (e : Readiness) (htodo : c.todo = [])
    (hreg : c.registered = true) : Inv (c.handleEvents infoHash ourPeerId e) := by
  -- events come to a registered socket only
  have hidle : c.connection.state ≠ .idle := fun hs => by simp [(h.idle hs).1] at hreg
  have hopen : c.connection.state ≠ .disconnected := fun hs => by simp [(h.closed hs).1] at hreg
  have hready : (c.connection.state = .connecting → e.writable = false) →
      Inv { c with todo := whenReady e ++ c.todo } := by
    intro hw
    -- while `Connecting`, a write is not put off: there is none without `EPOLLOUT`
    refine ⟨h.lives, fun hs => absurd hs hidle, fun hs => ?_, fun hs => absurd hs hopen⟩
    rw [htodo, whenReady, hw hs]
    cases e.readable <;> simp
  rw [Endpoint.handleEvents]
  split
  case isTrue => exact h.disconnect
  case isFalse =>
    split
    case isTrue => exact h.disconnect
    case isFalse =>
      split
      case isTrue hs =>
        split
        case isTrue => exact h.disconnect
        case isFalse =>
          have hlives := h.lives
          rw [hs.1] at hlives
          exact sendHandshake hlives
      case isFalse hs =>
        refine hready fun hc => ?_
        simpa [hc] using hs

/-- Reading does not concern an idle connection, and a closed one has nothing to read. -/
theorem handleRead (h : Inv c) (hidle : c.connection.state ≠ .idle) (answers : List Recv) :
    Inv (c.handleRead answers) := by
  by_cases hs : c.connection.state = .disconnected
  · -- `recv` fails, and the connection is closed already
    have hreg := (h.closed hs).1
    have hsame : c.handleRead answers = { c with connection := { c.connection with
        rxBuffer := c.connection.rxBuffer ++ [] } } := by
      rw [Endpoint.handleRead, hreg]
      exact if_pos hs
    rw [hsame, List.append_nil]
    exact h
  · have hread : Inv { c with connection := { c.connection with
        rxBuffer := c.connection.rxBuffer ++
          (readLoop (if c.registered then answers else [.error])).1 } } :=
      ⟨h.lives, fun hc => absurd hc hidle, h.connecting, fun hc => absurd hc hs⟩
    rw [Endpoint.handleRead]
    dsimp only
    split
    case h_1 => exact hread.disconnect
    case h_2 => exact hread.disconnect
    case h_3 =>
      exact ⟨hread.lives, fun hc => absurd hc hidle,
        fun hc => by simpa [push] using h.connecting hc,
        fun hc => absurd hc hs⟩

/-- A pass of the receive loop. Once the connection is closed there is nothing left to work
through. -/
theorem rxStep (h : Inv c) (hidle : c.connection.state ≠ .idle) : Inv c.rxStep := by
  by_cases hs : c.connection.state = .disconnected
  · have hpass : c.connection.rxPass = .ok (.stop c.connection) := by
      rw [PeerConnection.rxPass, if_pos (h.closed hs).2.1]
    rw [Endpoint.rxStep, hpass]
    exact h
  rw [Endpoint.rxStep]
  rcases hpass : c.connection.rxPass with e | pass
  · exact ⟨h.lives, fun hc => absurd hc hidle, fun hc => by simpa [push] using h.connecting hc,
      fun hc => absurd hc hs⟩
  cases PeerConnection.passes_of_rxPass hpass with
  | stop c' hstate _ =>
    refine ⟨?_, ?_, ?_, ?_⟩ <;> simp only [hstate]
    · exact h.lives
    · exact fun hc => absurd hc hidle
    · exact h.connecting
    · exact fun hc => absurd hc hs
  | refuse _ _ _ => exact h.disconnect
  | handshake m hstate _ _ =>
    have hlives := h.lives
    rw [hstate] at hlives
    -- the state is entered and the callback called, with nothing in between
    exact ⟨(hlives.snoc (.entered .active) rfl).snoc (.call (.onHandshake m)) rfl,
      by simp [call, push, enter], by simp [call, push, enter], by simp [call, push, enter]⟩
  | frame m c' hstate hstate' =>
    have hlives := h.lives
    rw [hstate] at hlives
    cases m with
    | none =>
      refine ⟨?_, ?_, ?_, ?_⟩ <;> simp only [push, hstate']
      · exact hlives
      all_goals simp
    | some m =>
      refine ⟨?_, ?_, ?_, ?_⟩ <;> simp only [call, push, hstate']
      · exact hlives.snoc (.call (.onMessage m)) rfl
      all_goals simp

/-- Writing. What is left to be written after the connection is closed is nothing. -/
theorem handleWrite (h : Inv c) (answers : List Sent)
    (hs : c.txBuffer = [] ∨ c.connection.state = .handshaking ∨ c.connection.state = .active) :
    Inv (c.handleWrite answers) := by
  rw [Endpoint.handleWrite]
  split
  case isTrue => exact h
  case isFalse htx =>
    have hstate := hs.resolve_left htx
    have hphase : Phase.ofState c.connection.state = .handshaking ∨
        Phase.ofState c.connection.state = .active := by
      rcases hstate with hc | hc <;> rw [hc]
      · exact Or.inl rfl
      · exact Or.inr rfl
    have hwritten : ∀ rest l, (∀ e ∈ l, ∃ bytes n, e = .handed bytes n) →
        Inv { c with txBuffer := rest, trace := c.trace ++ l } := by
      intro rest l hl
      refine ⟨h.lives.hand hphase hl, ?_, ?_, ?_⟩
      all_goals
        intro hc
        rcases hstate with hs' | hs' <;> cases hs'.symm.trans hc
    generalize (if c.registered then answers else [.error]) = answers'
    dsimp only
    split
    case isTrue => exact (hwritten _ _ fun e he => handed_of_mem_writeLoop he).disconnect
    case isFalse => exact hwritten _ _ fun e he => handed_of_mem_writeLoop he

/-- **One step keeps the life of a connection.** -/
theorem step (h : Inv c) {a : Input} (ha : Enabled c a) : Inv (c.step infoHash ourPeerId a) := by
  have hbusy : ∀ t, t ≠ .crashed → c.todo.head? = some t → c.connection.state ≠ .idle :=
    fun t ht hhead hs => ht ((h.idle hs).2.2 t (List.mem_of_head? hhead))
  cases a with
  | connect status regOk => exact h.connect status regOk
  | disconnect => exact h.disconnect
  | sendMessage msg => exact h.sendMessage msg
  | returns => exact h.tail
  | events e => exact h.handleEvents e ha.1 ha.2
  | handleRead answers => exact h.tail.handleRead (hbusy _ (by simp) ha) answers
  | rxStep => exact h.tail.rxStep (hbusy _ (by simp) ha)
  | handleWrite answers =>
    refine h.tail.handleWrite answers ?_
    have hmem : Task.handleWrite ∈ c.todo := List.mem_of_head? ha
    rcases hs : c.connection.state with _ | _ | _ | _ | _
    · exact absurd hs (hbusy _ (by simp) ha)
    · exact absurd hmem (h.connecting hs)
    · exact Or.inr (Or.inl rfl)
    · exact Or.inr (Or.inr rfl)
    · exact Or.inl ((h.closed hs).2.2.resolve_right fun hn => hn hmem)

end Inv

variable {c : Endpoint} {infoHash ourPeerId : Vector UInt8 20} {l : List Input}

/-- **The life of a connection.** In every run, whatever the caller calls from the outside or
from the callbacks, whatever the socket answers and whatever events come: the state moves
forward, `on_handshake` is called at most once and on entering `Active`, `on_message` only while
`Active` and after it, `on_disconnect` at most once and on entering `Disconnected`, and after that
no callback is called and no byte is queued or handed to the socket. -/
theorem lifecycle (h : Run infoHash ourPeerId l c) :
    Lifecycle c.trace ∧ lastState c.trace = c.connection.state := by
  have hinv := h.invariant inv_new fun _ _ hc ha => hc.step ha
  refine ⟨Phase.lifecycle_of_lives hinv.lives, ?_⟩
  rw [hinv.lives.forward.2]
  cases c.connection.state <;> rfl

/-- A connection that is established at once and closed from `on_handshake`: the receive loop
goes on after the callback and finds nothing to do. -/
theorem lifecycle_closed_in_callback :
    let zeros : Vector UInt8 20 := Vector.replicate 20 0
    Lifecycle (([.connect .connected true, .handleWrite [.bytes 68], .events { readable := true },
      .handleRead [.bytes (ourHandshake zeros zeros).serialize, .again], .rxStep, .disconnect,
      .returns, .returns, .rxStep] : List Input).foldl (step zeros zeros) {}).trace := by
  refine (lifecycle (l := [_, _, _, _, _, _, _, _, _]) (Runs.reach_iff.mpr ⟨rfl, ?_⟩)).1
  simp only [Runs.throughout_cons]
  exact ⟨by decide, by decide +kernel, by decide +kernel, by decide +kernel, by decide +kernel,
    by decide +kernel, by decide +kernel, by decide +kernel, by decide +kernel,
    Runs.throughout_nil _⟩

end Endpoint

end TransferEngine
