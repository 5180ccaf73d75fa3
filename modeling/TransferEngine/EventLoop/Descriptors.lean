import Mathlib.Data.Finset.Basic
import Mathlib.Data.List.AList
import TransferEngine.Lib.Runs

/-!
# The descriptors of the event loop

The other half of `EventLoop`: the callbacks of file descriptors, the epoll instance, and the
loop of `run` over the events of one `epoll_wait`.

The kernel watches descriptors, the loop keeps callbacks, and the two are told of everything one
after the other (`TransferEngine.Descriptors`). Between the wait and the end of the loop over its
events the callbacks may do anything: register, modify and unregister descriptors, close them and
open others, which may get the same numbers. So an event is matched with a callback by its number
alone, at the time its turn comes.

What that comes to is `TransferEngine.Dispatch.calls_faithful`: a callback is called only while it
is registered, with an event the kernel has reported for its number, and for each report at most
once; and unless the number was registered again since the wait, the kernel has reported it for
this very registration.
-/

namespace TransferEngine

/-- `EPOLLIN`. -/
def epollIn : UInt32 := 0x001

/-- `EPOLLOUT`. -/
def epollOut : UInt32 := 0x004

/-- `EPOLLERR`. -/
def epollErr : UInt32 := 0x008

/-- `EPOLLHUP`. -/
def epollHup : UInt32 := 0x010

/-- `EPOLLRDHUP`. -/
def epollRdhup : UInt32 := 0x2000

/-- What the kernel and the loop know of file descriptors. -/
structure Descriptors (κ : Type*) where
  /-- The sockets that are open. -/
  opened : Finset ℤ := ∅
  /-- What the epoll instance watches, and for which events. -/
  interest : AList fun _ : ℤ => UInt32 := ∅
  /-- `fd_callbacks_`. -/
  fdCallbacks : AList fun _ : ℤ => κ := ∅

namespace Descriptors

variable {κ : Type*}

/-- A socket is opened under the number `fd`. -/
def openFd (d : Descriptors κ) (fd : ℤ) : Descriptors κ := { d with opened := insert fd d.opened }

/-- A socket is closed. The kernel does not watch it any more. -/
def closeFd (d : Descriptors κ) (fd : ℤ) : Descriptors κ :=
  { d with opened := d.opened.erase fd, interest := d.interest.erase fd }

/-- `epoll_ctl` with `EPOLL_CTL_ADD`, which the kernel may refuse for want of memory. -/
def epollCtlAdd (d : Descriptors κ) (granted : Bool) (fd : ℤ) (events : UInt32) :
    Option (Descriptors κ) :=
  if granted = false ∨ fd ∉ d.opened ∨ fd ∈ d.interest then none
  else some { d with interest := d.interest.insert fd events }

/-- `epoll_ctl` with `EPOLL_CTL_MOD`. -/
def epollCtlMod (d : Descriptors κ) (fd : ℤ) (events : UInt32) : Option (Descriptors κ) :=
  if fd ∈ d.interest then some { d with interest := d.interest.insert fd events } else none

/-- `register_fd`: what it returns, and what it leaves. -/
def registerFd (d : Descriptors κ) (granted : Bool) (fd : ℤ) (events : UInt32)
    (callback : Option κ) : Bool × Descriptors κ :=
  match callback with
  | none => (false, d)
  | some callback =>
    if fd < 0 then (false, d)
    else
      match d.epollCtlAdd granted fd events with
      | none => (false, d)
      | some d => (true, { d with fdCallbacks := d.fdCallbacks.insert fd callback })

/-- `modify_fd`. -/
def modifyFd (d : Descriptors κ) (fd : ℤ) (events : UInt32) : Bool × Descriptors κ :=
  if fd < 0 ∨ fd ∉ d.fdCallbacks then (false, d)
  else
    match d.epollCtlMod fd events with
    | none => (false, d)
    | some d => (true, d)

/-- `unregister_fd`. Whether the kernel still watched the descriptor does not matter. -/
def unregisterFd (d : Descriptors κ) (fd : ℤ) : Bool × Descriptors κ :=
  if fd < 0 ∨ fd ∉ d.fdCallbacks then (false, d)
  else (true, { d with interest := d.interest.erase fd, fdCallbacks := d.fdCallbacks.erase fd })

variable (d : Descriptors κ) (granted : Bool) (fd : ℤ) (events : UInt32)

/-- **What `register_fd` does**: nothing, or the kernel watches the descriptor and the loop has the
callback. -/
theorem registerFd_cases (callback : Option κ) :
    d.registerFd granted fd events callback = (false, d) ∨
      ∃ callback', callback = some callback' ∧ fd ∈ d.opened ∧ fd ∉ d.interest ∧
        d.registerFd granted fd events callback =
          (true, { d with
            interest := d.interest.insert fd events
            fdCallbacks := d.fdCallbacks.insert fd callback' }) := by
  cases callback with
  | none => exact Or.inl rfl
  | some callback =>
    simp only [registerFd, epollCtlAdd]
    split
    case isTrue => exact Or.inl rfl
    case isFalse =>
      split
      case h_1 => exact Or.inl rfl
      case h_2 d' hadd =>
        split at hadd
        case isTrue => cases hadd
        case isFalse hno =>
          obtain rfl := Option.some.inj hadd
          obtain ⟨-, hopen, hin⟩ := not_or.mp hno |>.imp id not_or.mp
          exact Or.inr ⟨callback, rfl, not_not.mp hopen, hin, rfl⟩

/-- **What `modify_fd` does**: nothing, or the kernel watches for other events. -/
theorem modifyFd_cases : d.modifyFd fd events = (false, d) ∨
    (fd ∈ d.interest ∧
      d.modifyFd fd events = (true, { d with interest := d.interest.insert fd events })) := by
  simp only [modifyFd, epollCtlMod]
  split
  case isTrue => exact Or.inl rfl
  case isFalse =>
    split
    case h_1 => exact Or.inl rfl
    case h_2 d' hmod =>
      split at hmod
      case isTrue hin =>
        obtain rfl := Option.some.inj hmod
        exact Or.inr ⟨hin, rfl⟩
      case isFalse => cases hmod

end Descriptors

/-! ### Runs -/

namespace Dispatch

variable {κ : Type*}

/-- What is recorded of a run. -/
inductive Event (κ : Type*)
  /-- A descriptor was registered with a callback. -/
  | registered (fd : ℤ) (callback : κ)
  /-- A descriptor was unregistered. -/
  | unregistered (fd : ℤ)
  /-- `epoll_wait` returned these events. -/
  | waited (reported : List (ℤ × UInt32))
  /-- A callback was called. -/
  | called (callback : κ) (fd : ℤ) (events : UInt32)

/-- A loop in the middle of a run. -/
structure Machine (κ : Type*) where
  /-- What is known of descriptors. -/
  descriptors : Descriptors κ := {}
  /-- The events whose turn is still to come. -/
  pending : List (ℤ × UInt32) := []
  /-- What happened so far. -/
  trace : List (Event κ) := []

/-- What can happen next. -/
inductive Input (κ : Type*)
  /-- A socket is opened. -/
  | openFd (fd : ℤ)
  /-- A socket is closed. -/
  | closeFd (fd : ℤ)
  /-- Code of the caller registers a descriptor. -/
  | registerFd (granted : Bool) (fd : ℤ) (events : UInt32) (callback : Option κ)
  /-- Code of the caller modifies what is watched. -/
  | modifyFd (fd : ℤ) (events : UInt32)
  /-- Code of the caller unregisters a descriptor. -/
  | unregisterFd (fd : ℤ)
  /-- `epoll_wait` returns events. -/
  | epollWait (reported : List (ℤ × UInt32))
  /-- The loop takes up the next event. -/
  | dispatch

/-- **One step.** -/
def Machine.step (m : Machine κ) : Input κ → Machine κ
  | .openFd fd => { m with descriptors := m.descriptors.openFd fd }
  | .closeFd fd => { m with descriptors := m.descriptors.closeFd fd }
  | .registerFd granted fd events callback =>
    match m.descriptors.registerFd granted fd events callback, callback with
    | (true, d), some callback =>
      { m with descriptors := d, trace := m.trace ++ [.registered fd callback] }
    | (_, d), _ => { m with descriptors := d }
  | .modifyFd fd events => { m with descriptors := (m.descriptors.modifyFd fd events).2 }
  | .unregisterFd fd =>
    match m.descriptors.unregisterFd fd with
    | (true, d) => { m with descriptors := d, trace := m.trace ++ [.unregistered fd] }
    | (false, d) => { m with descriptors := d }
  | .epollWait reported => { m with pending := reported, trace := m.trace ++ [.waited reported] }
  | .dispatch =>
    match m.pending with
    | [] => m
    | (fd, events) :: pending =>
      match m.descriptors.fdCallbacks.lookup fd with
      | some callback => { m with pending, trace := m.trace ++ [.called callback fd events] }
      | none => { m with pending }

/-- **What can happen** where the loop stands: the kernel reports what it watches, every
descriptor once and at most 64 of them, and only when the loop over the last events is over. -/
def Enabled (m : Machine κ) : Input κ → Prop
  | .openFd fd => 0 ≤ fd ∧ fd ∉ m.descriptors.opened
  | .closeFd fd => fd ∈ m.descriptors.opened
  | .epollWait reported => m.pending = [] ∧ reported.length ≤ 64 ∧ (reported.map Prod.fst).Nodup ∧
      ∀ p ∈ reported, ∃ events ∈ m.descriptors.interest.lookup p.1,
        p.2 &&& ~~~(events ||| epollErr ||| epollHup) = 0
  | .dispatch => m.pending ≠ []
  | .registerFd _ _ _ _ => True
  | .modifyFd _ _ => True
  | .unregisterFd _ => True

instance (m : Machine κ) : (a : Input κ) → Decidable (Enabled m a)
  | .openFd _ => inferInstanceAs (Decidable (_ ∧ _))
  | .closeFd _ => inferInstanceAs (Decidable (_ ∈ _))
  | .epollWait _ => inferInstanceAs (Decidable (_ ∧ _ ∧ _ ∧ _))
  | .dispatch => inferInstanceAs (Decidable (_ ≠ _))
  | .registerFd _ _ _ _ | .modifyFd _ _ | .unregisterFd _ => inferInstanceAs (Decidable True)

/-! ### Who is registered -/

/-- What an event means for the callback of a descriptor. -/
def hold (fd : ℤ) (h : Option κ) : Event κ → Option κ
  | .registered fd' callback => if fd' = fd then some callback else h
  | .unregistered fd' => if fd' = fd then none else h
  | _ => h

/-- **The callback that is registered for a descriptor**, after what happened. -/
def holder (fd : ℤ) (trace : List (Event κ)) : Option κ := trace.foldl (hold fd) none

theorem holder_snoc (fd : ℤ) (trace : List (Event κ)) (e : Event κ) :
    holder fd (trace ++ [e]) = hold fd (holder fd trace) e := by
  rw [holder, List.foldl_append]
  rfl

variable {fd : ℤ} {callback : κ} {events : UInt32} {h : Option κ} {since earlier : List (Event κ)}
  {reported pending : List (ℤ × UInt32)} {m : Machine κ} {d : Descriptors κ} {l : List (Input κ)}

/-- **The one that is registered** was registered meanwhile, or is the one from before. -/
theorem of_foldl_hold_eq_some (hh : since.foldl (hold fd) h = some callback) :
    .registered fd callback ∈ since ∨
      (h = some callback ∧ ∀ callback', .registered fd callback' ∉ since) := by
  induction since using List.reverseRecOn with
  | nil => exact Or.inr ⟨hh, by simp⟩
  | append_singleton since e ih =>
    rw [List.foldl_append, List.foldl_cons, List.foldl_nil] at hh
    have hkeep : since.foldl (hold fd) h = some callback →
        (∀ callback', e ≠ .registered fd callback') →
        .registered fd callback ∈ since ++ [e] ∨
          (h = some callback ∧ ∀ callback', .registered fd callback' ∉ since ++ [e]) := by
      intro hs he
      rcases ih hs with hmem | ⟨hh₀, hno⟩
      · exact Or.inl (List.mem_append_left _ hmem)
      · refine Or.inr ⟨hh₀, fun callback' hmem => ?_⟩
        rcases List.mem_append.mp hmem with hmem | hmem
        · exact hno callback' hmem
        · exact he callback' (List.mem_singleton.mp hmem).symm
    cases e with
    | registered fd' callback' =>
      rw [hold] at hh
      split at hh
      case isTrue hfd =>
        rw [hfd, Option.some.inj hh]
        exact Or.inl (List.mem_append_right _ (List.mem_singleton_self _))
      case isFalse hfd => exact hkeep hh fun _ he => hfd (Event.registered.inj he).1
    | unregistered fd' =>
      rw [hold] at hh
      split at hh
      case isTrue => cases hh
      case isFalse => exact hkeep hh (by simp)
    | waited _ => exact hkeep hh (by simp)
    | called _ _ _ => exact hkeep hh (by simp)

/-- A descriptor that lost its callback was unregistered meanwhile. -/
theorem of_foldl_hold_eq_none (hh : since.foldl (hold fd) h = none) (hsome : h ≠ none) :
    .unregistered fd ∈ since := by
  induction since using List.reverseRecOn with
  | nil => exact absurd hh hsome
  | append_singleton since e ih =>
    rw [List.foldl_append, List.foldl_cons, List.foldl_nil] at hh
    cases e with
    | registered fd' callback' =>
      rw [hold] at hh
      split at hh
      case isTrue => cases hh
      case isFalse => exact List.mem_append_left _ (ih hh)
    | unregistered fd' =>
      rw [hold] at hh
      split at hh
      case isTrue hfd =>
        rw [hfd]
        exact List.mem_append_right _ (List.mem_singleton_self _)
      case isFalse => exact List.mem_append_left _ (ih hh)
    | waited _ => exact List.mem_append_left _ (ih hh)
    | called _ _ _ => exact List.mem_append_left _ (ih hh)

/-! ### One round -/

/-- **A call that is right**: the callback is the one registered for the descriptor, and the event
is among those the last wait reported, where it is the only one of this descriptor and has not been
dealt with. If the descriptor was not registered again since the wait, then this callback was
registered when the kernel reported the event. -/
def Faithful (before : List (Event κ)) (callback : κ) (fd : ℤ) (events : UInt32) : Prop :=
  holder fd before = some callback ∧
    ∃ earlier reported since, before = earlier ++ .waited reported :: since ∧
      (∀ r, .waited r ∉ since) ∧ (fd, events) ∈ reported ∧
      (∀ callback' events', .called callback' fd events' ∉ since) ∧
      (.registered fd callback ∈ since ∨
        (holder fd earlier = some callback ∧ ∀ callback', .registered fd callback' ∉ since))

/-- **The loop over the events of one wait**, in the middle. -/
structure Round (earlier : List (Event κ)) (reported : List (ℤ × UInt32)) (since : List (Event κ))
    (pending : List (ℤ × UInt32)) : Prop where
  not_waited : ∀ r, .waited r ∉ since
  suffix : pending <:+ reported
  nodup : (reported.map Prod.fst).Nodup
  /-- What is reported was registered. -/
  held : ∀ p ∈ reported, holder p.1 earlier ≠ none
  /-- The event of a call is dealt with. -/
  of_called : ∀ callback fd events, .called callback fd events ∈ since → fd ∉ pending.map Prod.fst
  /-- What is dealt with had its call, or was unregistered. -/
  dealt : ∀ p ∈ reported, p ∈ pending ∨ (∃ callback, .called callback p.1 p.2 ∈ since) ∨
    .unregistered p.1 ∈ since

namespace Round

/-- Something happens that is neither a wait nor a call. -/
theorem snoc (hr : Round earlier reported since pending) {e : Event κ} (hw : ∀ r, e ≠ .waited r)
    (hc : ∀ callback fd events, e ≠ .called callback fd events) :
    Round earlier reported (since ++ [e]) pending where
  not_waited := fun r hmem => by
    rcases List.mem_append.mp hmem with hmem | hmem
    · exact hr.not_waited r hmem
    · exact hw r (List.mem_singleton.mp hmem).symm
  suffix := hr.suffix
  nodup := hr.nodup
  held := hr.held
  of_called := fun callback fd events hmem => by
    rcases List.mem_append.mp hmem with hmem | hmem
    · exact hr.of_called callback fd events hmem
    · exact absurd (List.mem_singleton.mp hmem).symm (hc callback fd events)
  dealt := fun p hp => (hr.dealt p hp).imp_right (Or.imp
    (fun ⟨callback, hmem⟩ => ⟨callback, List.mem_append_left _ hmem⟩)
    (List.mem_append_left _))

/-- The event that is taken up is of a descriptor of its own. -/
theorem notMem_tail (hr : Round earlier reported since ((fd, events) :: pending)) :
    fd ∉ pending.map Prod.fst := by
  have hnodup := hr.nodup.sublist (hr.suffix.sublist.map Prod.fst)
  rw [List.map_cons, List.nodup_cons] at hnodup
  exact hnodup.1

/-- **The next event is called.** -/
theorem called (hr : Round earlier reported since ((fd, events) :: pending)) (callback : κ) :
    Round earlier reported (since ++ [.called callback fd events]) pending where
  not_waited := fun r hmem => by
    rcases List.mem_append.mp hmem with hmem | hmem
    · exact hr.not_waited r hmem
    · cases List.mem_singleton.mp hmem
  suffix := (List.suffix_cons _ _).trans hr.suffix
  nodup := hr.nodup
  held := hr.held
  of_called := fun callback' fd' events' hmem => by
    rcases List.mem_append.mp hmem with hmem | hmem
    · have hno := hr.of_called callback' fd' events' hmem
      rw [List.map_cons] at hno
      exact fun hc => hno (List.mem_cons_of_mem _ hc)
    · cases List.mem_singleton.mp hmem
      exact hr.notMem_tail
  dealt := fun p hp => by
    rcases hr.dealt p hp with hmem | ⟨callback', hmem⟩ | hmem
    · rcases List.mem_cons.mp hmem with rfl | hmem
      · exact Or.inr (Or.inl ⟨callback, List.mem_append_right _ (List.mem_singleton_self _)⟩)
      · exact Or.inl hmem
    · exact Or.inr (Or.inl ⟨callback', List.mem_append_left _ hmem⟩)
    · exact Or.inr (Or.inr (List.mem_append_left _ hmem))

/-- **The next event is passed over.** -/
theorem skipped (hr : Round earlier reported since ((fd, events) :: pending))
    (hun : .unregistered fd ∈ since) : Round earlier reported since pending where
  not_waited := hr.not_waited
  suffix := (List.suffix_cons _ _).trans hr.suffix
  nodup := hr.nodup
  held := hr.held
  of_called := fun callback' fd' events' hmem => by
    have hno := hr.of_called callback' fd' events' hmem
    rw [List.map_cons] at hno
    exact fun hc => hno (List.mem_cons_of_mem _ hc)
  dealt := fun p hp => by
    rcases hr.dealt p hp with hmem | hmem
    · rcases List.mem_cons.mp hmem with rfl | hmem
      · exact Or.inr (Or.inr hun)
      · exact Or.inl hmem
    · exact Or.inr hmem

end Round

/-- What is registered in the middle of a round. -/
theorem holder_round (fd : ℤ) (earlier since : List (Event κ)) (reported : List (ℤ × UInt32)) :
    holder fd (earlier ++ .waited reported :: since) =
      since.foldl (hold fd) (holder fd earlier) := by
  rw [holder, List.foldl_append]
  rfl

/-! ### The invariant -/

/-- **What every step keeps.** -/
structure Inv (m : Machine κ) : Prop where
  /-- The callbacks are those registered and not unregistered. -/
  lookup_eq : ∀ fd, m.descriptors.fdCallbacks.lookup fd = holder fd m.trace
  /-- What is watched has a callback. -/
  watched : ∀ fd, fd ∈ m.descriptors.interest → fd ∈ m.descriptors.fdCallbacks
  faithful : Runs.Along m.trace fun before e =>
    ∀ callback fd events, e = .called callback fd events → Faithful before callback fd events
  round : (m.pending = [] ∧ ∀ r, .waited r ∉ m.trace) ∨
    ∃ earlier reported since, m.trace = earlier ++ .waited reported :: since ∧
      Round earlier reported since m.pending

theorem inv_new : Inv ({} : Machine κ) where
  lookup_eq := fun _ => rfl
  watched := fun _ hmem => absurd hmem (AList.notMem_empty _)
  faithful := Runs.along_nil _
  round := Or.inl ⟨rfl, by simp⟩

namespace Inv

/-- Nothing is recorded, and no callback changes. -/
theorem quiet (hI : Inv m) (hcb : d.fdCallbacks = m.descriptors.fdCallbacks)
    (hint : ∀ fd, fd ∈ d.interest → fd ∈ m.descriptors.interest) :
    Inv { m with descriptors := d } where
  lookup_eq := fun fd => by
    show d.fdCallbacks.lookup fd = _
    rw [hcb]
    exact hI.lookup_eq fd
  watched := fun fd hmem => by
    show fd ∈ d.fdCallbacks
    rw [hcb]
    exact hI.watched fd (hint fd hmem)
  faithful := hI.faithful
  round := hI.round

/-- A change of the registrations is recorded. -/
theorem record (hI : Inv m) {e : Event κ} (hw : ∀ r, e ≠ .waited r)
    (hc : ∀ callback fd events, e ≠ .called callback fd events)
    (hcb : ∀ fd, d.fdCallbacks.lookup fd = hold fd (m.descriptors.fdCallbacks.lookup fd) e)
    (hint : ∀ fd, fd ∈ d.interest → fd ∈ d.fdCallbacks) :
    Inv { m with descriptors := d, trace := m.trace ++ [e] } where
  lookup_eq := fun fd => by
    show d.fdCallbacks.lookup fd = holder fd (m.trace ++ [e])
    rw [holder_snoc, ← hI.lookup_eq fd]
    exact hcb fd
  watched := hint
  faithful := Runs.along_snoc.mpr
    ⟨hI.faithful, fun callback fd events he => absurd he (hc callback fd events)⟩
  round := by
    rcases hI.round with ⟨hp, hno⟩ | ⟨earlier, reported, since, htrace, hr⟩
    · refine Or.inl ⟨hp, fun r hmem => ?_⟩
      rcases List.mem_append.mp hmem with hmem | hmem
      · exact hno r hmem
      · exact hw r (List.mem_singleton.mp hmem).symm
    · refine Or.inr ⟨earlier, reported, since ++ [e], ?_, hr.snoc hw hc⟩
      rw [htrace, List.append_assoc, List.cons_append]

theorem registerFd (hI : Inv m) (granted : Bool) (fd : ℤ) (events : UInt32)
    (callback : Option κ) : Inv (m.step (.registerFd granted fd events callback)) := by
  rcases m.descriptors.registerFd_cases granted fd events callback with
    he | ⟨callback, rfl, -, -, he⟩
  · simp only [Machine.step, he]
    exact hI
  · simp only [Machine.step, he]
    refine hI.record (by simp) (by simp) (fun fd' => ?_) fun fd' hmem => ?_
    · rw [hold]
      split
      case isTrue hfd =>
        subst hfd
        exact AList.lookup_insert _
      case isFalse hfd => exact AList.lookup_insert_ne (Ne.symm hfd)
    · rcases (AList.mem_insert _).mp hmem with rfl | hmem
      · exact (AList.mem_insert _).mpr (Or.inl rfl)
      · exact (AList.mem_insert _).mpr (Or.inr (hI.watched fd' hmem))

theorem modifyFd (hI : Inv m) (fd : ℤ) (events : UInt32) :
    Inv (m.step (.modifyFd fd events)) := by
  rcases m.descriptors.modifyFd_cases fd events with he | ⟨hin, he⟩
  · rw [Machine.step, he]
    exact hI
  · rw [Machine.step, he]
    refine hI.quiet rfl fun fd' hmem => ?_
    rcases (AList.mem_insert _).mp hmem with rfl | hmem
    · exact hin
    · exact hmem

theorem unregisterFd (hI : Inv m) (fd : ℤ) : Inv (m.step (.unregisterFd fd)) := by
  rw [Machine.step, Descriptors.unregisterFd]
  by_cases hfd : fd < 0 ∨ fd ∉ m.descriptors.fdCallbacks
  · rw [if_pos hfd]
    exact hI
  · rw [if_neg hfd]
    refine hI.record (by simp) (by simp) (fun fd' => ?_) fun fd' hmem => ?_
    · rw [hold]
      split
      case isTrue hfd =>
        subst hfd
        exact AList.lookup_erase _ _
      case isFalse hfd => exact AList.lookup_erase_ne (Ne.symm hfd)
    · obtain ⟨hne, hmem⟩ := AList.mem_erase.mp hmem
      exact AList.mem_erase.mpr ⟨hne, hI.watched fd' hmem⟩

theorem epollWait (hI : Inv m) (ha : Enabled m (.epollWait reported)) :
    Inv (m.step (.epollWait reported)) where
  lookup_eq := fun fd => by
    show m.descriptors.fdCallbacks.lookup fd = holder fd (m.trace ++ [_])
    rw [holder_snoc]
    exact hI.lookup_eq fd
  watched := hI.watched
  faithful := Runs.along_snoc.mpr ⟨hI.faithful, by simp⟩
  round := by
    obtain ⟨-, -, hnodup, hin⟩ := ha
    refine Or.inr ⟨m.trace, reported, [], rfl, by simp, List.suffix_rfl, hnodup, ?_, by simp,
      fun p hp => Or.inl hp⟩
    intro p hp
    obtain ⟨events, hlook, -⟩ := hin p hp
    have hmem : p.1 ∈ m.descriptors.interest :=
      AList.lookup_isSome.mp (by rw [hlook]; rfl)
    rw [← hI.lookup_eq p.1, Ne, AList.lookup_eq_none, not_not]
    exact hI.watched p.1 hmem

theorem dispatch (hI : Inv m) : Inv (m.step .dispatch) := by
  rw [Machine.step]
  split
  case h_1 => exact hI
  case h_2 fd events pending hp =>
    rcases hI.round with ⟨hnil, -⟩ | ⟨earlier, reported, since, htrace, hr⟩
    · cases hp.symm.trans hnil
    rw [hp] at hr
    have hholder := holder_round fd earlier since reported
    rw [← htrace, ← hI.lookup_eq fd] at hholder
    split
    case h_1 callback hlook =>
      refine ⟨fun fd' => ?_, hI.watched, Runs.along_snoc.mpr ⟨hI.faithful, ?_⟩, ?_⟩
      · rw [holder_snoc]
        exact hI.lookup_eq fd'
      · rintro callback' fd' events' he
        obtain ⟨rfl, rfl, rfl⟩ := Event.called.inj he
        refine ⟨(hI.lookup_eq fd).symm.trans hlook, earlier, reported, since, htrace,
          hr.not_waited, hr.suffix.subset List.mem_cons_self, fun callback' events' hmem => ?_,
          of_foldl_hold_eq_some (hholder.symm.trans hlook)⟩
        exact hr.of_called callback' fd events' hmem (by simp)
      · refine Or.inr ⟨earlier, reported, since ++ [.called callback fd events], ?_,
          hr.called callback⟩
        rw [htrace, List.append_assoc, List.cons_append]
    case h_2 hlook =>
      -- the descriptor had a callback when the event was reported
      have hheld : holder fd earlier ≠ none :=
        hr.held (fd, events) (hr.suffix.subset List.mem_cons_self)
      have hun := of_foldl_hold_eq_none (hholder.symm.trans hlook) hheld
      exact ⟨hI.lookup_eq, hI.watched, hI.faithful,
        Or.inr ⟨earlier, reported, since, htrace, hr.skipped hun⟩⟩

theorem step (hI : Inv m) {a : Input κ} (ha : Enabled m a) : Inv (m.step a) := by
  cases a with
  | openFd fd => exact hI.quiet rfl fun _ => id
  | closeFd fd => exact hI.quiet rfl fun _ hmem => (AList.mem_erase.mp hmem).2
  | registerFd granted fd events callback => exact hI.registerFd granted fd events callback
  | modifyFd fd events => exact hI.modifyFd fd events
  | unregisterFd fd => exact hI.unregisterFd fd
  | epollWait reported => exact hI.epollWait ha
  | dispatch => exact hI.dispatch

end Inv

/-- **Which callbacks are called.** In every run, whatever the callbacks do between the events of
one wait: each call is of the callback that is registered for the descriptor then, with an event of
the last wait, at most once for each; unless the descriptor was registered again since, the kernel
reported the event when this callback was registered. And of the events of the last wait each is
still to come, had its call, or was unregistered before its turn. -/
theorem calls_faithful (hr : Runs.Reach Machine.step Enabled {} l m) :
    (Runs.Along m.trace fun before e =>
      ∀ callback fd events, e = .called callback fd events → Faithful before callback fd events) ∧
    ∀ r, .waited r ∈ m.trace → ∃ earlier reported since,
      m.trace = earlier ++ .waited reported :: since ∧ (∀ r, .waited r ∉ since) ∧
      ∀ p ∈ reported, p ∈ m.pending ∨ (∃ callback, .called callback p.1 p.2 ∈ since) ∨
        .unregistered p.1 ∈ since := by
  have hI : Inv m := hr.invariant inv_new fun _ _ hI ha => hI.step ha
  refine ⟨hI.faithful, fun r hmem => ?_⟩
  rcases hI.round with ⟨-, hno⟩ | ⟨earlier, reported, since, htrace, hround⟩
  · exact absurd hmem (hno r)
  · exact ⟨earlier, reported, since, htrace, hround.not_waited, hround.dealt⟩

/-- **A number that is used again.** Both sockets have something to read; the callback of the
first closes the second and opens a third, which gets its number, and then the event. -/
theorem calls_faithful_reused :
    let l : List (Input ℕ) := [.openFd 8, .registerFd true 8 epollIn (some 1), .openFd 9,
      .registerFd true 9 epollIn (some 2), .epollWait [(8, epollIn), (9, epollIn)], .dispatch,
      .unregisterFd 9, .closeFd 9, .openFd 9, .registerFd true 9 epollOut (some 3), .dispatch]
    ∃ before, (l.foldl Machine.step {}).trace = before ++ [.called 3 9 epollIn] ∧
      Faithful before 3 9 epollIn := by
  intro l
  have hrun : Runs.Reach Machine.step Enabled {} l (l.foldl Machine.step {}) := by
    refine Runs.reach_iff.mpr ⟨rfl, ?_⟩
    simp only [l, Runs.throughout_cons]
    refine ⟨?_, ?_, ?_, ?_, ?_, ?_, ?_, ?_, ?_, ?_, ?_, Runs.throughout_nil _⟩ <;> decide
  have htrace : (l.foldl Machine.step {}).trace = [.registered 8 1, .registered 9 2,
      .waited [(8, epollIn), (9, epollIn)], .called 1 8 epollIn, .unregistered 9,
      .registered 9 3] ++ [.called 3 9 epollIn] := rfl
  exact ⟨_, htrace, (calls_faithful hrun).1 _ _ [] htrace 3 9 epollIn rfl⟩

end Dispatch

end TransferEngine
