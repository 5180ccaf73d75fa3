import TransferEngine.Coordinator.Moves

/-!
# Only verified pieces are completed

Whatever the peers send, and in whatever order: a piece is counted as complete only in a
step that handed on bytes of the right length with the right digest; that happens at most
once per piece; a completed piece stays completed; and it is announced only afterwards.

The reason is in the piece manager's bitfield, which the trace follows exactly: a piece of
the torrent has been handed on if and only if its bit is set
(`TransferEngine.Coordinator.Verified`). A completion report is only ever made about a
piece whose bit is not set.
-/

namespace TransferEngine

/-- The event is the completion of piece `i`. -/
def Event.completes (i : ℕ) : Event → Bool
  | .pieceCompleted j _ => j == i
  | _ => false

/-- Every announcement in the trace comes after the completion of its piece. -/
def Announced (tr : List Event) : Prop :=
  ∀ pre p idx post, tr = pre ++ .sent p (.haveMsg idx) :: post →
    ∃ d, .pieceCompleted idx.toNat d ∈ post

theorem announced_cons {e : Event} {tr : List Event} (h : Announced tr)
    (he : ∀ p idx, e = .sent p (.haveMsg idx) → ∃ d, .pieceCompleted idx.toNat d ∈ tr) :
    Announced (e :: tr) := by
  rintro (_ | ⟨e', pre⟩) p idx post heq
  · obtain ⟨rfl, rfl⟩ := List.cons.inj heq
    exact he p idx rfl
  · obtain ⟨rfl, rfl⟩ := List.cons.inj heq
    exact h pre p idx post rfl

theorem Event.Follows.completes_eq {e : Event} {tr : List Event} (h : e.Follows tr) (i : ℕ) :
    e.completes i = false := by
  cases e with
  | pieceCompleted => exact h.elim
  | _ => rfl

namespace Coordinator

variable {T : Torrent} {s s' : State T} {env : Env} {a : Input} {i : ℕ}

/-- **The trace and the bitfield agree.** -/
structure Verified (s : State T) : Prop where
  /-- The entries of the piece manager are sound. -/
  ok : s.pieceManager.Ok
  /-- A piece of the torrent that was handed on has its bit set. -/
  has_of_completed : ∀ i < T.count, s.trace.any (·.completes i) = true →
    s.pieceManager.hasPiece i = true
  /-- No piece of the torrent is handed on twice. -/
  once : ∀ i < T.count, s.trace.countP (·.completes i) ≤ 1
  /-- Pieces are announced after they are handed on. -/
  announced : Announced s.trace

theorem verified_init (disk : Disk) : Verified (.init T disk) where
  ok := PieceManager.ok_init
  has_of_completed := fun _ _ h => nomatch h
  once := fun _ _ => Nat.zero_le _
  announced := fun pre p idx post h => by simp [State.init] at h

/-- Recording an event that completes nothing. -/
theorem Verified.of_cons {e : Event} (h : Verified s) (hok : s'.pieceManager.Ok)
    (hhas : ∀ i, s'.pieceManager.hasPiece i = s.pieceManager.hasPiece i)
    (htr : s'.trace = e :: s.trace) (hc : ∀ i, e.completes i = false)
    (he : ∀ p idx, e = .sent p (.haveMsg idx) → ∃ d, .pieceCompleted idx.toNat d ∈ s.trace) :
    Verified s' where
  ok := hok
  has_of_completed := by
    intro i hi hany
    rw [htr, List.any_cons, hc, Bool.false_or] at hany
    rw [hhas]
    exact h.has_of_completed i hi hany
  once := by
    intro i hi
    rw [htr, List.countP_cons_of_neg (by simp [hc])]
    exact h.once i hi
  announced := by
    rw [htr]
    exact announced_cons h.announced he

theorem Verified.of_trace_eq (h : Verified s) (hok : s'.pieceManager.Ok)
    (hhas : ∀ i, s'.pieceManager.hasPiece i = s.pieceManager.hasPiece i)
    (htr : s'.trace = s.trace) : Verified s' where
  ok := hok
  has_of_completed := by
    intro i hi hany
    rw [hhas]
    exact h.has_of_completed i hi (htr ▸ hany)
  once := htr ▸ h.once
  announced := htr ▸ h.announced

theorem Verified.move (h : Verified s) (hm : Move s s') : Verified s' := by
  rcases hm.trace_cases with htr | ⟨e, he, htr⟩
  · exact h.of_trace_eq (hm.ok h.ok) (fun _ => hm.hasPiece_eq) htr
  · refine h.of_cons (hm.ok h.ok) (fun _ => hm.hasPiece_eq) htr he.completes_eq ?_
    rintro p idx rfl
    exact he

/-! ### Completing a piece -/

/-- The fault of a missing digest completes nothing and announces nothing. -/
theorem Verified.hashFault (h : Verified s) (i : ℕ) :
    Verified { s with trace := hashFault T i ++ s.trace } := by
  rw [Coordinator.hashFault]
  split
  case isTrue => exact h
  case isFalse => exact h.of_cons h.ok (fun _ => rfl) rfl (fun _ => rfl) (by rintro _ _ ⟨⟩)

/-- Handing on a piece whose bit is not set, and setting it. -/
theorem Verified.complete {d : List UInt8} (h : Verified s)
    (hi : s.pieceManager.hasPiece i = false) (hok : s'.pieceManager.Ok)
    (hhas : ∀ j, s'.pieceManager.hasPiece j = true ↔
      (i = j ∧ i < T.count) ∨ s.pieceManager.hasPiece j = true)
    (htr : s'.trace = .pieceCompleted i d :: s.trace) : Verified s' where
  ok := hok
  has_of_completed := by
    intro j hj hany
    rw [hhas]
    rw [htr, List.any_cons, Bool.or_eq_true] at hany
    rcases hany with heq | hany
    · obtain rfl : i = j := by simpa [Event.completes] using heq
      exact Or.inl ⟨rfl, hj⟩
    · exact Or.inr (h.has_of_completed j hj hany)
  once := by
    intro j hj
    rw [htr, List.countP_cons]
    by_cases hij : i = j
    · -- the piece was not handed on before: its bit would be set
      subst hij
      have hnone : s.trace.countP (·.completes i) = 0 := by
        rw [List.countP_eq_zero]
        intro e he hc
        have := h.has_of_completed i hj (List.any_eq_true.mpr ⟨e, he, hc⟩)
        rw [hi] at this
        cases this
      rw [hnone]
      simp [Event.completes]
    · simpa [Event.completes, hij] using h.once j hj
  announced := by
    rw [htr]
    exact announced_cons h.announced (by rintro _ _ ⟨⟩)

/-! ### Runs -/

theorem Verified.head (h : Verified s) (hh : Head env s a s') : Verified s' := by
  have hok := hh.ok h.ok
  rcases hh.trace_cases with ⟨hhas, htr⟩ | ⟨p, idx, c, x, state, pm, -, -, -, -, -, hhas, htr⟩ |
    ⟨p, idx, c, x, state, pm, tr, outcome, -, -, -, hb, -, hhas, htr, -, htr'⟩
  · exact h.of_trace_eq hok hhas htr
  · exact (h.hashFault idx.toNat).of_cons hok hhas htr (fun _ => rfl) (by rintro _ _ ⟨⟩)
  · -- the piece is handed on, and then the result of the write is recorded
    obtain ⟨hnot, -⟩ := PieceManager.of_blockReceived_true h.ok hb
    have hmid : Verified { s' with trace := tr } :=
      (h.hashFault idx.toNat).complete hnot hok hhas htr
    exact hmid.of_cons hok (fun _ => rfl) htr' (fun _ => rfl) (by rintro _ _ ⟨⟩)

theorem Verified.step (h : Verified s) : Verified (step env s a) :=
  Runs.preserved_chain (moves_step env s a) (fun _ _ hs hm => hs.move hm)
    (h.head (head_spec env s a))

theorem verified_run (env : Env) (disk : Disk) (l : List Input) :
    Verified (run env disk l : State T) :=
  (Runs.reach_free l).invariant (verified_init disk) fun _ _ h _ => h.step

/-- What a step does to the bit of a piece, and with what event. -/
theorem hasPiece_step (env : Env) (a : Input) (h : Verified s) (hi : i < T.count) :
    (step env s a).pieceManager.hasPiece i = s.pieceManager.hasPiece i ∨
      ((step env s a).pieceManager.hasPiece i = true ∧
        ∃ new d, (step env s a).trace = new ++ s.trace ∧ .pieceCompleted i d ∈ new ∧
          d.length = T.getPieceLength i ∧ T.pieceHashes[i]? = some (env.sha1 d)) := by
  have hmoves := moves_step env s a
  have hhead := head_spec env s a
  rw [hmoves.hasPiece_eq]
  obtain ⟨new, hnew, -⟩ := hmoves.trace_eq
  rw [hnew]
  rcases hhead.trace_cases with ⟨hhas, -⟩ | ⟨p, idx, c, x, state, pm, -, -, -, -, -, hhas, -⟩ |
    ⟨p, idx, c, x, state, pm, tr, outcome, -, -, -, hb, hv, hhas, htr, -, htr'⟩
  · exact Or.inl (hhas i)
  · exact Or.inl (hhas i)
  · by_cases hij : idx.toNat = i
    · subst hij
      -- the bit is set by this step, which hands the piece on before
      obtain ⟨hlen, hhash⟩ := PieceManager.of_validatePiece h.ok hb hv hi
      refine Or.inr ⟨(hhas idx.toNat).mpr (Or.inl ⟨rfl, hi⟩),
        new ++ .wrote idx.toNat (pm.getPieceData idx.toNat) outcome ::
          .pieceCompleted idx.toNat (pm.getPieceData idx.toNat) :: hashFault T idx.toNat,
        pm.getPieceData idx.toNat, ?_, ?_, hlen, hhash⟩
      · rw [htr', htr]
        simp
      · simp
    · refine Or.inl (Bool.eq_iff_iff.mpr ?_)
      rw [hhas]
      simp [hij]

/-- **Only verified pieces are completed.** In every run and for every piece of the
torrent: the bit of the piece becomes set only in a step that hands on bytes of the right
length and digest; the piece is handed on at most once; its bit is never cleared; and it
is announced only after it was handed on. -/
theorem completion_verified (env : Env) (disk : Disk) (l : List Input) (i : Fin T.count) :
    (∀ a, (run env disk l : State T).pieceManager.hasPiece i = false →
      (step env (run env disk l : State T) a).pieceManager.hasPiece i = true →
        ∃ new d, (step env (run env disk l : State T) a).trace =
            new ++ (run env disk l : State T).trace ∧ .pieceCompleted i d ∈ new ∧
          d.length = T.getPieceLength i ∧ T.pieceHashes[(i : ℕ)]? = some (env.sha1 d)) ∧
    (run env disk l : State T).trace.countP (·.completes i) ≤ 1 ∧
    (∀ a, (run env disk l : State T).pieceManager.hasPiece i = true →
      (step env (run env disk l : State T) a).pieceManager.hasPiece i = true) ∧
    ∀ pre p post, (run env disk l : State T).trace =
        pre ++ .sent p (.haveMsg (.ofNat i)) :: post → ∃ d, .pieceCompleted i d ∈ post := by
  have h : Verified (run env disk l : State T) := verified_run env disk l
  refine ⟨fun a hnot hhas => ?_, h.once i i.isLt, fun a hhas => ?_, fun pre p post htr => ?_⟩
  · rcases hasPiece_step env a h i.isLt with heq | ⟨-, hnew⟩
    · rw [heq, hnot] at hhas
      cases hhas
    · exact hnew
  · rcases hasPiece_step env a h i.isLt with heq | ⟨hset, -⟩
    · rw [heq, hhas]
    · exact hset
  · obtain ⟨d, hd⟩ := h.announced pre p _ post htr
    have hi : (UInt32.ofNat i).toNat = i := by
      rw [UInt32.toNat_ofNat']
      exact Nat.mod_eq_of_lt (Torrent.lt_of_lt_count i.isLt)
    exact ⟨d, hi ▸ hd⟩

end Coordinator

end TransferEngine
