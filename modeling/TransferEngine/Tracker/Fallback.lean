import TransferEngine.Tracker.Model

/-!
# One tracker after the other

`announce` goes through the trackers in order until one of them answers
(`TransferEngine.TrackerClient.announce_cases`). An exception of a tracker and a scheme that is
not supported have it go on to the next. A failure that an HTTP tracker reports in its answer does
not: the answer is an ordinary return value, and it ends the loop although it is no success. So
the trackers behind are a fallback exactly if no tracker before them declines in that way
(`TransferEngine.TrackerClient.fallsBack_iff`). A UDP tracker that reports a failure does so with
an exception (`TransferEngine.TrackerClient.failureReason_announceUdp`).
-/

namespace TransferEngine

namespace TrackerClient

open Bytes

variable {net : ℕ → Network} {c : TrackerClient} {args : AnnounceArgs} {k i j : ℕ}
  {r r' : TrackerResponse} {url : List UInt8} {urls errors : List (List UInt8)}

/-! ### What a tracker answers -/

/-- **Tracker `k`, of the list `urls`, answers** with a response. -/
def Answers (net : ℕ → Network) (c : TrackerClient) (args : AnnounceArgs)
    (urls : List (List UInt8)) (k : ℕ) (r : TrackerResponse) : Prop :=
  ∃ url, urls[k]? = some url ∧ c.tryTracker (net k) args url = .ok r

/-- It answers without a failure reason. -/
def Succeeds (net : ℕ → Network) (c : TrackerClient) (args : AnnounceArgs) (k : ℕ)
    (r : TrackerResponse) : Prop :=
  Answers net c args c.torrent.announceList k r ∧ r.failureReason = []

/-- It answers with a failure reason. -/
def Declines (net : ℕ → Network) (c : TrackerClient) (args : AnnounceArgs) (k : ℕ) : Prop :=
  ∃ r, Answers net c args c.torrent.announceList k r ∧ r.failureReason ≠ []

/-- A failure is reported, by an exception or in the response. -/
def ReportsFailure : Except TrackerError TrackerResponse → Prop
  | .error _ => True
  | .ok r => r.failureReason ≠ []

theorem Answers.lt (h : Answers net c args urls k r) : k < urls.length := by
  obtain ⟨url, hurl, -⟩ := h
  exact (List.getElem?_eq_some_iff.mp hurl).1

theorem Answers.inj (h : Answers net c args urls k r) (h' : Answers net c args urls k r') :
    r = r' := by
  obtain ⟨url, hurl, hr⟩ := h
  obtain ⟨url', hurl', hr'⟩ := h'
  rw [hurl, Option.some_inj] at hurl'
  subst hurl'
  rw [hr] at hr'
  cases hr'
  rfl

/-! ### The loop -/

/-- **The loop ends** with the first answer, or with an exception when no tracker has answered. -/
theorem announceLoop_cases (net : ℕ → Network) (c : TrackerClient) (args : AnnounceArgs) (k : ℕ)
    (errors urls : List (List UInt8)) :
    ((∀ i r, ¬Answers (fun i => net (k + i)) c args urls i r) ∧
        ∃ errors', errors'.length = errors.length + urls.length ∧
          announceLoop net c args k errors urls = (urls, .error (.allFailed errors'))) ∨
      ∃ i r, Answers (fun i => net (k + i)) c args urls i r ∧
        (∀ j < i, ∀ r', ¬Answers (fun i => net (k + i)) c args urls j r') ∧
        announceLoop net c args k errors urls = (urls.take (i + 1), .ok r) := by
  induction urls generalizing k errors with
  | nil =>
    refine Or.inl ⟨fun i r hr => ?_, errors, rfl, rfl⟩
    exact absurd hr.lt (Nat.not_lt_zero i)
  | cons url urls ih =>
    rw [announceLoop]
    rcases htry : c.tryTracker (net k) args url with e | r
    · dsimp only
      -- this tracker has no answer, and the others are those of the rest of the list
      have hzero : ∀ r, ¬Answers (fun i => net (k + i)) c args (url :: urls) 0 r := by
        rintro r ⟨url', hurl, hr⟩
        obtain rfl : url = url' := by simpa using hurl
        rw [show c.tryTracker (net k) args url = .ok r from hr] at htry
        cases htry
      have hsucc : ∀ i r, Answers (fun i => net (k + i)) c args (url :: urls) (i + 1) r ↔
          Answers (fun i => net (k + 1 + i)) c args urls i r := by
        intro i r
        rw [Answers, Answers, List.getElem?_cons_succ, Nat.add_right_comm, Nat.add_assoc]
      rcases ih (k + 1) (errors ++ [url ++ ascii ": " ++ e.what.takeWhile (· ≠ 0)]) with
        ⟨hnone, errors', hlen, he⟩ | ⟨i, r, hr, hbefore, he⟩
      · refine Or.inl ⟨fun i r => ?_, errors', ?_, by rw [he]⟩
        · cases i with
          | zero => exact hzero r
          | succ i => exact mt (hsucc i r).mp (hnone i r)
        · rw [hlen, List.length_append, List.length_singleton, List.length_cons]
          omega
      · refine Or.inr ⟨i + 1, r, (hsucc i r).mpr hr, fun j hj r' => ?_, ?_⟩
        · cases j with
          | zero => exact hzero r'
          | succ j => exact mt (hsucc j r').mp (hbefore j (by omega) r')
        · rw [he, List.take_succ_cons]
    · exact Or.inr ⟨0, r, ⟨url, rfl, htry⟩, fun j hj => absurd hj (Nat.not_lt_zero j), rfl⟩

/-- **What `announce` does**: it returns the first answer, having tried the trackers up to that
one; or it throws, having tried them all, with one message for each. -/
theorem announce_cases (net : ℕ → Network) (c : TrackerClient) (args : AnnounceArgs) :
    ((∀ k r, ¬Answers net c args c.torrent.announceList k r) ∧
        ∃ errors, errors.length = c.torrent.announceList.length ∧
          announce net c args = (c.torrent.announceList, .error (.allFailed errors))) ∨
      ∃ k r, Answers net c args c.torrent.announceList k r ∧
        (∀ j < k, ∀ r', ¬Answers net c args c.torrent.announceList j r') ∧
        announce net c args = (c.torrent.announceList.take (k + 1), .ok r) := by
  have h := announceLoop_cases net c args 0 [] c.torrent.announceList
  simp only [Nat.zero_add, List.length_nil] at h
  exact h

/-! ### Falling back -/

/-- **The trackers are tried in order until one succeeds**: the first success is returned, and
without one a failure is reported after all trackers have been tried. -/
structure FallsBack (net : ℕ → Network) (c : TrackerClient) (args : AnnounceArgs) : Prop where
  /-- The first success. -/
  success : ∀ k r, Succeeds net c args k r → (∀ j < k, ∀ r', ¬Succeeds net c args j r') →
    announce net c args = (c.torrent.announceList.take (k + 1), .ok r)
  /-- No success. -/
  failure : (∀ k r, ¬Succeeds net c args k r) →
    (announce net c args).1 = c.torrent.announceList ∧ ReportsFailure (announce net c args).2

/-- Where nobody answers, nobody succeeds, and all trackers are tried. -/
theorem fallsBack_of_none (hnone : ∀ k r, ¬Answers net c args c.torrent.announceList k r)
    (he : announce net c args = (c.torrent.announceList, .error (.allFailed errors))) :
    FallsBack net c args where
  success := fun k r hk => absurd hk.1 (hnone k r)
  failure := fun _ => by
    rw [he]
    exact ⟨rfl, trivial⟩

section FirstAnswer

variable (hr : Answers net c args c.torrent.announceList i r)
  (hbefore : ∀ j < i, ∀ r', ¬Answers net c args c.torrent.announceList j r')
  (he : announce net c args = (c.torrent.announceList.take (i + 1), .ok r))

include hr hbefore in
/-- Whoever declines does so after the first answer, if that is a success. -/
theorem lt_of_declines (hok : r.failureReason = []) (hk : Declines net c args k) : i < k := by
  obtain ⟨r', hr', hbad⟩ := hk
  refine lt_of_le_of_ne (Nat.le_of_not_lt fun hlt => hbefore k hlt r' hr') ?_
  rintro rfl
  exact hbad (hr'.inj hr ▸ hok)

include hr hbefore he in
/-- If the first answer is a success, it is the first success. -/
theorem fallsBack_of_success (hok : r.failureReason = []) : FallsBack net c args where
  success := by
    intro k r' hk hmin
    obtain rfl : k = i :=
      le_antisymm (Nat.le_of_not_lt fun hlt => hmin i hlt r ⟨hr, hok⟩)
        (Nat.le_of_not_lt fun hlt => hbefore k hlt r' hk.1)
    rw [he, hr.inj hk.1]
  failure := fun hno => absurd ⟨hr, hok⟩ (hno i r)

include hr hbefore he in
/-- If the first answer is a refusal, nobody behind it is tried. -/
theorem fallsBack_iff_last (hbad : r.failureReason ≠ []) :
    FallsBack net c args ↔ i + 1 = c.torrent.announceList.length := by
  have hlt := hr.lt
  constructor
  · intro h
    by_cases hsuc : ∃ j r₁, Succeeds net c args j r₁
    · -- the first success would be returned, and is not
      classical
      obtain ⟨r₁, hj⟩ := Nat.find_spec hsuc
      have hret := h.success _ r₁ hj fun j' hj' r₂ h₂ => Nat.find_min hsuc hj' ⟨r₂, h₂⟩
      rw [he, Prod.mk.injEq, Except.ok.injEq] at hret
      exact absurd (hret.2 ▸ hj.2) hbad
    · -- all have been tried, so the refusal came from the last
      have htried := (h.failure fun j r₁ hj => hsuc ⟨j, r₁, hj⟩).1
      rw [he] at htried
      have hlen := congrArg List.length htried
      rw [List.length_take] at hlen
      omega
  · intro hlast
    refine ⟨fun k r' hk _ => ?_, fun _ => ?_⟩
    · have hk' := hk.1.lt
      obtain rfl : k = i :=
        le_antisymm (by omega) (Nat.le_of_not_lt fun hlt => hbefore k hlt r' hk.1)
      exact absurd (hr.inj hk.1 ▸ hk.2) hbad
    · rw [he, hlast, List.take_length]
      exact ⟨rfl, hbad⟩

end FirstAnswer

/-- **The trackers are a fallback for each other** exactly if each that declines is the last one,
or comes after a success. -/
theorem fallsBack_iff (net : ℕ → Network) (c : TrackerClient) (args : AnnounceArgs) :
    FallsBack net c args ↔ ∀ k, Declines net c args k →
      k + 1 = c.torrent.announceList.length ∨ ∃ j < k, ∃ r, Succeeds net c args j r := by
  rcases announce_cases net c args with ⟨hnone, errors, -, he⟩ | ⟨i, r, hr, hbefore, he⟩
  · exact iff_of_true (fallsBack_of_none hnone he) fun k ⟨r, hr, _⟩ => absurd hr (hnone k r)
  · by_cases hok : r.failureReason = []
    · exact iff_of_true (fallsBack_of_success hr hbefore he hok)
        fun k hk => Or.inr ⟨i, lt_of_declines hr hbefore hok hk, r, hr, hok⟩
    · rw [fallsBack_iff_last hr hbefore he hok]
      constructor
      · -- whoever answers is the last, like the one that answers first
        rintro hlast k ⟨r', hr', -⟩
        have hk := hr'.lt
        have hik : i ≤ k := Nat.le_of_not_lt fun hlt => hbefore k hlt r' hr'
        exact Or.inl (by omega)
      · intro h
        rcases h i ⟨r, hr, hok⟩ with hlast | ⟨j, hj, r₁, h₁⟩
        · exact hlast
        · exact absurd h₁.1 (hbefore j hj r₁)

/-! ### Trackers that do not decline -/

/-- What attempts end with, one of them ended with. -/
theorem attempts_eq_ok {α : Type} {attempt : ℕ → Attempt α} {failed : TrackerError} {a : α}
    {left : ℕ} (h : attempts attempt failed left k = .ok a) : ∃ k', attempt k' = .done a := by
  induction left generalizing k with
  | zero => cases h
  | succ left ih =>
    rw [attempts] at h
    split at h
    case h_1 => exact ih h
    case h_2 a' ha' =>
      cases h
      exact ⟨k, ha'⟩
    case h_3 => cases h

/-- What an exchange reads, it reads off a datagram. -/
theorem exchange_eq_done {α : Type} {e : Exchange} {id : UInt32} {size action : ℕ}
    {onError : List UInt8 → TrackerError} {read : List UInt8 → α} {a : α}
    (h : exchange e id size action onError read = .done a) :
    ∃ datagram, e = .received datagram ∧ size ≤ (datagram.take bufferSize).length ∧
      a = read (datagram.take bufferSize) := by
  cases e with
  | setsockoptFails => cases h
  | sendFails => cases h
  | recvFails => cases h
  | received datagram =>
    rw [exchange] at h
    split_ifs at h with hsize _ _ _
    cases h
    exact ⟨datagram, rfl, Nat.le_of_not_lt hsize, rfl⟩

/-- **What a UDP tracker answers** is read off one datagram of 20 bytes at least. -/
theorem announceUdp_eq_ok {net : Network} (h : c.announceUdp net args url = .ok r) :
    ∃ datagram : List UInt8, 20 ≤ (datagram.take bufferSize).length ∧
      r = udpResponse (datagram.take bufferSize) := by
  rw [announceUdp] at h
  split at h
  case isTrue => cases h
  case isFalse =>
    dsimp only at h
    split at h
    case h_1 => cases h
    case h_2 =>
      split at h
      case h_1 => cases h
      case h_2 =>
        obtain ⟨connectionId, -, h⟩ := bind_eq_ok h
        obtain ⟨k, hk⟩ := attempts_eq_ok h
        obtain ⟨datagram, -, hsize, hr⟩ := exchange_eq_done hk
        exact ⟨datagram, hsize, hr⟩

/-- A UDP tracker does not decline in its answer. -/
theorem failureReason_announceUdp {net : Network} (h : c.announceUdp net args url = .ok r) :
    r.failureReason = [] := by
  obtain ⟨datagram, -, rfl⟩ := announceUdp_eq_ok h
  rfl

/-! ### A tracker that declines -/

/-- A client for a torrent with two HTTP trackers. -/
def twoTrackers : TrackerClient where
  torrent :=
    { Torrent.oneByte.toTorrentMetadata with
      name := [0x61]
      announceUrl := ascii "http://a"
      announceList := [ascii "http://a", ascii "http://b"]
      infoHash := .ofBytes [] }
  peerId := Vector.replicate 20 0x30

/-- A network in which an HTTP tracker answers with the given body. -/
def answering (body : List UInt8) : Network where
  curlInit := true
  perform := fun _ => .done 200 body
  resolve := fun _ _ => none
  socket := none
  connectId := fun _ => 0
  connect := fun _ _ => .recvFails
  key := 0
  announceId := fun _ => 0
  announce := fun _ _ => .recvFails
  garbage := fun _ => 0

/-- The first tracker declines, the second would have answered. -/
def declining (k : ℕ) : Network :=
  if k = 0 then answering (ascii "d14:failure reason1:xe") else answering (ascii "d5:peers0:e")

/-- **A tracker that declines ends the loop**: the second one, which succeeds, is not tried. -/
theorem not_fallsBack_declining :
    announce declining twoTrackers ⟨6881, 0, 0, 1, none⟩ =
        ([ascii "http://a"], .ok { failureReason := ascii "x" }) ∧
      Succeeds declining twoTrackers ⟨6881, 0, 0, 1, none⟩ 1 {} ∧
      ¬FallsBack declining twoTrackers ⟨6881, 0, 0, 1, none⟩ := by
  have hann : announce declining twoTrackers ⟨6881, 0, 0, 1, none⟩ =
      ([ascii "http://a"], .ok { failureReason := ascii "x" }) := by decide +kernel
  have hsecond : Succeeds declining twoTrackers ⟨6881, 0, 0, 1, none⟩ 1 {} :=
    ⟨⟨ascii "http://b", by decide, by decide +kernel⟩, rfl⟩
  refine ⟨hann, hsecond, fun h => ?_⟩
  have hfirst : ∀ j < 1, ∀ r, ¬Succeeds declining twoTrackers ⟨6881, 0, 0, 1, none⟩ j r := by
    rintro j hj r ⟨hr, hok⟩
    obtain rfl : j = 0 := by omega
    have hdec : Answers declining twoTrackers ⟨6881, 0, 0, 1, none⟩
        twoTrackers.torrent.announceList 0 { failureReason := ascii "x" } :=
      ⟨ascii "http://a", by decide, by decide +kernel⟩
    rw [← hdec.inj hr] at hok
    cases hok
  have hret := h.success 1 {} hsecond hfirst
  rw [hann] at hret
  cases hret

end TrackerClient

end TransferEngine
