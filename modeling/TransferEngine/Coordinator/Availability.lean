import TransferEngine.Coordinator.Moves
import TransferEngine.Lib.Maps

/-!
# The availability histogram

The piece picker counts how many peers have each piece. The coordinator keeps the counters
up to date from four places: a peer leaves, a peer sends its bitfield, a peer announces a
piece, and a peer is registered with an empty bitfield. In every reachable state the counter
of a piece is the number of registered peers whose bitfield has it
(`TransferEngine.Coordinator.availability_exact`). Since a counter that is taken down is
therefore never zero, that it would stay at zero is of no consequence.
-/

namespace TransferEngine

namespace Coordinator

open State

variable {T : Torrent} {s s' : State T} {env : Env} {a : Input} {p q : PeerId}
  {state state' : PeerState T} {i : ℕ}

/-- The number of registered peers that have a piece. -/
def holders (peers : AList fun _ : PeerId => PeerState T) (i : ℕ) : ℕ :=
  peers.countEntries fun e => e.2.bitfield.has i

/-- Fewer than `2 ^ 32` peers are registered at a time. -/
def FewPeers (s : State T) (a : Input) : Prop :=
  ∀ p, a = .register p → s.peers.keys.length + 1 < 2 ^ 32

/-- **The histogram is exact.** -/
structure Counted (s : State T) : Prop where
  few : s.peers.keys.length < 2 ^ 32
  exact : ∀ i < T.count, (s.piecePicker.getAvailability i).toNat = holders s.peers i

theorem counted_init (disk : Disk) : Counted (.init T disk) where
  few := Nat.two_pow_pos 32
  exact := by
    intro i _
    show ((PiecePicker.init T.count).getAvailability i).toNat = 0
    rw [PiecePicker.getAvailability_init]
    rfl

/-- An entry with a piece makes the counter of the piece positive. -/
theorem Counted.pos (h : Counted s) (hp : s.peers.lookup p = some state) (hi : i < T.count)
    (hb : state.bitfield.has i = true) : 0 < (s.piecePicker.getAvailability i).toNat := by
  rw [h.exact i hi, holders, AList.countEntries_of_lookup hp, if_pos hb]
  omega

/-- The others that have a piece are fewer than the registered peers. -/
theorem holders_erase_lt (hp : s.peers.lookup p = some state) :
    holders (s.peers.erase p) i < s.peers.keys.length := by
  rw [AList.length_keys_of_lookup hp]
  exact Nat.lt_succ_of_le AList.countEntries_le

/-- Changing an entry but not its bitfield. -/
theorem Counted.setPeer (h : Counted s) (hp : s.peers.lookup p = some state)
    (hpicker : s'.piecePicker = s.piecePicker) (hpeers : s'.peers = s.peers.insert p state')
    (hb : state'.bitfield = state.bitfield) : Counted s' where
  few := by
    rw [hpeers, AList.length_keys_insert, ← AList.length_keys_of_lookup hp]
    exact h.few
  exact := by
    intro i hi
    rw [hpicker, h.exact i hi, hpeers, holders, holders, AList.countEntries_of_lookup hp,
      AList.countEntries_insert, hb]

theorem Counted.congr (h : Counted s) (hpicker : s'.piecePicker = s.piecePicker)
    (hpeers : s'.peers = s.peers) : Counted s' :=
  ⟨hpeers ▸ h.few, fun i hi => by rw [hpicker, hpeers, h.exact i hi]⟩

/-! ### The counters -/

/-- Taking a bitfield that is counted out of the histogram. -/
theorem toNat_removePeerBitfield (h : Counted s) (hp : s.peers.lookup p = some state)
    (hi : i < T.count) :
    ((s.piecePicker.removePeerBitfield state.bitfield).getAvailability i).toNat =
      holders (s.peers.erase p) i := by
  have hex := h.exact i hi
  rw [holders, AList.countEntries_of_lookup hp] at hex
  rw [PiecePicker.getAvailability_removePeerBitfield hi, holders]
  dsimp only at hex
  split
  case isTrue hb =>
    rw [if_pos hb] at hex
    have hpos : 0 < s.piecePicker.getAvailability i := by
      rw [UInt32.lt_iff_toNat_lt, hex]
      exact Nat.succ_pos _
    rw [if_pos hpos, UInt32.toNat_sub_of_le _ _ (UInt32.lt_iff_toNat_lt.mp hpos), hex]
    rfl
  case isFalse hb => rw [hex, if_neg hb, Nat.add_zero]

/-- A counter that cannot wrap. -/
theorem toNat_add_one {x : UInt32} (h : x.toNat + 1 < 2 ^ 32) : (x + 1).toNat = x.toNat + 1 := by
  rw [UInt32.toNat_add]
  exact Nat.mod_eq_of_lt h

/-- **A peer leaves.** -/
theorem Counted.leave (h : Counted s) (p : PeerId) : Counted (unregisterPeer p s) := by
  rcases hp : s.peers.lookup p with _ | state
  · rwa [unregisterPeer_of_none hp]
  · rw [unregisterPeer_of_some hp]
    refine ⟨?_, fun i hi => toNat_removePeerBitfield h hp hi⟩
    have hlen := AList.length_keys_of_lookup hp
    have hfew := h.few
    dsimp only
    omega

/-- **A peer sends its bitfield**, which replaces the one before. -/
theorem Counted.recordBitfield (h : Counted s) (hp : s.peers.lookup p = some state)
    (bits : List UInt8) : Counted (recordBitfield p bits state s) := by
  refine ⟨?_, fun i hi => ?_⟩
  · show (s.peers.insert p _).keys.length < _
    rw [AList.length_keys_insert_of_lookup hp]
    exact h.few
  · show ((PiecePicker.addPeerBitfield _ _).getAvailability i).toNat =
      holders (s.peers.insert p _) i
    have hrem := toNat_removePeerBitfield h hp hi
    have hlt := holders_erase_lt (i := i) hp
    have hfew := h.few
    rw [PiecePicker.getAvailability_addPeerBitfield hi, holders, AList.countEntries_insert]
    dsimp only
    split
    case isTrue hb => rw [toNat_add_one (by omega), hrem]; rfl
    case isFalse hb => rw [hrem]; rfl

/-- **A peer announces a piece** it did not have. -/
theorem Counted.recordHave (h : Counted s) (hp : s.peers.lookup p = some state) (idx : ℕ) :
    Counted (recordHave p idx state s) := by
  rw [Coordinator.recordHave]
  split
  case isFalse => exact h
  case isTrue hidx =>
    obtain ⟨hlt, hnot⟩ := hidx
    refine ⟨?_, fun i hi => ?_⟩
    · show (s.peers.insert p _).keys.length < _
      rw [AList.length_keys_insert_of_lookup hp]
      exact h.few
    · show ((PiecePicker.addAvailability _ _).getAvailability i).toNat =
        holders (s.peers.insert p _) i
      have hex := h.exact i hi
      rw [holders, AList.countEntries_of_lookup hp] at hex
      dsimp only at hex
      rw [PiecePicker.getAvailability_addAvailability hi, holders, AList.countEntries_insert]
      dsimp only
      by_cases hij : i = idx
      · subst hij
        -- the others are fewer than `2 ^ 32 - 1`, so the counter does not wrap
        have hother := holders_erase_lt (i := i) hp
        have hfew := h.few
        have hset : (state.bitfield.set i true).has i = true := by
          rw [Bitfield.has_set, if_pos ⟨rfl, hi⟩]
        rw [holders] at hother
        rw [hnot, if_neg Bool.false_ne_true] at hex
        rw [if_pos rfl, hset, if_pos rfl, toNat_add_one (by omega), hex]
      · have hset : (state.bitfield.set idx true).has i = state.bitfield.has i := by
          rw [Bitfield.has_set, if_neg fun hc => hij hc.1.symm]
        rw [if_neg hij, hset, hex]

/-! ### Steps -/

theorem Counted.move (h : Counted s) (hm : Move s s') : Counted s' := by
  cases hm with
  | note => exact h.congr rfl rfl
  | connection => exact h.congr rfl rfl
  | leave p => exact h.leave p
  | request p state i block pm hp => exact h.setPeer hp rfl rfl rfl
  | exhaust p state i pm hp => exact h.setPeer hp rfl rfl rfl
  | cancel q state kept rest r hq => exact h.setPeer hq rfl rfl rfl
  | deactivate q state hq => exact h.setPeer hq rfl rfl rfl

theorem Counted.moves (h : Counted s) (hm : Moves s s') : Counted s' :=
  Runs.preserved_chain hm (fun _ _ ht hm => ht.move hm) h

theorem Counted.settle (h : Counted s) (env : Env) (p : PeerId) (i : ℕ) :
    Counted (settle env p i s) := by
  rw [Coordinator.settle, log_hashFault]
  dsimp only
  split
  case isTrue => exact h.congr rfl rfl
  case isFalse =>
    have hfail : Counted ({ s with
        trace := .peerCorrupted p :: (hashFault T i ++ s.trace)
        pieceManager := s.pieceManager.pieceFailed i } : State T) := h.congr rfl rfl
    rw [onPeerCorrupted]
    split
    case isTrue => exact hfail.moves (moves_disconnect p _)
    case isFalse => exact hfail

theorem Counted.headMessage (h : Counted s) (hp : s.peers.lookup p = some state)
    (m : PeerMessage) : Counted (headMessage env p state s m) := by
  cases m with
  | chokeMsg => exact h.setPeer hp rfl rfl rfl
  | bitfieldMsg bits => exact h.recordBitfield hp bits
  | haveMsg idx => exact h.recordHave hp idx.toNat
  | pieceMsg idx c x =>
    rcases hb : s.pieceManager.blockReceived idx.toNat c.toNat x with ⟨completed, pm⟩
    rw [Coordinator.headMessage, deliver_eq hb]
    have hdel : Counted
        { s.setPeer p (state.answered idx.toNat c.toNat) with pieceManager := pm } :=
      h.setPeer hp rfl rfl rfl
    cases completed with
    | true => exact hdel.settle env p idx.toNat
    | false => exact hdel
  | keepAliveMsg => exact h
  | unchokeMsg => exact h
  | interestedMsg => exact h
  | notInterestedMsg => exact h
  | requestMsg => exact h
  | cancelMsg => exact h
  | portMsg => exact h

theorem Counted.head (h : Counted s) (ha : RegistersOnce s a ∧ FewPeers s a) :
    Counted (head env s a) := by
  cases a with
  | establish p =>
    rw [Coordinator.head]
    split <;> exact h.congr rfl rfl
  | register p =>
    -- a new peer has no piece, and its entry takes the place of none
    have hnone : s.peers.lookup p = none := ha.1 p rfl
    refine ⟨?_, fun i hi => ?_⟩
    · show (s.peers.insert p _).keys.length < _
      rw [AList.length_keys_insert, AList.length_keys_erase_of_none hnone]
      exact ha.2 p rfl
    · show (s.piecePicker.getAvailability i).toNat = holders (s.peers.insert p {}) i
      rw [h.exact i hi, holders, holders, AList.countEntries_insert,
        AList.countEntries_erase_of_none hnone]
      simp
  | unregister p => exact h.leave p
  | interested p => exact h
  | disconnect p => exact h
  | message p m =>
    rw [Coordinator.head]
    split
    case isFalse => exact h
    case isTrue =>
      have hset : Counted (s.setConnection p ((s.connections p).received m)) := h.congr rfl rfl
      split
      case h_1 => exact hset
      case h_2 state hp => exact hset.headMessage hp m

theorem Counted.step (h : Counted s) (ha : RegistersOnce s a ∧ FewPeers s a) :
    Counted (step env s a) :=
  (h.head ha).moves (moves_step env s a)

/-- **The histogram is exact** in every reachable state, and a counter that is to be taken
down for a peer is positive. -/
theorem availability_exact (env : Env) (disk : Disk) {l : List Input} {s : State T}
    (h : Runs.Reach (step env) (fun s a => RegistersOnce s a ∧ FewPeers s a) (.init T disk) l s)
    {i : ℕ} (hi : i < T.count) :
    (s.piecePicker.getAvailability i).toNat =
        s.peers.entries.countP (fun e => e.2.bitfield.has i) ∧
      ∀ p state, s.peers.lookup p = some state → state.bitfield.has i = true →
        0 < s.piecePicker.getAvailability i := by
  have hc : Counted s := h.invariant (counted_init disk) fun _ _ hs ha => hs.step ha
  exact ⟨hc.exact i hi, fun p state hp hb => UInt32.lt_iff_toNat_lt.mpr (hc.pos hp hi hb)⟩

/-- The arrival of a peer registers it once. -/
theorem throughout_arrival : Runs.Throughout (step Env.calm)
    (State.init Torrent.oneByte Disk.oneByte) (arrival 7)
    (fun s a => RegistersOnce s a ∧ FewPeers s a) := by
  simp only [arrival, Runs.throughout_cons, Runs.throughout_nil, and_true]
  refine ⟨?_, ?_, ?_, ?_⟩ <;> refine ⟨?_, ?_⟩ <;> rintro _ ⟨⟩
  · rfl
  · decide

/-- The one piece of the smallest torrent, which one peer has. -/
theorem availability_exact_oneByte :
    ((run Env.calm Disk.oneByte (arrival 7) :
        State Torrent.oneByte).piecePicker.getAvailability 0).toNat = 1 := by
  have hex := availability_exact Env.calm Disk.oneByte
    (Runs.reach_iff.mpr ⟨rfl, throughout_arrival⟩) (i := 0) (by decide)
  exact hex.1.trans (by decide)

end Coordinator

end TransferEngine
