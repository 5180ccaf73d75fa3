import TransferEngine.Coordinator.Model
import TransferEngine.Lib.Maps
import TransferEngine.PieceManager.Operations

/-!
# Reading the state of the coordinator

How the small operations on `TransferEngine.Coordinator.State` read, field by field, and
what the operations that other operations are made of do: returning requests, leaving,
closing a connection, sending.
-/

namespace TransferEngine

namespace Coordinator

variable {T : Torrent} {s s' : State T} {p q : PeerId} {state state' : PeerState T} {i c j d : ℕ}

namespace State

variable {e : Event} {x : PeerConnection}

@[simp] theorem pieceManager_log : (s.log e).pieceManager = s.pieceManager := rfl

@[simp] theorem peers_log : (s.log e).peers = s.peers := rfl

@[simp] theorem connections_log : (s.log e).connections = s.connections := rfl

@[simp] theorem trace_log : (s.log e).trace = e :: s.trace := rfl

@[simp] theorem choking_log : (s.log e).choking p = s.choking p := rfl

@[simp] theorem pieceManager_setPeer : (s.setPeer p state).pieceManager = s.pieceManager := rfl

@[simp] theorem connections_setPeer : (s.setPeer p state).connections = s.connections := rfl

@[simp] theorem trace_setPeer : (s.setPeer p state).trace = s.trace := rfl

@[simp] theorem choking_setPeer : (s.setPeer p state).choking q = s.choking q := rfl

@[simp] theorem pieceManager_setConnection :
    (s.setConnection p x).pieceManager = s.pieceManager := rfl

@[simp] theorem peers_setConnection : (s.setConnection p x).peers = s.peers := rfl

@[simp] theorem trace_setConnection : (s.setConnection p x).trace = s.trace := rfl

@[simp] theorem lookup_setPeer : (s.setPeer p state).peers.lookup q =
    if q = p then some state else s.peers.lookup q := by
  split
  case isTrue h => rw [h, setPeer, AList.lookup_insert]
  case isFalse h => rw [setPeer, AList.lookup_insert_ne h]

theorem connections_setConnection : (s.setConnection p x).connections q =
    if q = p then x else s.connections q :=
  Function.update_apply ..

@[simp] theorem choking_setConnection : (s.setConnection p x).choking q =
    if q = p then x.peerChoking else s.choking q := by
  rw [choking, connections_setConnection]
  split <;> rfl

end State

open State

/-! ### Returning requests -/

section FailRequests

variable {pm : PieceManager T} {reqs : List RequestedBlock} {r : RequestedBlock}

@[simp] theorem failRequests_nil : failRequests pm [] = pm := rfl

theorem failRequests_cons : failRequests pm (r :: reqs) =
    failRequests (pm.blockRequestFailed r.piece r.begin) reqs := rfl

@[simp] theorem bitfield_failRequests : (failRequests pm reqs).bitfield = pm.bitfield := by
  induction reqs generalizing pm with
  | nil => rfl
  | cons r reqs ih => rw [failRequests_cons, ih, PieceManager.bitfield_blockRequestFailed]

@[simp] theorem hasPiece_failRequests :
    (failRequests pm reqs).hasPiece i = pm.hasPiece i := by
  rw [PieceManager.hasPiece, bitfield_failRequests, PieceManager.hasPiece]

theorem ok_failRequests (h : pm.Ok) : (failRequests pm reqs).Ok := by
  induction reqs generalizing pm with
  | nil => exact h
  | cons r reqs ih => exact ih h.blockRequestFailed

theorem isSome_failRequests (h : pm.Ok) :
    ((failRequests pm reqs).inProgress i).isSome = (pm.inProgress i).isSome := by
  induction reqs generalizing pm with
  | nil => rfl
  | cons r reqs ih =>
    rw [failRequests_cons, ih h.blockRequestFailed, PieceManager.isSome_blockRequestFailed h]

/-- A piece that is not in progress is not put in progress by a failed request. -/
theorem inProgress_failRequests_none (h : pm.inProgress i = none) :
    (failRequests pm reqs).inProgress i = none := by
  induction reqs generalizing pm with
  | nil => exact h
  | cons r reqs ih => exact ih (PieceManager.inProgress_blockRequestFailed_none h)

/-- **The state of a block after requests are returned**: a requested block that one of
them asked for is pending, and no other block changes. -/
theorem blockState_failRequests (h : pm.Ok) : (failRequests pm reqs).blockState j d =
    if (∃ r ∈ reqs, r.piece = j ∧ r.begin = d) ∧ pm.blockState j d = some .requested then
      some .pending
    else pm.blockState j d := by
  induction reqs generalizing pm with
  | nil => simp
  | cons r reqs ih =>
    rw [failRequests_cons, ih h.blockRequestFailed, PieceManager.blockState_blockRequestFailed h]
    by_cases hr : j = r.piece ∧ d = r.begin
    · obtain ⟨rfl, rfl⟩ := hr
      by_cases hs : pm.blockState r.piece r.begin = some .requested
      · simp [hs]
      · simp [hs]
    · have hr' : ¬(r.piece = j ∧ r.begin = d) := fun hc => hr ⟨hc.1.symm, hc.2.symm⟩
      have hneg : ¬(j = r.piece ∧ d = r.begin ∧
          pm.blockState r.piece r.begin = some .requested) := fun hc => hr ⟨hc.1, hc.2.1⟩
      simp only [if_neg hneg, List.mem_cons, exists_eq_or_imp, hr', false_or]

end FailRequests

/-! ### Leaving -/

theorem unregisterPeer_of_none (h : s.peers.lookup p = none) : unregisterPeer p s = s := by
  rw [unregisterPeer, h]

theorem unregisterPeer_of_some (h : s.peers.lookup p = some state) : unregisterPeer p s =
    { s with
      piecePicker := s.piecePicker.removePeerBitfield state.bitfield
      pieceManager := failRequests s.pieceManager state.outstanding
      peers := s.peers.erase p } := by
  rw [unregisterPeer, h]

/-- After a peer has left, the other entries are what they were. -/
theorem lookup_unregisterPeer : (unregisterPeer p s).peers.lookup q =
    if q = p then none else s.peers.lookup q := by
  rcases h : s.peers.lookup p with _ | state
  · rw [unregisterPeer_of_none h]
    split
    case isTrue hq => rw [hq, h]
    case isFalse => rfl
  · rw [unregisterPeer_of_some h]
    split
    case isTrue hq => rw [hq, AList.lookup_erase]
    case isFalse hq => rw [AList.lookup_erase_ne hq]

@[simp] theorem trace_unregisterPeer : (unregisterPeer p s).trace = s.trace := by
  rw [unregisterPeer]
  split <;> rfl

@[simp] theorem connections_unregisterPeer : (unregisterPeer p s).connections = s.connections := by
  rw [unregisterPeer]
  split <;> rfl

@[simp] theorem bitfield_unregisterPeer :
    (unregisterPeer p s).pieceManager.bitfield = s.pieceManager.bitfield := by
  rw [unregisterPeer]
  split
  case h_1 => rfl
  case h_2 => exact bitfield_failRequests

/-! ### Closing and sending -/

@[simp] theorem peerChoking_sending (x : PeerConnection) (m : PeerMessage) :
    (x.sending m).peerChoking = x.peerChoking := by
  cases m <;> rfl

/-- **What closing a connection does**: nothing if it is closed; otherwise the peer
leaves. -/
theorem disconnect_cases (p : PeerId) (s : State T) :
    ((s.connections p).state = .disconnected ∧ disconnect p s = s) ∨
      ((s.connections p).state ≠ .disconnected ∧
        disconnect p s = unregisterPeer p (s.setConnection p
          { s.connections p with state := .disconnected, rxBuffer := [] })) := by
  by_cases h : (s.connections p).state = .disconnected
  · exact Or.inl ⟨h, by rw [disconnect, if_pos h]⟩
  · exact Or.inr ⟨h, by rw [disconnect, if_neg h]⟩

@[simp] theorem trace_disconnect (p : PeerId) (s : State T) : (disconnect p s).trace = s.trace := by
  rcases disconnect_cases p s with ⟨-, h⟩ | ⟨-, h⟩
  · rw [h]
  · rw [h, trace_unregisterPeer, trace_setConnection]

/-- **What a send does**: nothing on a closed connection; otherwise it is recorded, and
goes through or closes the connection. -/
theorem sendMessage_cases (env : Env) (p : PeerId) (m : PeerMessage) (s : State T) :
    ((s.connections p).state = .disconnected ∧ sendMessage env p m s = s) ∨
      ((s.connections p).state ≠ .disconnected ∧
        (sendMessage env p m s =
            (s.setConnection p ((s.connections p).sending m)).log (.sent p m) ∨
          (env.sendFails (.sent p m :: s.trace) p m = true ∧
            sendMessage env p m s = disconnect p
              ((s.setConnection p ((s.connections p).sending m)).log (.sent p m))))) := by
  by_cases h : (s.connections p).state = .disconnected
  · exact Or.inl ⟨h, by rw [sendMessage, if_pos h]⟩
  · refine Or.inr ⟨h, ?_⟩
    rw [sendMessage, if_neg h]
    dsimp only
    split
    case isTrue hf => exact Or.inr ⟨hf.2, rfl⟩
    case isFalse => exact Or.inl rfl

/-- A send takes away no entry but its own peer's, and changes none. -/
theorem lookup_of_sendMessage {env : Env} {m : PeerMessage}
    (h : (sendMessage env p m s).peers.lookup q = some state) :
    s.peers.lookup q = some state := by
  rcases sendMessage_cases env p m s with ⟨-, he⟩ | ⟨-, he | ⟨-, he⟩⟩
  · rwa [he] at h
  · rwa [he] at h
  · rw [he] at h
    rcases disconnect_cases p ((s.setConnection p ((s.connections p).sending m)).log (.sent p m))
      with ⟨-, hd⟩ | ⟨-, hd⟩
    · rwa [hd] at h
    · rw [hd, lookup_unregisterPeer] at h
      split at h
      case isTrue => cases h
      case isFalse => exact h

end Coordinator

end TransferEngine
