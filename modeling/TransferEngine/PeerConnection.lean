import TransferEngine.PeerMessage

/-!
# The receiving side of a peer connection

`PeerConnection` of `peer_connection.hpp`, as far as receiving goes: the connection
state, the four choking and interest flags, and the buffer of received bytes. The loop
of `process_rx_buffer` is given one pass at a time
(`TransferEngine.PeerConnection.rxPass`), with what the pass hands to the callbacks.
-/

namespace TransferEngine

open Bytes

/-- The states of a connection. -/
inductive ConnectionState
  | idle
  | connecting
  | handshaking
  | active
  | disconnected
  deriving DecidableEq, Repr

/-- A peer connection. -/
structure PeerConnection where
  /-- Where the connection stands. -/
  state : ConnectionState := .idle
  /-- We choke the peer. -/
  amChoking : Bool := true
  /-- We are interested in the peer. -/
  amInterested : Bool := false
  /-- The peer chokes us. -/
  peerChoking : Bool := true
  /-- The peer is interested in us. -/
  peerInterested : Bool := false
  /-- Bytes received and not consumed yet. -/
  rxBuffer : List UInt8 := []

namespace PeerConnection

/-- The flags a received message changes, before the callback sees it. -/
def received (c : PeerConnection) : PeerMessage → PeerConnection
  | .chokeMsg => { c with peerChoking := true }
  | .unchokeMsg => { c with peerChoking := false }
  | .interestedMsg => { c with peerInterested := true }
  | .notInterestedMsg => { c with peerInterested := false }
  | _ => c

/-- The flags a message we send changes. -/
def sending (c : PeerConnection) : PeerMessage → PeerConnection
  | .chokeMsg => { c with amChoking := true }
  | .unchokeMsg => { c with amChoking := false }
  | .interestedMsg => { c with amInterested := true }
  | .notInterestedMsg => { c with amInterested := false }
  | _ => c

/-- The connection was closed, or stays where it is with what it has received. -/
def Keeps (c c' : PeerConnection) : Prop :=
  (c'.state = .disconnected ∧ c'.rxBuffer = []) ∨ (c'.state = c.state ∧ c'.rxBuffer = c.rxBuffer)

theorem Keeps.refl (c : PeerConnection) : c.Keeps c := .inr ⟨rfl, rfl⟩

theorem Keeps.trans {c c' c'' : PeerConnection} (h : c.Keeps c') (h' : c'.Keeps c'') :
    c.Keeps c'' := by
  rcases h' with hd | ⟨hs', hb'⟩
  · exact .inl hd
  · rcases h with ⟨hs, hb⟩ | ⟨hs, hb⟩
    · exact .inl ⟨hs'.trans hs, hb'.trans hb⟩
    · exact .inr ⟨hs'.trans hs, hb'.trans hb⟩

theorem keeps_received (c : PeerConnection) (m : PeerMessage) : c.Keeps (c.received m) := by
  cases m <;> exact .refl _

theorem keeps_sending (c : PeerConnection) (m : PeerMessage) : c.Keeps (c.sending m) := by
  cases m <;> exact .refl _

/-- What one pass of the receive loop does. -/
inductive RxPass
  /-- The loop ends, for now. -/
  | stop (c : PeerConnection)
  /-- The handshake is refused and the connection closed. -/
  | refuse (c : PeerConnection)
  /-- The handshake goes to `on_handshake`, and the loop continues. -/
  | handshake (h : HandshakeMsg) (c : PeerConnection)
  /-- A frame is consumed, its message if any goes to `on_message`, and the loop
  continues. -/
  | frame (m : Option PeerMessage) (c : PeerConnection)

/-- The pass over a frame that the decoder has looked at. -/
def framePass (c : PeerConnection) (msg : Option PeerMessage) (consumed : ℕ) : RxPass :=
  if msg = none ∧ consumed = 0 then .stop c
  else
    let c := if 0 < consumed then { c with rxBuffer := c.rxBuffer.drop consumed } else c
    match msg with
    | none => .frame none c
    | some m => .frame (some m) (c.received m)

/-- **One pass of `process_rx_buffer`.** -/
def rxPass (c : PeerConnection) : Except OutOfBounds RxPass :=
  if c.rxBuffer = [] then .ok (.stop c)
  else
    match c.state with
    | .handshaking =>
      if c.rxBuffer.length < 68 then .ok (.stop c)
      else
        match HandshakeMsg.deserialize (c.rxBuffer.take 68) with
        | none => .ok (.refuse c)
        | some h => .ok (.handshake h { c with rxBuffer := c.rxBuffer.drop 68, state := .active })
    | .active => do
      let (msg, consumed) ← PeerMessage.deserialize c.rxBuffer
      return c.framePass msg consumed
    | _ => .ok (.stop { c with rxBuffer := [] })

/-- **What a pass can do** to the state of a connection. -/
inductive Passes (c : PeerConnection) : RxPass → Prop
  /-- The loop ends; a handshake that is not there in full is waited for. -/
  | stop (c' : PeerConnection) : c'.state = c.state →
      (c.state = .handshaking → c' = c ∧ c.rxBuffer.length < 68) → Passes c (.stop c')
  /-- The handshake is refused. -/
  | refuse : c.state = .handshaking → 68 ≤ c.rxBuffer.length →
      HandshakeMsg.deserialize (c.rxBuffer.take 68) = none → Passes c (.refuse c)
  /-- The handshake is accepted. -/
  | handshake (h : HandshakeMsg) : c.state = .handshaking → 68 ≤ c.rxBuffer.length →
      HandshakeMsg.deserialize (c.rxBuffer.take 68) = some h →
      Passes c (.handshake h { c with rxBuffer := c.rxBuffer.drop 68, state := .active })
  /-- A frame is consumed. -/
  | frame (m : Option PeerMessage) (c' : PeerConnection) : c.state = .active →
      c'.state = .active → Passes c (.frame m c')

theorem passes_framePass {c : PeerConnection} (hs : c.state = .active) (msg : Option PeerMessage)
    (consumed : ℕ) : Passes c (c.framePass msg consumed) := by
  have hne : c.state ≠ .handshaking := by
    rw [hs]
    exact nofun
  rw [framePass]
  split
  case isTrue => exact .stop c rfl fun hc => absurd hc hne
  case isFalse =>
    have hdrop : (if 0 < consumed then { c with rxBuffer := c.rxBuffer.drop consumed }
        else c).state = .active := by
      split <;> exact hs
    cases msg with
    | none => exact .frame none _ hs hdrop
    | some m =>
      refine .frame (some m) _ hs ?_
      cases m <;> exact hdrop

theorem passes_of_rxPass {c : PeerConnection} {r : RxPass} (h : c.rxPass = .ok r) :
    Passes c r := by
  rw [rxPass] at h
  split at h
  case isTrue hb =>
    cases h
    exact .stop c rfl fun _ => ⟨rfl, by rw [hb]; decide⟩
  case isFalse =>
    split at h
    case h_1 hs =>
      split at h
      case isTrue hlt =>
        cases h
        exact .stop c rfl fun _ => ⟨rfl, hlt⟩
      case isFalse hge =>
        split at h
        case h_1 hd =>
          cases h
          exact .refuse hs (by omega) hd
        case h_2 hm hd =>
          cases h
          exact .handshake hm hs (by omega) hd
    case h_2 hs =>
      obtain ⟨⟨msg, consumed⟩, -, hpass⟩ := bind_eq_ok h
      cases hpass
      exact passes_framePass hs msg consumed
    -- neither `Handshaking` nor `Active`: the buffer is dropped
    case h_3 hs _ =>
      cases h
      exact .stop _ rfl fun hc => absurd hc hs

end PeerConnection

end TransferEngine
