import TransferEngine.Lib.Bytes

/-!
# The peer wire protocol

The messages of `peer_message.hpp`, and how they are written and read. A frame is a 4-byte
big-endian length followed by that many bytes, the first of which is the message id.
The length is a `uint32_t` and so is every number computed from it: `4 + length` is a
sum modulo `2 ^ 32`, here as there.

Every access to the buffer is a checked read (`Bytes.byteAt`, `Bytes.readSpan`): where
the source would read past the end of the buffer, the decoder below ends in a fault. So does the
encoder where it would write past the end of the buffer it has made (`Bytes.write`).
-/

namespace TransferEngine

open Bytes

/-- A message, the `std::variant` payload of `PeerMessage`. -/
inductive PeerMessage
  | keepAliveMsg
  | chokeMsg
  | unchokeMsg
  | interestedMsg
  | notInterestedMsg
  | haveMsg (pieceIndex : UInt32)
  | bitfieldMsg (bitfield : List UInt8)
  | requestMsg (pieceIndex begin length : UInt32)
  | pieceMsg (pieceIndex begin : UInt32) (block : List UInt8)
  | cancelMsg (pieceIndex begin length : UInt32)
  | portMsg (port : UInt16)
  deriving DecidableEq, Repr

/-- The id byte of a message. -/
inductive MessageId
  | choke
  | unchoke
  | interested
  | notInterested
  | have_
  | bitfield
  | request
  | piece
  | cancel
  | port
  deriving DecidableEq, Repr

/-- The id a byte stands for; an unknown byte falls to the `default` branch. -/
def MessageId.ofByte (idByte : UInt8) : Option MessageId :=
  match idByte.toNat with
  | 0 => some .choke
  | 1 => some .unchoke
  | 2 => some .interested
  | 3 => some .notInterested
  | 4 => some .have_
  | 5 => some .bitfield
  | 6 => some .request
  | 7 => some .piece
  | 8 => some .cancel
  | 9 => some .port
  | _ => none

/-- The byte of an id. -/
def MessageId.toByte : MessageId → UInt8
  | .choke => 0
  | .unchoke => 1
  | .interested => 2
  | .notInterested => 3
  | .have_ => 4
  | .bitfield => 5
  | .request => 6
  | .piece => 7
  | .cancel => 8
  | .port => 9

namespace PeerMessage

/-! ### Writing -/

/-- What is written for a message that is nothing but its id. -/
def serializeBare (id : MessageId) : Except OutOfBounds (List UInt8) := do
  let out ← write (List.replicate 5 0) 0 (uint32Bytes 1)
  write out 4 [id.toByte]

/-- What is written for a Request or a Cancel. -/
def serializeRange (id : MessageId) (pieceIndex begin length : UInt32) :
    Except OutOfBounds (List UInt8) := do
  let out ← write (List.replicate 17 0) 0 (uint32Bytes 13)
  let out ← write out 4 [id.toByte]
  let out ← write out 5 (uint32Bytes pieceIndex)
  let out ← write out 9 (uint32Bytes begin)
  write out 13 (uint32Bytes length)

/-- `PeerMessage::serialize`. The size of a buffer is computed with 32 bits. -/
def serialize : PeerMessage → Except OutOfBounds (List UInt8)
  | .keepAliveMsg => .ok (List.replicate 4 0)
  | .chokeMsg => serializeBare .choke
  | .unchokeMsg => serializeBare .unchoke
  | .interestedMsg => serializeBare .interested
  | .notInterestedMsg => serializeBare .notInterested
  | .haveMsg pieceIndex => do
    let out ← write (List.replicate 9 0) 0 (uint32Bytes 5)
    let out ← write out 4 [MessageId.have_.toByte]
    write out 5 (uint32Bytes pieceIndex)
  | .bitfieldMsg bitfield => do
    let len : UInt32 := 1 + .ofNat bitfield.length
    let out ← write (List.replicate (4 + len).toNat 0) 0 (uint32Bytes len)
    let out ← write out 4 [MessageId.bitfield.toByte]
    write out 5 bitfield
  | .requestMsg pieceIndex begin length => serializeRange .request pieceIndex begin length
  | .pieceMsg pieceIndex begin block => do
    let len : UInt32 := 9 + .ofNat block.length
    let out ← write (List.replicate (4 + len).toNat 0) 0 (uint32Bytes len)
    let out ← write out 4 [MessageId.piece.toByte]
    let out ← write out 5 (uint32Bytes pieceIndex)
    let out ← write out 9 (uint32Bytes begin)
    write out 13 block
  | .cancelMsg pieceIndex begin length => serializeRange .cancel pieceIndex begin length
  | .portMsg port => do
    let out ← write (List.replicate 7 0) 0 (uint32Bytes 3)
    let out ← write out 4 [MessageId.port.toByte]
    write out 5 (uint16Bytes port)

/-! ### Reading -/

/-- A message that is nothing but its id: it has length one. -/
def bare (length : UInt32) (m : PeerMessage) : Except OutOfBounds (Option PeerMessage) :=
  if length ≠ 1 then .ok none else .ok (some m)

/-- The three numbers of a Request or of a Cancel. -/
def blockRange (data : List UInt8) (length : UInt32)
    (m : UInt32 → UInt32 → UInt32 → PeerMessage) : Except OutOfBounds (Option PeerMessage) :=
  if length ≠ 13 then .ok none
  else do
    let index ← readUint32 data 5
    let begin ← readUint32 data 9
    let len ← readUint32 data 13
    return some (m index begin len)

/-- The `switch` of `deserialize`: the payload of a frame with a given length and id. -/
def deserializePayload (data : List UInt8) (length : UInt32) (idByte : UInt8) :
    Except OutOfBounds (Option PeerMessage) :=
  match MessageId.ofByte idByte with
  | some .choke => bare length .chokeMsg
  | some .unchoke => bare length .unchokeMsg
  | some .interested => bare length .interestedMsg
  | some .notInterested => bare length .notInterestedMsg
  | some .have_ =>
    if length ≠ 5 then .ok none
    else do
      let idx ← readUint32 data 5
      return some (.haveMsg idx)
  | some .bitfield => do
    let field ← readSpan data 5 (length - 1).toNat
    return some (.bitfieldMsg field)
  | some .request => blockRange data length .requestMsg
  | some .piece =>
    if length < 9 then .ok none
    else do
      let index ← readUint32 data 5
      let begin ← readUint32 data 9
      let block ← readSpan data 13 (length - 9).toNat
      return some (.pieceMsg index begin block)
  | some .cancel => blockRange data length .cancelMsg
  | some .port =>
    if length ≠ 3 then .ok none
    else do
      let port ← readUint16 data 5
      return some (.portMsg port)
  | none => .ok none

/-- `PeerMessage::deserialize`: the message at the front of a buffer, if a whole one is
there and it can be read, and the number of bytes consumed. -/
def deserialize (data : List UInt8) : Except OutOfBounds (Option PeerMessage × ℕ) :=
  if data.length < 4 then .ok (none, 0)
  else do
    let length ← readUint32 data 0
    if length = 0 then return (some .keepAliveMsg, 4)
    else if data.length < (4 + length).toNat then return (none, 0)
    else
      let idByte ← byteAt data 4
      let msg ← deserializePayload data length idByte
      return (msg, (4 + length).toNat)

end PeerMessage

/-- A handshake. -/
structure HandshakeMsg where
  /-- The eight reserved bytes. -/
  reserved : Vector UInt8 8
  /-- The digest of the torrent's info dictionary. -/
  infoHash : Vector UInt8 20
  /-- The peer's id. -/
  peerId : Vector UInt8 20
  deriving DecidableEq

namespace HandshakeMsg

/-- The protocol string, `BitTorrent protocol`. -/
def protocol : List UInt8 :=
  [0x42, 0x69, 0x74, 0x54, 0x6f, 0x72, 0x72, 0x65, 0x6e, 0x74, 0x20,
    0x70, 0x72, 0x6f, 0x74, 0x6f, 0x63, 0x6f, 0x6c]

/-- The `n` bytes from an index on, zero past the end. -/
def field (data : List UInt8) (off n : ℕ) : Vector UInt8 n :=
  Vector.ofFn fun k : Fin n => data.getD (off + k) 0

/-- `HandshakeMsg::serialize`. -/
def serialize (h : HandshakeMsg) : List UInt8 :=
  19 :: (protocol ++ (h.reserved.toList ++ (h.infoHash.toList ++ h.peerId.toList)))

/-- `HandshakeMsg::deserialize`: 68 bytes that open with the length and the text of the
protocol string. Nothing is asked of the info hash. -/
def deserialize (data : List UInt8) : Option HandshakeMsg :=
  if data.length < 68 then none
  else if data.getD 0 0 ≠ 19 then none
  else if (data.drop 1).take 19 ≠ protocol then none
  else some
    { reserved := field data 20 8
      infoHash := field data 28 20
      peerId := field data 48 20 }

end HandshakeMsg

end TransferEngine
