import TransferEngine.Bencode.Model
import TransferEngine.Torrent

/-!
# Torrent files

`TorrentMetadata::from_bencode` of `torrent.cpp`. The root dictionary is not read by
`BencodeParser::parse_dict` but by a loop of its own, `TransferEngine.TorrentFile.scanRoot`, which
keeps the bytes of the value of `info`; its fields are then read off the parsed value of `info`
(`TransferEngine.TorrentFile.readInfo`).

Arithmetic on `int64_t` wraps, as it does where the program runs, and a division that has no
result kills the process, which is then neither a return nor an exception: the language leaves
both undefined. SHA-1 is a parameter.
-/

namespace TransferEngine

/-- The bytes of a text literal. -/
def ascii (text : String) : List UInt8 := text.toList.map fun c => UInt8.ofNat c.toNat

/-- `int64_t`, to which arithmetic is reduced. -/
def i64 (x : ℤ) : ℤ := x.bmod (2 ^ 64)

/-- A narrowing `static_cast<int32_t>`. -/
def i32 (x : ℤ) : ℤ := x.bmod (2 ^ 32)

/-- Division of two `int64_t`, rounding towards zero. There is no result when the divisor is zero,
nor when the quotient is `2 ^ 63`. -/
def div64 (a b : ℤ) : Option ℤ :=
  if b = 0 ∨ (a = -2 ^ 63 ∧ b = -1) then none else some (a.tdiv b)

/-- **All of `TorrentMetadata`.** -/
structure TorrentFile extends TorrentMetadata where
  /-- The name of the torrent. -/
  name : List UInt8
  /-- The URL of the tracker. -/
  announceUrl : List UInt8
  /-- The URLs of all trackers. -/
  announceList : List (List UInt8)
  /-- The digest of the value of `info`. -/
  infoHash : Digest
  deriving DecidableEq

/-- What `from_bencode` throws. -/
inductive TorrentError
  | bencode (e : BencodeError)
  | rootNotDict
  | duplicateKey
  | keysNotSorted
  | announceNotString
  | invalidInfo
  | expectedEnd
  | extraData
  | missingAnnounce
  | missingInfo
  | missingPieceLength
  | missingName
  | missingPieces
  | piecesNotMultiple
  | filesNotList
  | fileNotDict
  | missingFileLength
  | missingFilePath
  | segmentNotString
  | missingLength
  | pieceCountMismatch
  deriving DecidableEq, Repr

/-- The text of an exception. -/
def TorrentError.what : TorrentError → String
  | .bencode e => e.what
  | .rootNotDict => "TorrentMetadata: root of torrent file must be a dictionary"
  | .duplicateKey => "TorrentMetadata: duplicate key in root dictionary"
  | .keysNotSorted => "TorrentMetadata: root dictionary keys not sorted lexicographically"
  | .announceNotString => "TorrentMetadata: 'announce' must be a string"
  | .invalidInfo => "TorrentMetadata: invalid parsing of 'info' dictionary"
  | .expectedEnd => "TorrentMetadata: expected 'e' at end of root dictionary"
  | .extraData => "TorrentMetadata: extra data at end of input"
  | .missingAnnounce => "TorrentMetadata: missing 'announce' URL"
  | .missingInfo => "TorrentMetadata: missing or invalid 'info' dictionary"
  | .missingPieceLength => "TorrentMetadata: missing or invalid 'piece length'"
  | .missingName => "TorrentMetadata: missing or invalid 'name'"
  | .missingPieces => "TorrentMetadata: missing or invalid 'pieces'"
  | .piecesNotMultiple => "TorrentMetadata: 'pieces' string size must be a multiple of 20"
  | .filesNotList => "TorrentMetadata: 'files' must be a list in multi-file torrent"
  | .fileNotDict => "TorrentMetadata: each element in 'files' must be a dictionary"
  | .missingFileLength => "TorrentMetadata: missing or invalid file length in multi-file list"
  | .missingFilePath => "TorrentMetadata: missing or invalid file path in multi-file list"
  | .segmentNotString => "TorrentMetadata: path segment must be a string"
  | .missingLength => "TorrentMetadata: missing or invalid 'length' in single-file torrent"
  | .pieceCountMismatch => "TorrentMetadata: mismatch between piece count and total length"

namespace TorrentFile

/-! ### The root dictionary -/

/-- What the loop over the root dictionary has found: the local variables of the source, with
their initial values. -/
structure Root where
  /-- `announce_url`. -/
  announceUrl : List UInt8 := []
  /-- `announce_list`. -/
  announceList : List (List UInt8) := []
  /-- `info_val`. -/
  infoVal : BencodeValue := .int 0
  /-- `info_span`. -/
  infoSpan : List UInt8 := []

/-- An exception of the parser goes through. -/
def lift {α : Type} : Except BencodeError α → Except TorrentError α :=
  Except.mapError .bencode

/-- A string that is not empty goes to the list. -/
def pushTracker (announceList : List (List UInt8)) : BencodeValue → List (List UInt8)
  | .string s => if s = [] then announceList else announceList ++ [s]
  | _ => announceList

/-- The loop over one tier. -/
def pushTier (announceList : List (List UInt8)) : BencodeValue → List (List UInt8)
  | .list trackers => trackers.foldl pushTracker announceList
  | _ => announceList

/-- The loop over the tiers. -/
def pushTiers (announceList : List (List UInt8)) : BencodeValue → List (List UInt8)
  | .list tiers => tiers.foldl pushTier announceList
  | _ => announceList

/-- **One round of the loop**, after the key: the value is read, and kept if the key is one of
three. -/
def scanValue (key : BencodeString) (s : Root) (remaining : List UInt8) :
    Except TorrentError (Root × List UInt8) := do
  let (val, rest) ← lift (BencodeParser.parseValue remaining)
  if key = ascii "announce" then
    match val with
    | .string url => return ({ s with announceUrl := url }, rest)
    | _ => .error .announceNotString
  else if key = ascii "announce-list" then
    return ({ s with announceList := pushTiers s.announceList val }, rest)
  else if key = ascii "info" then
    if remaining.length < rest.length then .error .invalidInfo
    else
      return ({ s with
        infoVal := val
        infoSpan := remaining.take (remaining.length - rest.length) }, rest)
  else return (s, rest)

/-- The loop over the entries. -/
def scanEntries : ℕ → Option BencodeString → Root → List UInt8 →
    Except TorrentError (Root × List UInt8)
  | 0, _, s, remaining => .ok (s, remaining)
  | rounds + 1, lastKey, s, remaining =>
    if BencodeParser.hasItem remaining then do
      let (key, remaining) ← lift (BencodeParser.parseString remaining)
      BencodeParser.checkKey .duplicateKey .keysNotSorted lastKey key
      let (s, remaining) ← scanValue key s remaining
      scanEntries rounds (some key) s remaining
    else .ok (s, remaining)

/-- **The root dictionary**, from its first byte to its last. -/
def scanRoot (data : List UInt8) : Except TorrentError Root := do
  if data.head? ≠ some 0x64 then .error .rootNotDict
  else
    let (s, remaining) ← scanEntries data.tail.length none {} data.tail
    if remaining.head? ≠ some 0x65 then .error .expectedEnd
    else if remaining.tail ≠ [] then .error .extraData
    else if s.announceUrl = [] then .error .missingAnnounce
    else return s

/-! ### The fields of `info` -/

/-- The value of a required key. -/
def require {α : Type} (get : BencodeValue → Option α) (e : TorrentError) (key : String)
    (d : List (BencodeString × BencodeValue)) : Except TorrentError α :=
  match (d.lookup (ascii key)).bind get with
  | none => .error e
  | some a => .ok a

/-- `as_int`, where `is_int`. -/
def asInt : BencodeValue → Option ℤ
  | .int n => some n
  | _ => none

/-- `as_string`, where `is_string`. -/
def asString : BencodeValue → Option BencodeString
  | .string s => some s
  | _ => none

/-- `as_list`, where `is_list`. -/
def asList : BencodeValue → Option (List BencodeValue)
  | .list l => some l
  | _ => none

/-- `as_dict`, where `is_dict`. -/
def asDict : BencodeValue → Option (List (BencodeString × BencodeValue))
  | .dict d => some d
  | _ => none

/-- The loop over the segments of a path, which are joined by slashes. -/
def joinPath : ℕ → List UInt8 → List BencodeValue → Except TorrentError (List UInt8)
  | _, path, [] => .ok path
  | i, path, v :: segments =>
    match asString v with
    | none => .error .segmentNotString
    | some s => joinPath (i + 1) ((if 0 < i then path ++ [0x2f] else path) ++ s) segments

/-- One round of the loop over `files`: the file, at the current offset. -/
def readFile (currentOffset : ℤ) (v : BencodeValue) : Except TorrentError FileInfo :=
  match asDict v with
  | none => .error .fileNotDict
  | some d => do
    let length ← require asInt .missingFileLength "length" d
    let pathList ← require asList .missingFilePath "path" d
    let path ← joinPath 0 [] pathList
    return { path, length, offset := currentOffset }

/-- The loop over `files`, and the offset at its end. -/
def readFiles : ℤ → List BencodeValue → Except TorrentError (List FileInfo × ℤ)
  | currentOffset, [] => .ok ([], currentOffset)
  | currentOffset, v :: l => do
    let file ← readFile currentOffset v
    let (files, total) ← readFiles (i64 (currentOffset + file.length)) l
    return (file :: files, total)

/-- The file layout and the total length: of many files, or of one. -/
def readLayout (name : List UInt8) (d : List (BencodeString × BencodeValue)) :
    Except TorrentError (List FileInfo × ℤ) :=
  match d.lookup (ascii "files") with
  | some v =>
    match asList v with
    | none => .error .filesNotList
    | some l => readFiles 0 l
  | none => do
    let length ← require asInt .missingLength "length" d
    return ([{ path := name, length, offset := 0 }], length)

/-- The loop that cuts `pieces` into digests. -/
def cutHashes : ℕ → List UInt8 → List Digest
  | 0, _ => []
  | n + 1, pieces => .ofBytes (pieces.take 20) :: cutHashes n (pieces.drop 20)

variable (sha1 : List UInt8 → Digest)

/-- **The metadata**, from what the root dictionary had. There is none when the division that
counts the pieces kills the process. -/
def readInfo (s : Root) : Except TorrentError (Option TorrentFile) :=
  match asDict s.infoVal with
  | none => .error .missingInfo
  | some d => do
    let pieceLength ← require asInt .missingPieceLength "piece length" d
    let name ← require asString .missingName "name" d
    let pieces ← require asString .missingPieces "pieces" d
    if pieces.length % 20 ≠ 0 then .error .piecesNotMultiple
    else
      let numPieces := pieces.length / 20
      let (files, totalLength) ← readLayout name d
      match div64 (i64 (i64 (totalLength + pieceLength) - 1)) pieceLength with
      | none => return none
      | some calculatedPieces =>
        if calculatedPieces ≠ i64 numPieces then .error .pieceCountMismatch
        else
          return some {
            name
            announceUrl := s.announceUrl
            announceList := if s.announceList = [] ∧ s.announceUrl ≠ [] then [s.announceUrl]
              else s.announceList
            pieceLength
            totalLength
            numPieces := i32 numPieces
            pieceHashes := cutHashes numPieces pieces
            files
            infoHash := if s.infoSpan = [] then .ofBytes [] else sha1 s.infoSpan }

/-- **`TorrentMetadata::from_bencode`.** -/
def fromBencode (data : List UInt8) : Except TorrentError (Option TorrentFile) := do
  let s ← scanRoot data
  readInfo sha1 s

end TorrentFile

end TransferEngine
