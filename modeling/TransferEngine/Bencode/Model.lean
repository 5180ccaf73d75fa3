import TransferEngine.Lib.Decimal

/-!
# Bencode

`BencodeValue` and `BencodeParser` of `bencode.hpp`. A parser takes the bytes that remain and
answers with what it read and the bytes that remain then, or with the exception it throws.

The source recurses into lists and dictionaries without a bound. Here the depth is bounded by
the number of remaining bytes, and so is the number of rounds of the two loops: each level and
each round takes at least one byte, so that the bound is reached only where no byte is left. At
that point `parse_value` throws and the loops end, and so do they here.

A dictionary, `std::map` in the source, is the list of its entries in the order of their keys.
-/

namespace TransferEngine

open Decimal

/-- `int64_t` has no more than this. -/
def int64Max : ℕ := 2 ^ 63 - 1

/-- `size_t` has no more than this. -/
def sizeMax : ℕ := 2 ^ 64 - 1

/-- `std::string_view`, ordered as by `memcmp`: byte by byte, a byte being unsigned. -/
abbrev BencodeString := List UInt8

/-- **A value.** -/
inductive BencodeValue
  | int (n : ℤ)
  | string (s : BencodeString)
  | list (l : List BencodeValue)
  | dict (d : List (BencodeString × BencodeValue))

/-- The exceptions of `BencodeParser`. -/
inductive BencodeError
  | extraData
  | unexpectedEnd
  | invalidFirstCharacter
  | expectedI
  | unexpectedEndOfInteger
  | expectedDigits
  | leadingZeros
  | minusZero
  | integerOverflow
  | expectedEndOfInteger
  | expectedLength
  | leadingZerosInLength
  | lengthOverflow
  | expectedColon
  | unexpectedEndOfString
  | expectedL
  | expectedEndOfList
  | expectedD
  | duplicateKey
  | keysNotSorted
  | expectedEndOfDict
  deriving DecidableEq, Repr

/-- The text of an exception. -/
def BencodeError.what : BencodeError → String
  | .extraData => "BencodeParser: extra data at the end of input"
  | .unexpectedEnd => "BencodeParser: unexpected end of input"
  | .invalidFirstCharacter => "BencodeParser: invalid first character for Bencode type"
  | .expectedI => "BencodeParser: expected 'i' for integer"
  | .unexpectedEndOfInteger => "BencodeParser: unexpected end of integer"
  | .expectedDigits => "BencodeParser: expected digits in integer"
  | .leadingZeros => "BencodeParser: leading zeros are not allowed in integer"
  | .minusZero => "BencodeParser: -0 is not allowed"
  | .integerOverflow => "BencodeParser: integer overflow"
  | .expectedEndOfInteger => "BencodeParser: expected 'e' at end of integer"
  | .expectedLength => "BencodeParser: expected digit for string length"
  | .leadingZerosInLength => "BencodeParser: leading zeros not allowed in string length"
  | .lengthOverflow => "BencodeParser: string length overflow"
  | .expectedColon => "BencodeParser: expected ':' after string length"
  | .unexpectedEndOfString => "BencodeParser: unexpected end of string data"
  | .expectedL => "BencodeParser: expected 'l' for list"
  | .expectedEndOfList => "BencodeParser: expected 'e' at end of list"
  | .expectedD => "BencodeParser: expected 'd' for dictionary"
  | .duplicateKey => "BencodeParser: duplicate key in dictionary"
  | .keysNotSorted => "BencodeParser: dictionary keys not sorted lexicographically"
  | .expectedEndOfDict => "BencodeParser: expected 'e' at end of dictionary"

/-- `std::map::emplace`: a key that is there already keeps its value. -/
def emplace {α : Type} (k : BencodeString) (v : α) :
    List (BencodeString × α) → List (BencodeString × α)
  | [] => [(k, v)]
  | (k', v') :: d =>
    if k < k' then (k, v) :: (k', v') :: d
    else if k = k' then (k', v') :: d
    else (k', v') :: emplace k v d

namespace BencodeParser

/-- Consume a byte that has to come next. -/
def expect (c : UInt8) (e : BencodeError) : List UInt8 → Except BencodeError (Unit × List UInt8)
  | [] => .error e
  | b :: remaining => if b = c then .ok ((), remaining) else .error e

/-- The digits of a number have to start with a digit, and with a zero only if `stop` comes
right after it. -/
def checkDigits (stop : UInt8) (noDigit leadingZero : BencodeError) :
    List UInt8 → Except BencodeError Unit
  | [] => .error noDigit
  | b :: remaining =>
    if isDigit b = false then .error noDigit
    else if b = 48 ∧ remaining.head? ≠ some stop then .error leadingZero
    else .ok ()

/-- The loop over the digits of a number that has to be at most `max`. -/
def readDigits (max : ℕ) (overflow : BencodeError) (value : ℕ) :
    List UInt8 → Except BencodeError (ℕ × List UInt8)
  | [] => .ok (value, [])
  | b :: remaining =>
    if isDigit b then
      if (max - digit b) / 10 < value then .error overflow
      else readDigits max overflow (value * 10 + digit b) remaining
    else .ok (value, b :: remaining)

/-- The part of `parse_int` that comes after the sign. -/
def parseMagnitude (negative : Bool) (remaining : List UInt8) :
    Except BencodeError (ℤ × List UInt8) := do
  checkDigits 0x65 .expectedDigits .leadingZeros remaining
  if negative ∧ remaining.head? = some 48 then .error .minusZero
  else
    let (value, remaining) ← readDigits int64Max .integerOverflow 0 remaining
    let (_, remaining) ← expect 0x65 .expectedEndOfInteger remaining
    return (if negative then -(value : ℤ) else value, remaining)

/-- `parse_int`. -/
def parseInt (remaining : List UInt8) : Except BencodeError (ℤ × List UInt8) := do
  let (_, remaining) ← expect 0x69 .expectedI remaining
  if remaining = [] then .error .unexpectedEndOfInteger
  else if remaining.head? = some 0x2d then parseMagnitude true remaining.tail
  else parseMagnitude false remaining

/-- `parse_string`. -/
def parseString (remaining : List UInt8) : Except BencodeError (BencodeString × List UInt8) := do
  checkDigits 0x3a .expectedLength .leadingZerosInLength remaining
  let (length, remaining) ← readDigits sizeMax .lengthOverflow 0 remaining
  let (_, remaining) ← expect 0x3a .expectedColon remaining
  if remaining.length < length then .error .unexpectedEndOfString
  else return (remaining.take length, remaining.drop length)

/-- Whether a loop over items goes on: there is a byte, and it is not the closing one. -/
def hasItem (remaining : List UInt8) : Bool := remaining ≠ [] ∧ remaining.head? ≠ some 0x65

section Loops

variable (parseValue : List UInt8 → Except BencodeError (BencodeValue × List UInt8))

/-- The loop of `parse_list`. -/
def parseItems : ℕ → List UInt8 → Except BencodeError (List BencodeValue × List UInt8)
  | 0, remaining => .ok ([], remaining)
  | rounds + 1, remaining =>
    if hasItem remaining then do
      let (v, remaining) ← parseValue remaining
      let (l, remaining) ← parseItems rounds remaining
      return (v :: l, remaining)
    else .ok ([], remaining)

/-- `parse_list`. -/
def parseList (remaining : List UInt8) : Except BencodeError (List BencodeValue × List UInt8) := do
  let (_, remaining) ← expect 0x6c .expectedL remaining
  let (l, remaining) ← parseItems parseValue remaining.length remaining
  let (_, remaining) ← expect 0x65 .expectedEndOfList remaining
  return (l, remaining)

/-- The keys of a dictionary have to ascend. -/
def checkKey {ε : Type} (duplicate notSorted : ε) (lastKey : Option BencodeString)
    (key : BencodeString) : Except ε Unit :=
  match lastKey with
  | none => .ok ()
  | some lastKey =>
    if key ≤ lastKey then .error (if key = lastKey then duplicate else notSorted) else .ok ()

/-- The loop of `parse_dict`: the entries in the order in which they come. -/
def parseEntries : ℕ → Option BencodeString → List UInt8 →
    Except BencodeError (List (BencodeString × BencodeValue) × List UInt8)
  | 0, _, remaining => .ok ([], remaining)
  | rounds + 1, lastKey, remaining =>
    if hasItem remaining then do
      let (key, remaining) ← parseString remaining
      checkKey .duplicateKey .keysNotSorted lastKey key
      let (v, remaining) ← parseValue remaining
      let (d, remaining) ← parseEntries rounds (some key) remaining
      return ((key, v) :: d, remaining)
    else .ok ([], remaining)

/-- `parse_dict`. -/
def parseDict (remaining : List UInt8) :
    Except BencodeError (List (BencodeString × BencodeValue) × List UInt8) := do
  let (_, remaining) ← expect 0x64 .expectedD remaining
  let (entries, remaining) ← parseEntries parseValue remaining.length none remaining
  let (_, remaining) ← expect 0x65 .expectedEndOfDict remaining
  return (entries.foldl (fun d e => emplace e.1 e.2 d) [], remaining)

end Loops

/-- `parse_value`, to a depth. -/
def parseValueTo : ℕ → List UInt8 → Except BencodeError (BencodeValue × List UInt8)
  | 0, _ => .error .unexpectedEnd
  | depth + 1, remaining =>
    match remaining with
    | [] => .error .unexpectedEnd
    | firstChar :: _ =>
      if firstChar = 0x69 then do
        let (n, remaining) ← parseInt remaining
        return (.int n, remaining)
      else if firstChar = 0x6c then do
        let (l, remaining) ← parseList (parseValueTo depth) remaining
        return (.list l, remaining)
      else if firstChar = 0x64 then do
        let (d, remaining) ← parseDict (parseValueTo depth) remaining
        return (.dict d, remaining)
      else if isDigit firstChar then do
        let (s, remaining) ← parseString remaining
        return (.string s, remaining)
      else .error .invalidFirstCharacter

/-- `parse_value`. -/
def parseValue (remaining : List UInt8) : Except BencodeError (BencodeValue × List UInt8) :=
  parseValueTo remaining.length remaining

/-- **Parse a value** that is all there is. -/
def parse (input : List UInt8) : Except BencodeError BencodeValue := do
  let (v, remaining) ← parseValue input
  if remaining ≠ [] then .error .extraData else return v

/-! ### Encoding -/

/-- `std::to_string` of an integer. -/
def toString (n : ℤ) : List UInt8 :=
  if n < 0 then 0x2d :: Decimal.ofNat n.natAbs else Decimal.ofNat n.natAbs

/-- What `encode_value` writes for an integer. -/
def encodeInt (n : ℤ) : List UInt8 := 0x69 :: toString n ++ [0x65]

/-- What `encode_value` writes for a string. -/
def encodeString (s : BencodeString) : List UInt8 := Decimal.ofNat s.length ++ 0x3a :: s

mutual

/-- What `encode_value` appends to the output. -/
def encodeValue : BencodeValue → List UInt8
  | .int n => encodeInt n
  | .string s => encodeString s
  | .list l => 0x6c :: encodeItems l ++ [0x65]
  | .dict d => 0x64 :: encodeEntries d ++ [0x65]

/-- The loop over the items of a list. -/
def encodeItems : List BencodeValue → List UInt8
  | [] => []
  | v :: l => encodeValue v ++ encodeItems l

/-- The loop over the entries of a dictionary. -/
def encodeEntries : List (BencodeString × BencodeValue) → List UInt8
  | [] => []
  | e :: d => encodeEntry e ++ encodeEntries d

/-- One entry: the key, encoded as a string, and the value. -/
def encodeEntry : BencodeString × BencodeValue → List UInt8
  | (k, v) => encodeString k ++ encodeValue v

end

/-- **Encode a value.** -/
def encode (value : BencodeValue) : List UInt8 := encodeValue value

end BencodeParser

end TransferEngine
