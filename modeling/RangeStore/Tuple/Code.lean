import RangeStore.Tuple.Comparison
import RangeStore.Tuple.Value
set_option autoImplicit false

/-! # Keys of tuples

Tuples are written as byte strings so that byte order is tuple order.

* A number takes eight bytes, most significant first, with the sign bit flipped, so that
  negative numbers come first.
* A byte string is escaped and closed by `00`. The bytes `00`, `01`, `FE` and `FF` take two
  bytes each, all others stand for themselves. The escapes keep the order of the bytes, none
  begins another, and the closing byte is below them all. `FF` never occurs.
* A key is the number of its key space, four bytes, most significant first, and then the tuple.

A bound on the first few columns is the key of these columns. Where it has to come behind all
keys that begin with it, each missing column is filled up with the greatest bytes.

`decode` reads tuples of given types back and says what is wrong with any other bytes. -/

namespace RangeStore

/-- Why bytes are not the key or the tuple that they should be. -/
inductive DecodeError where
  /-- The key is too short for the number of a key space. -/
  | missingKeySpace (length : Nat)
  /-- A number is cut off. -/
  | truncated (expected actual : Nat)
  /-- A byte string is not closed. -/
  | unterminated
  /-- Two bytes are no escape. -/
  | invalidEscape (first second : UInt8)
  /-- A byte that no byte string is written with. -/
  | invalidByte (byte : UInt8)
  /-- Bytes are left over behind the last value. -/
  | trailingBytes (count : Nat)
  /-- A column lies behind the values that were read. -/
  | absentValue (column : String)
deriving DecidableEq

namespace DecodeError

def message : DecodeError → String
  | missingKeySpace length => s!"key too short for prefix: {length} bytes"
  | truncated expected actual => s!"truncated value: expected {expected} bytes, got {actual}"
  | unterminated => "unterminated byte string"
  | invalidEscape a b =>
    "invalid escape sequence: 0x" ++ Text.hexByte a ++ " 0x" ++ Text.hexByte b
  | invalidByte b => "invalid byte in string: 0x" ++ Text.hexByte b
  | trailingBytes count => s!"{count} trailing bytes after last value"
  | absentValue column => "no value for column " ++ column

end DecodeError

namespace Tuple

/-! ## Writing -/

/-- How one byte of a byte string is written. -/
def escape (b : UInt8) : Bytes :=
  if b = 0x00 then [0x01, 0x01]
  else if b = 0x01 then [0x01, 0x02]
  else if b = 0xFE then [0xFE, 0x01]
  else if b = 0xFF then [0xFE, 0x02]
  else [b]

/-- The number with its sign bit flipped: the least number becomes 0. -/
def flipSign (n : Int64) : UInt64 := n.toUInt64 ^^^ 0x8000000000000000

/-- The number whose sign bit was flipped. -/
def unflipSign (w : UInt64) : Int64 := (w ^^^ 0x8000000000000000).toInt64

def encodeValue : Value → Bytes
  | .int n => Bytes.big 8 (flipSign n).toNat
  | .bytes b => b.flatMap escape ++ [0x00]

/-- The bytes of a tuple: those of its values one after the other. -/
def encode (values : List Value) : Bytes := values.flatMap encodeValue

def encodeKey (space : UInt32) (values : List Value) : Bytes :=
  Bytes.big 4 space.toNat ++ encode values

/-- The greatest bytes for columns without a value. One `FF` is greater than all byte strings,
so nothing need follow it. -/
def ceiling : List ColumnType → Bytes
  | [] => []
  | .int64 :: rest => List.replicate 8 0xFF ++ ceiling rest
  | .bytes :: _ => [0xFF]

/-- The key that bounds a range of tuples of the given types by values for the first columns. -/
def encodeBound (space : UInt32) (values : List Value) (types : List ColumnType)
    (c : Comparison) : Bytes :=
  let key := encodeKey space values
  if c.spansAll then key ++ ceiling (types.drop values.length) else key

@[simp] theorem encode_nil : encode [] = [] := rfl

@[simp] theorem encode_cons (v : Value) (vs : List Value) :
    encode (v :: vs) = encodeValue v ++ encode vs := rfl

theorem encode_append (us vs : List Value) : encode (us ++ vs) = encode us ++ encode vs := by
  simp [encode]

/-! ## Reading -/

/-- The number of the key space at the beginning of a key, and the rest. -/
def splitKey (key : Bytes) : Except DecodeError (UInt32 × Bytes) :=
  if key.length < 4 then .error (.missingKeySpace key.length)
  else .ok (UInt32.ofNat (Bytes.ofBig (key.take 4)), key.drop 4)

/-- The byte that two bytes escape. -/
def unescape? (first second : UInt8) : Option UInt8 :=
  if first = 0x01 then
    if second = 0x01 then some 0x00 else if second = 0x02 then some 0x01 else none
  else if first = 0xFE then
    if second = 0x01 then some 0xFE else if second = 0x02 then some 0xFF else none
  else none

/-- Reads a byte string up to its closing byte; gives the string and the bytes behind it. -/
def decodeBytes : Bytes → Except DecodeError (Bytes × Bytes)
  | [] => .error .unterminated
  | b :: rest =>
    if b = 0x00 then .ok ([], rest)
    else if b = 0x01 ∨ b = 0xFE then
      match rest with
      | [] => .error .unterminated
      | next :: more =>
        match unescape? b next with
        | none => .error (.invalidEscape b next)
        | some c =>
          match decodeBytes more with
          | .error e => .error e
          | .ok (content, left) => .ok (c :: content, left)
    else if b = 0xFF then .error (.invalidByte b)
    else
      match decodeBytes rest with
      | .error e => .error e
      | .ok (content, left) => .ok (b :: content, left)

/-- Reads a number; gives it and the bytes behind it. -/
def decodeInt (bytes : Bytes) : Except DecodeError (Int64 × Bytes) :=
  if (bytes.take 8).length < 8 then .error (.truncated 8 bytes.length)
  else .ok (unflipSign (UInt64.ofNat (Bytes.ofBig (bytes.take 8))), bytes.drop 8)

/-- Reads one value; gives it and the bytes behind it. -/
def decodeValue (type : ColumnType) (bytes : Bytes) : Except DecodeError (Value × Bytes) :=
  match type with
  | .int64 =>
    match decodeInt bytes with
    | .error e => .error e
    | .ok (n, rest) => .ok (.int n, rest)
  | .bytes =>
    match decodeBytes bytes with
    | .error e => .error e
    | .ok (content, rest) => .ok (.bytes content, rest)

/-- Reads a tuple; gives it and the bytes behind it. -/
def decodeValues : List ColumnType → Bytes → Except DecodeError (List Value × Bytes)
  | [], bytes => .ok ([], bytes)
  | type :: types, bytes =>
    match decodeValue type bytes with
    | .error e => .error e
    | .ok (value, rest) =>
      match decodeValues types rest with
      | .error e => .error e
      | .ok (values, left) => .ok (value :: values, left)

/-- Reads a tuple that takes all the bytes. -/
def decode (types : List ColumnType) (bytes : Bytes) : Except DecodeError (List Value) :=
  match decodeValues types bytes with
  | .error e => .error e
  | .ok (values, []) => .ok values
  | .ok (_, rest) => .error (.trailingBytes rest.length)

end Tuple

end RangeStore
