import RangeStore.Bytes
import RangeStore.Text.Hex
import RangeStore.Text.Quoted
import RangeStore.Text.Utf8
set_option autoImplicit false

/-! # Values

A column holds signed 64-bit numbers or byte strings. Values are ordered: numbers by size, byte
strings byte by byte, every byte string before every number. A tuple is a list of values; it is
ordered lexicographically, a proper beginning before its extensions. -/

namespace RangeStore

/-- What a column holds. -/
inductive ColumnType where
  | bytes
  | int64
deriving DecidableEq, Inhabited

namespace ColumnType

/-- The number under which a stored table definition names the type. -/
def tag : ColumnType → UInt8
  | bytes => 1
  | int64 => 2

/-- The type that a stored number names. -/
def ofTag? (n : Nat) : Option ColumnType :=
  if n = 1 then some bytes else if n = 2 then some int64 else none

@[simp] theorem ofTag?_tag (t : ColumnType) : ofTag? t.tag.toNat = some t := by
  cases t <;> rfl

def name : ColumnType → String
  | bytes => "bytes"
  | int64 => "int64"

end ColumnType

/-- One column's content in one row. -/
inductive Value where
  | bytes (content : Bytes)
  | int (number : Int64)
deriving DecidableEq, Inhabited

namespace Value

def type : Value → ColumnType
  | bytes _ => .bytes
  | int _ => .int64

/-- A text, stored as its bytes in UTF-8. -/
def ofText (s : String) : Value := bytes (Text.utf8 s)

def int? : Value → Option Int64
  | bytes _ => none
  | int n => some n

def bytes? : Value → Option Bytes
  | bytes b => some b
  | int _ => none

/-- The order of values: byte strings before numbers. -/
def order : Value → Value → Ordering
  | bytes a, bytes b => compare a b
  | bytes _, int _ => .lt
  | int _, bytes _ => .gt
  | int a, int b => compare a b

instance : Ord Value := ⟨order⟩

/-- The value as messages show it: a number in decimal, a byte string as quoted text if it is
well-formed UTF-8, and as a list of bytes otherwise. -/
def shown : Value → String
  | int n => toString n.toInt
  | bytes b =>
    match Text.text? b with
    | some s => Text.quote s
    | none => "[" ++ ", ".intercalate (b.map Text.hexByte) ++ "]"

/-- The value with the name of its kind, byte strings as lists of decimal numbers. -/
def described : Value → String
  | int n => "Int64(" ++ toString n.toInt ++ ")"
  | bytes b => "Bytes([" ++ ", ".intercalate (b.map fun x => toString x.toNat) ++ "])"

end Value

end RangeStore
