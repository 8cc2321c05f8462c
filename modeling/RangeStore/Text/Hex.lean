set_option autoImplicit false

/-! # Hexadecimal text

Numbers in lower-case hexadecimal at a fixed width, as messages show bytes and checksums, and
byte strings as two digits for each byte. Reading takes digits of either case. The main statement
is `readHex?_hexText`: a byte string is read back from its text. -/

namespace RangeStore.Text

/-- The number in lower-case hexadecimal, filled with zeros on the left up to `width` digits. -/
def hex (width n : Nat) : String :=
  let digits := Nat.toDigits 16 n
  String.ofList (List.replicate (width - digits.length) '0' ++ digits)

def hexByte (b : UInt8) : String := hex 2 b.toNat

/-- A 32-bit word as `0x` and eight digits. -/
def hexWord (w : UInt32) : String := "0x" ++ hex 8 w.toNat

/-! ## Byte strings -/

/-- The two digits of a byte. -/
def hexPair (b : UInt8) : List Char :=
  [Nat.digitChar (b.toNat / 16), Nat.digitChar (b.toNat % 16)]

/-- A byte string, two digits for each byte. -/
def hexText (bytes : List UInt8) : String := String.ofList (bytes.flatMap hexPair)

/-- The value of a digit. -/
def digitValue? (c : Char) : Option Nat :=
  if '0' ≤ c ∧ c ≤ '9' then some (c.toNat - '0'.toNat)
  else if 'a' ≤ c ∧ c ≤ 'f' then some (c.toNat - 'a'.toNat + 10)
  else if 'A' ≤ c ∧ c ≤ 'F' then some (c.toNat - 'A'.toNat + 10)
  else none

/-- Reads bytes behind those in `done`, which has the last one first. -/
def readHexFrom (done : List UInt8) : List Char → Option (List UInt8)
  | [] => some done.reverse
  | [_] => none
  | a :: b :: rest =>
    match digitValue? a, digitValue? b with
    | some high, some low => readHexFrom (UInt8.ofNat (high * 16 + low) :: done) rest
    | _, _ => none

/-- The byte string that the digits write, if there are only digits, and evenly many. -/
def readHex? (s : String) : Option (List UInt8) := readHexFrom [] s.toList

theorem digitValue?_digitChar {n : Nat} (h : n < 16) : digitValue? (Nat.digitChar n) = some n := by
  revert n
  decide

theorem readHexFrom_flatMap (bytes done : List UInt8) :
    readHexFrom done (bytes.flatMap hexPair) = some (done.reverse ++ bytes) := by
  induction bytes generalizing done with
  | nil => simp [readHexFrom]
  | cons b bytes ih =>
    have hb := b.toNat_lt
    have hbyte : UInt8.ofNat (b.toNat / 16 * 16 + b.toNat % 16) = b := by
      rw [Nat.div_add_mod']
      exact UInt8.ofNat_toNat
    simp [hexPair, readHexFrom, digitValue?_digitChar (show b.toNat / 16 < 16 by omega),
      digitValue?_digitChar (show b.toNat % 16 < 16 by omega), hbyte, ih]

/-- A byte string is read back from its digits. -/
theorem readHex?_hexText (bytes : List UInt8) : readHex? (hexText bytes) = some bytes := by
  simp [readHex?, hexText, readHexFrom_flatMap]

end RangeStore.Text
