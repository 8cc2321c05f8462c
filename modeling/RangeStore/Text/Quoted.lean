import RangeStore.Text.Hex
import RangeStore.Text.Printable
set_option autoImplicit false

/-! # Quoted text

A text between double quotes in which every character can be told apart: the quote and the
backslash are escaped, the usual control characters have their letter, and whatever does not
show as itself is written by its code point in braces. -/

namespace RangeStore.Text

/-- How one character is written between the quotes. -/
def escapeChar (c : Char) : List Char :=
  if c = '\x00' then ['\\', '0']
  else if c = '\t' then ['\\', 't']
  else if c = '\r' then ['\\', 'r']
  else if c = '\n' then ['\\', 'n']
  else if c = '\\' then ['\\', '\\']
  else if c = '"' then ['\\', '"']
  else if isPlain c then [c]
  else ['\\', 'u', '\x7b'] ++ Nat.toDigits 16 c.toNat ++ ['\x7d']

/-- The text in double quotes, escaped. -/
def quote (s : String) : String :=
  String.ofList ('"' :: s.toList.flatMap escapeChar ++ ['"'])

/-- A list of texts, each quoted, in square brackets. -/
def quoteList (names : List String) : String :=
  "[" ++ ", ".intercalate (names.map quote) ++ "]"

end RangeStore.Text
