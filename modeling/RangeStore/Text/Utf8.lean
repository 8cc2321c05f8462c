set_option autoImplicit false

/-! # Bytes as text

`text?` reads bytes that are well-formed UTF-8, `legible` any bytes: it shows each maximal
ill-formed part as one replacement character. -/

namespace RangeStore.Text

/-- The text that the bytes encode, if they are well-formed UTF-8. -/
def text? (bytes : List UInt8) : Option String := String.fromUTF8? ⟨bytes.toArray⟩

def utf8 (s : String) : List UInt8 := s.toUTF8.data.toList

/-- A text is read back from its bytes. -/
theorem text?_utf8 (s : String) : text? (utf8 s) = some s := by
  cases s with
  | ofByteArray b h => simp [text?, utf8, String.fromUTF8?, h, String.toUTF8, String.fromUTF8]

/-- The ranges of second bytes that may follow a leading byte, with the number of bytes that
the whole character takes; `none` for a byte that begins no character of several bytes. -/
def leadRange (b : UInt8) : Option (UInt8 × UInt8 × Nat) :=
  if 0xC2 ≤ b && b ≤ 0xDF then some (0x80, 0xBF, 2)
  else if b == 0xE0 then some (0xA0, 0xBF, 3)
  else if b == 0xED then some (0x80, 0x9F, 3)
  else if 0xE1 ≤ b && b ≤ 0xEF then some (0x80, 0xBF, 3)
  else if b == 0xF0 then some (0x90, 0xBF, 4)
  else if 0xF1 ≤ b && b ≤ 0xF3 then some (0x80, 0xBF, 4)
  else if b == 0xF4 then some (0x80, 0x8F, 4)
  else none

/-- The length of the longest beginning of `b :: rest` that is a character or the beginning of
one, and whether it is a whole character. -/
def characterLength (b : UInt8) (rest : List UInt8) : Nat × Bool :=
  if b < 0x80 then (1, true)
  else match leadRange b with
    | none => (1, false)
    | some (low, high, size) =>
      match rest with
      | [] => (1, false)
      | c :: more =>
        if c < low || high < c then (1, false)
        else
          let tail := (more.take (size - 2)).takeWhile fun d => 0x80 ≤ d && d ≤ 0xBF
          (2 + tail.length, 2 + tail.length == size)

/-- The bytes as text, U+FFFD standing for each maximal part that is not well-formed. -/
def legible : List UInt8 → String
  | [] => ""
  | b :: rest =>
    let (size, whole) := characterLength b rest
    let shown := if whole then (text? ((b :: rest).take size)).getD "\uFFFD" else "\uFFFD"
    shown ++ legible (rest.drop (size - 1))
termination_by bytes => bytes.length
decreasing_by
  simp only [List.length_drop, List.length_cons]
  omega

end RangeStore.Text
