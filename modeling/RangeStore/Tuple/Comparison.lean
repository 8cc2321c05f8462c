import RangeStore.Bytes
set_option autoImplicit false

/-! # Comparisons

One side of a range is a key under one of four comparisons. A comparison has a direction — the
side of the key on which the accepted keys lie — and either accepts the key itself or not. -/

namespace RangeStore

inductive Direction where
  | ascending
  | descending
deriving DecidableEq, Inhabited

/-- The four comparisons with a reference. -/
inductive Comparison where
  | gt
  | ge
  | lt
  | le
deriving DecidableEq, Inhabited

namespace Comparison

/-- Greater keys are read upwards, smaller keys downwards. -/
def direction : Comparison → Direction
  | gt | ge => .ascending
  | lt | le => .descending

/-- Whether the reference itself is accepted. -/
def inclusive : Comparison → Bool
  | ge | le => true
  | gt | lt => false

/-- Whether the accepted keys are read upwards. -/
def ascending (c : Comparison) : Bool := c.direction = .ascending

/-- Whether a reference that stands for all keys that begin with it must be put behind every
one of them: `gt` skips them all and `le` takes them all. -/
def spansAll : Comparison → Bool
  | gt | le => true
  | ge | lt => false

/-- Whether the comparison accepts something that stands in this order to the reference. -/
def accepts : Comparison → Ordering → Bool
  | gt, o => o = .gt
  | ge, o => o ≠ .lt
  | lt, o => o = .lt
  | le, o => o ≠ .gt

/-- Whether `key` stands in the comparison to `reference`, byte by byte. -/
def holds (c : Comparison) (key reference : Bytes) : Bool :=
  c.accepts (compare key reference)

def symbol : Comparison → String
  | gt => ">"
  | ge => ">="
  | lt => "<"
  | le => "<="

/-- The comparison as a number: its sign is the direction, its size 3 if it is inclusive and 2
if not. -/
def code : Comparison → Int
  | ge => 3
  | gt => 2
  | lt => -2
  | le => -3

def ofCode? (n : Int) : Option Comparison :=
  if n = 3 then some ge
  else if n = 2 then some gt
  else if n = -2 then some lt
  else if n = -3 then some le
  else none

@[simp] theorem ofCode?_code (c : Comparison) : ofCode? c.code = some c := by
  cases c <;> rfl

/-- What is said of a number that is no comparison's code. -/
def unknownCode (n : Int) : String := s!"unrecognized comparison operator code: {n}"

end Comparison

end RangeStore
