import RangeStore.Text.Blank
import RangeStore.Tree.BulkLoad
set_option autoImplicit false

/-! # Settings

How large the nodes of a new tree get, what a scan does with an index entry that leads to no row,
and whether the checksums of a file are verified. Each can be given as text in a variable; blanks
around the text and the case of its letters do not matter. -/

namespace RangeStore

/-- What a scan does with an index entry that leads to no row. -/
inductive MissPolicy where
  | skip
  | fail
deriving DecidableEq, Inhabited

namespace MissPolicy

/-- The policy as it is written. -/
def name : MissPolicy → String
  | skip => "skip"
  | fail => "error"

def described : MissPolicy → String
  | skip => "Skip"
  | fail => "Error"

end MissPolicy

structure Settings where
  /-- The most cells that a node of a new tree gets. -/
  maxNodeKeys : Nat := 128
  missPolicy : MissPolicy := .skip
  verifyChecksums : Bool := true
deriving DecidableEq, Inhabited

/-- The text of a variable is no setting. -/
structure SettingsError where
  name : String
  reason : String
deriving DecidableEq

namespace SettingsError

def message (e : SettingsError) : String :=
  "invalid value for " ++ e.name ++ ": " ++ e.reason

end SettingsError

namespace Settings

def maxNodeKeysVariable : String := "ATOMIX_MAX_NODE_KEYS"

def missPolicyVariable : String := "ATOMIX_INDEX_MISS_POLICY"

def verifyChecksumsVariable : String := "ATOMIX_VERIFY_CHECKSUMS"

/-- The number that decimal digits write. -/
def ofDigits (digits : List Char) : Nat :=
  digits.foldl (fun n c => 10 * n + (c.toNat - '0'.toNat)) 0

/-- Reads a number below 2^64: decimal digits, at least one, with a plus sign in front or not. -/
def readNumber? (s : String) : Option Nat :=
  let digits :=
    match s.toList with
    | '+' :: rest => rest
    | all => all
  if digits ≠ [] ∧ digits.all Char.isDigit then
    if ofDigits digits < UInt64.size then some (ofDigits digits) else none
  else none

/-- The text without blanks around it, in small letters. -/
def folded (s : String) : String := (Text.trim s).map Char.toLower

def readMaxNodeKeys (s : String) : Except SettingsError Nat :=
  match readNumber? (Text.trim s) with
  | some n =>
    if BulkLoad.minFanout ≤ n then .ok n
    else .error ⟨maxNodeKeysVariable, s!"'{s}' is not an integer >= {BulkLoad.minFanout}"⟩
  | none => .error ⟨maxNodeKeysVariable, s!"'{s}' is not an integer >= {BulkLoad.minFanout}"⟩

def readMissPolicy (s : String) : Except SettingsError MissPolicy :=
  if folded s = "skip" then .ok .skip
  else if folded s = "error" then .ok .fail
  else .error ⟨missPolicyVariable,
    s!"'{s}' is not a valid policy (expected 'skip' or 'error')"⟩

def readVerifyChecksums (s : String) : Except SettingsError Bool :=
  if folded s = "true" ∨ folded s = "1" then .ok true
  else if folded s = "false" ∨ folded s = "0" then .ok false
  else .error ⟨verifyChecksumsVariable, s!"'{s}' is not a boolean"⟩

/-- Reads a variable if it is set, and otherwise takes the default. -/
def readOr {α : Type} (default : α) (read : String → Except SettingsError α) :
    Option String → Except SettingsError α
  | none => .ok default
  | some s => read s

/-- The settings that variables give. -/
def ofVariables (text? : String → Option String) : Except SettingsError Settings := do
  let standard : Settings := {}
  let maxNodeKeys ← readOr standard.maxNodeKeys readMaxNodeKeys (text? maxNodeKeysVariable)
  let missPolicy ← readOr standard.missPolicy readMissPolicy (text? missPolicyVariable)
  let verify ← readOr standard.verifyChecksums readVerifyChecksums (text? verifyChecksumsVariable)
  .ok ⟨maxNodeKeys, missPolicy, verify⟩

def described (s : Settings) : String :=
  s!"EngineConfig \x7b max_node_keys: {s.maxNodeKeys}, index_miss_policy: " ++
    s.missPolicy.described ++ s!", verify_checksums: {s.verifyChecksums} \x7d"

end Settings

end RangeStore
