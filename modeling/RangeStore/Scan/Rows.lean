import RangeStore.Scan.Scanner
set_option autoImplicit false

/-! # The rows of a scan

`Rows` gives the rows of a scan one after the other. It passes over index entries that lead to no
row, if the policy is to skip them, and stops at the first error. -/

namespace RangeStore

/-- The rows of a scan that are still to come. -/
structure Rows where
  scanner : Scanner
  /-- Whether the entry under the scanner has been read. -/
  started : Bool := false
  /-- Whether the end or an error has been met. -/
  finished : Bool := false

namespace Rows

/-- Steps and reads until there is a row, an error or no entry. -/
def advance (source : NodeSource) (lookup : RowLookup) :
    (bound : Nat) → Rows → Option (Except ScanError Record) × Rows
  | 0, r => (some (.error (.store .endless)), { r with finished := true })
  | bound + 1, r =>
    match if r.started then r.scanner.next source else (.ok (), r.scanner) with
    | (.error e, scanner) => (some (.error e), ⟨scanner, true, true⟩)
    | (.ok (), scanner) =>
      if scanner.valid then
        match scanner.read lookup .empty with
        | (.error e, _) => (some (.error e), ⟨scanner, true, true⟩)
        | (.ok true, row) => (some (.ok row), ⟨scanner, true, false⟩)
        | (.ok false, _) => advance source lookup bound ⟨scanner, true, false⟩
      else (none, ⟨scanner, true, true⟩)

/-- The next row; index entries that lead to no row are passed over, if the policy is to skip
them. After the end or an error there are no more. -/
def next (source : NodeSource) (lookup : RowLookup) (r : Rows) :
    Option (Except ScanError Record) × Rows :=
  if r.finished then (none, r) else advance source lookup (r.scanner.cursor.walkBound source) r

/-- At most `bound` rows, the error that has ended them early, and what is left. -/
def collectFrom (source : NodeSource) (lookup : RowLookup) :
    (bound : Nat) → Rows → List Record × Option ScanError × Rows
  | 0, r => ([], some (.store .endless), r)
  | bound + 1, r =>
    match r.next source lookup with
    | (none, r) => ([], none, r)
    | (some (.error e), r) => ([], some e, r)
    | (some (.ok row), r) =>
      match collectFrom source lookup bound r with
      | (rows, failure, r) => (row :: rows, failure, r)

/-- All rows that are still to come, the error that has ended them early, and what is left. -/
def collect (source : NodeSource) (lookup : RowLookup) (r : Rows) :
    List Record × Option ScanError × Rows :=
  collectFrom source lookup (r.scanner.cursor.walkBound source) r

end Rows

end RangeStore
