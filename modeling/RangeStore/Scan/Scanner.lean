import RangeStore.Scan.KeyLayout
import RangeStore.Schema.Catalog
import RangeStore.Settings
set_option autoImplicit false

/-! # Scans

A scan gives the rows of a table between two bounds. The start bound's comparison also tells the
direction; the stop bound's must have the other one. A bound has values for the first few columns
of the key, and is filled up so that it stands for all keys that begin with them.

`Scanner` stands on an entry of the key space and reads the row there: in the primary key the
entry is the row, in an index it names the primary key, under which the row is looked up. -/

namespace RangeStore

/-- One side of a range. -/
structure Bound where
  comparison : Comparison
  key : Record
deriving DecidableEq, Inhabited

structure ScanRequest where
  start : Bound
  stop : Bound
  /-- The index to scan, if it is not to be chosen by the start bound. -/
  index : Option String := none
deriving DecidableEq, Inhabited

/-- Finds the row of a table with a primary key. -/
abbrev RowLookup := Table → Record → Except ScanError (Option Record)

structure Scanner where
  table : Table
  layout : KeyLayout
  start : Comparison
  stop : Comparison
  startKey : Bytes
  stopKey : Bytes
  missPolicy : MissPolicy
  cursor : Cursor

namespace Scanner

/-- The key that a bound stands for in a layout. -/
def boundKey (l : KeyLayout) (b : Bound) : Bytes :=
  Tuple.encodeBound l.keySpace b.key.values l.types b.comparison

/-- The layout of a request for a table, if the request is well-formed. -/
def prepare (tables : Catalog) (table : String) (request : ScanRequest) :
    Except ScanError (Table × KeyLayout) :=
  match tables.find? table with
  | none => .error (.tableNotFound table)
  | some t =>
    if request.start.comparison.direction = request.stop.comparison.direction then
      .error (.badRange request.start.comparison request.stop.comparison)
    else
      match KeyLayout.resolve t request.index request.start.key request.stop.key with
      | .error e => .error e
      | .ok layout => .ok (t, layout)

/-- Starts a scan. Nothing is fetched for a request that is not well-formed. -/
def ofRequest (s : NodeSource) (root : PageId) (tables : Catalog) (missPolicy : MissPolicy)
    (table : String) (request : ScanRequest) : Except ScanError Scanner :=
  match prepare tables table request with
  | .error e => .error e
  | .ok (t, layout) =>
    let startKey := boundKey layout request.start
    match Cursor.seek s root startKey request.start.comparison with
    | .error e => .error (.store e)
    | .ok cursor =>
      .ok ⟨t, layout, request.start.comparison, request.stop.comparison, startKey,
        boundKey layout request.stop, missPolicy, cursor⟩

def inRange (s : Scanner) (key : Bytes) : Bool :=
  s.start.holds key s.startKey && s.stop.holds key s.stopKey

/-- The entry under the cursor, if it lies between the bounds. -/
def entry? (s : Scanner) : Option Cell := s.cursor.entry?.filter fun entry => s.inRange entry.key

/-- Whether the scanner stands on an entry between the bounds. -/
def valid (s : Scanner) : Bool := s.entry?.isSome

/-- Steps to the next entry in the direction of the scan. Outside the bounds it stays. -/
def next (source : NodeSource) (s : Scanner) : Except ScanError Unit × Scanner :=
  if s.valid then
    match s.cursor.step source s.start.direction with
    | (.error e, cursor) => (.error (.store e), { s with cursor := cursor })
    | (.ok (), cursor) => (.ok (), { s with cursor := cursor })
  else (.ok (), s)

/-- Steps a number of times, or until a step fails. -/
def nextMany (source : NodeSource) : (count : Nat) → Scanner → Except ScanError Unit × Scanner
  | 0, s => (.ok (), s)
  | count + 1, s =>
    match s.next source with
    | (.error e, s) => (.error e, s)
    | (.ok (), s) => nextMany source count s

/-- Reads the row under the scanner. Gives whether there is one, and what `out` becomes: the row;
nothing, when the entry of an index leads to no row; and itself when there is no entry, or when
the entry cannot be read or its row not be looked up. -/
def read (s : Scanner) (lookup : RowLookup) (out : Record) : Except ScanError Bool × Record :=
  match s.entry? with
  | none => (.ok false, out)
  | some entry =>
    match s.layout.choice with
    | .primary =>
      match Row.ofEntry s.table entry with
      | .error e => (.error (.decode e), out)
      | .ok row => (.ok true, row)
    | .secondary _ =>
      match Row.keyOfIndexKey s.table s.layout.columns s.layout.types entry.key with
      | .error e => (.error (.decode e), out)
      | .ok key =>
        match lookup s.table key with
        | .error e => (.error e, out)
        | .ok (some row) => (.ok true, row)
        | .ok none =>
          match s.missPolicy with
          | .skip => (.ok false, .empty)
          | .fail =>
            (.error (.danglingIndexEntry s.table.name s.layout.name key.shown), .empty)

end Scanner

end RangeStore
