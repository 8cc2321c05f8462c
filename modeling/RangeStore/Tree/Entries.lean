import RangeStore.Tree.Node
set_option autoImplicit false

/-! # Sorted entries

The content of a tree as a list of cells in strictly ascending order of their keys. -/

namespace RangeStore.Entries

def find? (key : Bytes) : List Cell → Option Bytes
  | [] => none
  | cell :: rest => if cell.key = key then some cell.value else find? key rest

/-- The entries with one more; an entry under the same key is replaced. -/
def insert (new : Cell) : List Cell → List Cell
  | [] => [new]
  | cell :: rest =>
    match compare new.key cell.key with
    | .lt => new :: cell :: rest
    | .eq => new :: rest
    | .gt => cell :: insert new rest

/-- The entries with several more, one after the other. -/
def insertAll (new : List Cell) (entries : List Cell) : List Cell :=
  new.foldl (fun entries cell => insert cell entries) entries

def remove (keys : List Bytes) (entries : List Cell) : List Cell :=
  entries.filter fun cell => cell.key ∉ keys

end RangeStore.Entries
