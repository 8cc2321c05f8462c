import RangeStore.Tree.Node
set_option autoImplicit false

/-! # Building nodes

A draft takes up cells in strictly ascending order of their keys as long as they fit on one
page. `NodeDraft.finish` lays them out: the list of positions, then the cells in order, each
right behind the one before it, then zeros, and the checksum in the header. -/

namespace RangeStore

/-- A node in the making. `used` counts the bytes of its page that are taken. -/
structure NodeDraft where
  kind : NodeKind
  cells : Array Cell := #[]
  used : Nat := Node.slotsStart
deriving DecidableEq

namespace NodeDraft

/-- The bytes that a cell takes on a page, its place in the list of positions included. -/
def cellSize (keyLength valueLength : Nat) : Nat :=
  2 + Node.cellHeader + keyLength + valueLength

/-- Whether there is room for a cell with a key and a value of these lengths. -/
def fits (d : NodeDraft) (keyLength valueLength : Nat) : Bool :=
  d.used + cellSize keyLength valueLength ≤ pageSize

def size (d : NodeDraft) : Nat := d.cells.size

def isEmpty (d : NodeDraft) : Bool := d.cells.isEmpty

def firstKey? (d : NodeDraft) : Option Bytes := d.cells[0]?.map (·.key)

/-- Whether `key` does not come behind all keys so far. -/
def disordered (d : NodeDraft) (key : Bytes) : Bool :=
  match d.cells.back? with
  | none => false
  | some last => (compare last.key key).isGE

/-- The draft with one more cell. Its size is judged first, then the room left, then its
order. -/
def push (d : NodeDraft) (cell : Cell) : Except NodeError NodeDraft :=
  if Node.maxPayload < cell.payload then .error (.cellTooLarge cell.payload)
  else if !d.fits cell.key.length cell.value.length then .error .full
  else if d.disordered cell.key then .error (.unorderedKey d.cells.size)
  else .ok { d with
    cells := d.cells.push cell
    used := d.used + cellSize cell.key.length cell.value.length }

/-- The positions of cells that lie one after the other from `start` on. -/
def slots (start : Nat) : List Cell → Bytes
  | [] => []
  | cell :: rest => Bytes.little 2 start ++ slots (start + Node.cellHeader + cell.payload) rest

def cellBytes (cell : Cell) : Bytes :=
  Bytes.little 2 cell.key.length ++ Bytes.little 2 cell.value.length ++ cell.key ++ cell.value

/-- The page of a node with the given cells. -/
def image (kind : NodeKind) (cells : List Cell) : Page :=
  let start := Node.slotsStart + 2 * cells.length
  (Page.ofList (Page.header kind 0 ++ Bytes.little 2 cells.length ++ slots start cells ++
    cells.flatMap cellBytes)).sealed

/-- The node of the cells so far. -/
def finish (d : NodeDraft) : Node := ⟨d.kind, d.cells, image d.kind d.cells.toList⟩

end NodeDraft

end RangeStore
