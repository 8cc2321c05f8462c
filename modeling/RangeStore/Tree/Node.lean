import RangeStore.Page.Basic
set_option autoImplicit false

/-! # Nodes

A node is a list of cells, each a key with a value, together with the page that holds them:

    0..8           header of the page
    8..10          number of cells
    10..           two bytes for each cell: where on the page it lies
    anywhere else  the cells: length of the key, length of the value (two bytes each), both

The value of a cell is the row's in a leaf; in an internal node it is the page id of a child,
eight bytes, and the key is the smallest one below that child. Keys ascend strictly in a node
that was built (`RangeStore.Tree.NodeDraft`); a page read from elsewhere may hold any keys, and
its cells may overlap. `Node.ofPage` accepts a page exactly if every cell lies on it. -/

namespace RangeStore

/-- What is wrong with a node, or with what is to be put into one. -/
inductive NodeError where
  | invalidHeader (error : PageError)
  /-- So many cells have no room on a page. -/
  | invalidKeyCount (count : Nat)
  /-- A cell does not lie on the page, or is no child of an internal node. -/
  | corruptCell (slot : Nat)
  /-- A node without cells that is not a leaf at the root. -/
  | emptyNode
  /-- Key and value have no room even on an empty page. -/
  | cellTooLarge (size : Nat)
  | full
  /-- The key is not greater than the one before it. -/
  | unorderedKey (slot : Nat)
deriving DecidableEq

structure Cell where
  key : Bytes
  value : Bytes
deriving DecidableEq, Inhabited

namespace Cell

/-- A child of an internal node under the smallest key below it. -/
def ofChild (key : Bytes) (child : PageId) : Cell := ⟨key, Bytes.little 8 child.toNat⟩

/-- The child that the value names, if it has the length of a page id. With a value of another
length, the eight bytes behind the key on the page could still be taken for a page id. Cells like
that are outside the trees: an internal node that was drafted may have them, but it has no child at
their slots here, and its page is refused by `Node.ofPage`. -/
def child? (c : Cell) : Option PageId :=
  if c.value.length = 8 then some (UInt64.ofNat (Bytes.ofLittle c.value)) else none

/-- The bytes of key and value together. -/
def payload (c : Cell) : Nat := c.key.length + c.value.length

@[simp] theorem child?_ofChild (key : Bytes) (child : PageId) :
    (ofChild key child).child? = some child := by
  have hlimit : Bytes.limit 8 = UInt64.size := rfl
  simp only [child?, ofChild, Bytes.length_little, if_true, Bytes.ofLittle_little, hlimit,
    Nat.mod_eq_of_lt child.toNat_lt_size, UInt64.ofNat_toNat]

end Cell

structure Node where
  kind : NodeKind
  cells : Array Cell
  page : Page
deriving DecidableEq

namespace Node

/-- Where the list of cell positions begins. -/
def slotsStart : Nat := 10

/-- The bytes before the key of a cell. -/
def cellHeader : Nat := 4

/-- The most bytes that key and value of one cell may have. -/
def maxPayload : Nat := pageSize - slotsStart - 2 - cellHeader

/-- The most cells that a page can list. -/
def maxCells : Nat := (pageSize - slotsStart) / 2

/-! ## Reading a page -/

/-- The cell at a slot, if it lies on the page behind `cellsStart`, where the list of positions
ends, and is a child if the node is internal. -/
def readCell? (p : Page) (kind : NodeKind) (cellsStart slot : Nat) : Option Cell :=
  let offset := p.word (slotsStart + 2 * slot) 2
  if offset < cellsStart ∨ pageSize < offset + cellHeader then none
  else
    let keyLength := p.word offset 2
    let valueLength := p.word (offset + 2) 2
    if pageSize < offset + cellHeader + keyLength + valueLength then none
    else if kind = .internal ∧ valueLength ≠ 8 then none
    else some ⟨p.slice (offset + cellHeader) keyLength,
      p.slice (offset + cellHeader + keyLength) valueLength⟩

/-- The cells at `count` slots from `slot` on. -/
def readCells (p : Page) (kind : NodeKind) (cellsStart : Nat) :
    (slot count : Nat) → Except NodeError (List Cell)
  | _, 0 => .ok []
  | slot, count + 1 =>
    match readCell? p kind cellsStart slot with
    | none => .error (.corruptCell slot)
    | some cell =>
      match readCells p kind cellsStart (slot + 1) count with
      | .error e => .error e
      | .ok cells => .ok (cell :: cells)

def ofPage (p : Page) : Except NodeError Node :=
  match p.kind with
  | .error e => .error (.invalidHeader e)
  | .ok kind =>
    let count := p.word 8 2
    if pageSize < slotsStart + 2 * count then .error (.invalidKeyCount count)
    else
      match readCells p kind (slotsStart + 2 * count) 0 count with
      | .error e => .error e
      | .ok cells => .ok ⟨kind, cells.toArray, p⟩

theorem length_readCells {p : Page} {kind : NodeKind} {cellsStart slot count : Nat}
    {cells : List Cell} (h : readCells p kind cellsStart slot count = .ok cells) :
    cells.length = count := by
  induction count generalizing slot cells with
  | zero =>
    simp only [readCells, Except.ok.injEq] at h
    simp [← h]
  | succ count ih =>
    simp only [readCells] at h
    split at h
    · contradiction
    · split at h
      · contradiction
      · next rest hrest =>
        simp only [Except.ok.injEq] at h
        simp [← h, ih hrest]

/-- A page lists at most as many cells as it has room to list. -/
theorem size_ofPage_le {p : Page} {n : Node} (h : ofPage p = .ok n) :
    n.cells.size ≤ maxCells := by
  simp only [ofPage] at h
  split at h
  · contradiction
  · split at h
    · contradiction
    · next hcount =>
      split at h
      · contradiction
      · next cells hcells =>
        simp only [Except.ok.injEq] at h
        have hlen := length_readCells hcells
        simp only [← h, List.size_toArray, hlen, maxCells, slotsStart, pageSize] at hcount ⊢
        omega

theorem ofPage_zero : ofPage .zero = .error (.invalidHeader (.invalidKind 0)) := by
  rfl

/-! ## Looking into a node -/

def size (n : Node) : Nat := n.cells.size

def isLeaf (n : Node) : Bool := n.kind = .leaf

def key? (n : Node) (slot : Nat) : Option Bytes := n.cells[slot]?.map (·.key)

def value? (n : Node) (slot : Nat) : Option Bytes := n.cells[slot]?.map (·.value)

def child? (n : Node) (slot : Nat) : Option PageId :=
  if n.isLeaf then none else n.cells[slot]?.bind Cell.child?

/-- The number of cells whose keys are at most `key`, if the cells are sorted, the first `lo` of
them are such cells and none from `hi` on is: looks at the middle of what is open and goes on
in one half. -/
def search (cells : Array Cell) (key : Bytes) (lo hi : Nat) (h : hi ≤ cells.size) : Nat :=
  if hlt : lo < hi then
    have hmid : lo + (hi - lo) / 2 < cells.size := by omega
    if (compare cells[lo + (hi - lo) / 2].key key).isLE then
      search cells key (lo + (hi - lo) / 2 + 1) hi h
    else search cells key lo (lo + (hi - lo) / 2) (by omega)
  else lo
termination_by hi - lo

/-- The last slot whose key is at most `key`, or 0 if there is none. -/
def lookupLE (n : Node) (key : Bytes) : Nat :=
  search n.cells key 0 n.cells.size (Nat.le_refl _) - 1

def described (n : Node) : String :=
  s!"BNode \x7b node_type: {n.kind.name}, key_count: {n.size}, .. \x7d"

end Node

namespace NodeError

def message : NodeError → String
  | invalidHeader e => "invalid node header: " ++ e.message
  | invalidKeyCount n => s!"invalid key count: {n}"
  | corruptCell slot => s!"corrupt cell at slot {slot}"
  | emptyNode => "node has no keys"
  | cellTooLarge size => s!"cell too large: {size} bytes (max {Node.maxPayload})"
  | full => "node is full"
  | unorderedKey slot => s!"key at slot {slot} is out of order"

end NodeError

end RangeStore
