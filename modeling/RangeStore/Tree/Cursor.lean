import RangeStore.Storage.Source
import RangeStore.Tuple.Comparison
set_option autoImplicit false

/-! # Cursors

A cursor stands on an entry of a tree, or on none. It is the way from the root down to a leaf: at
each level a node and the slot taken there, the deepest level first. The slots are the digits of
a counter whose lowest digit is the leaf's: to step is to count by one, carrying into the level
above while a digit is at its end, and then to set the digits below to their first or last value
by going down again.

A cursor keeps the nodes of its way; nodes that it comes to newly are fetched. When a fetch
fails, the step fails and the cursor stands on no entry.

Going down is bounded by the number of nodes in the source. A descent that needs more passes the
same node twice, so it would never come to a leaf (`StoreError.endless`). -/

namespace RangeStore

/-- A node on the way of a cursor, and the slot taken in it. -/
structure Frame where
  node : Node
  slot : Nat

/-- The way from a leaf (first) up to the root (last). -/
structure Cursor where
  path : List Frame

/-- An end of a subtree. -/
inductive Edge where
  | first
  | last
deriving DecidableEq

namespace Edge

/-- The slot of a node at this end. -/
def slot (e : Edge) (n : Node) : Nat :=
  match e with
  | first => 0
  | last => n.size - 1

end Edge

namespace Cursor

/-- The cursor on no entry, without a way. -/
def none : Cursor := ⟨[]⟩

def valid (c : Cursor) : Bool :=
  match c.path with
  | [] => false
  | leaf :: _ => leaf.slot < leaf.node.size

def entry? (c : Cursor) : Option Cell :=
  match c.path with
  | [] => Option.none
  | leaf :: _ => leaf.node.cells[leaf.slot]?

def depth (c : Cursor) : Nat := c.path.length

def slots (c : Cursor) : List Nat := (c.path.map (·.slot)).reverse

def described (c : Cursor) : String :=
  let slots := ", ".intercalate (c.slots.map fun i => toString i)
  "BIter \x7b pos: [" ++ slots ++ s!"], valid: {c.valid}, .. \x7d"

/-- The number of cells in the nodes of some frames together. -/
def cellsIn : List Frame → Nat
  | [] => 0
  | frame :: above => frame.node.size + cellsIn above

/-- More than the number of steps in one direction from the cursor until it stands on no entry,
if there are no cycles: below each cell of the nodes that the cursor keeps there are fewer entries
than the source's bound says. -/
def walkBound (s : NodeSource) (c : Cursor) : Nat := cellsIn c.path * s.entryBound + 1

/-! ## Seeking -/

/-- Goes down from the node `id` to the last key that is at most `key`, below the levels passed
so far. -/
def descendLE (s : NodeSource) (key : Bytes) :
    (bound : Nat) → PageId → List Frame → Except StoreError Cursor
  | 0, _, _ => .error .endless
  | bound + 1, id, above =>
    match s.fetch id with
    | .error e => .error e
    | .ok n =>
      if n.size = 0 then
        if n.isLeaf ∧ above = [] then .ok ⟨[⟨n, 0⟩]⟩ else .error (.node id .emptyNode)
      else
        let path := ⟨n, n.lookupLE key⟩ :: above
        if n.isLeaf then .ok ⟨path⟩
        else
          match n.child? (n.lookupLE key) with
          | Option.none => .error .outOfRange
          | some child => descendLE s key bound child path

/-- The cursor on the last key that is at most `key`, or on the first key if all are greater.
There is no entry to stand on when the root is 0 or an empty leaf. -/
def seekLE (s : NodeSource) (root : PageId) (key : Bytes) : Except StoreError Cursor :=
  if root = 0 then .ok none else descendLE s key s.descentBound root []

/-! ## Stepping -/

/-- Goes down along one edge from the first frame of a path to a leaf. -/
def descend (s : NodeSource) (edge : Edge) :
    (bound : Nat) → List Frame → Except StoreError Unit × Cursor
  | 0, _ => (.error .endless, none)
  | _ + 1, [] => (.ok (), none)
  | bound + 1, frame :: above =>
    if frame.node.isLeaf then (.ok (), ⟨frame :: above⟩)
    else
      match frame.node.child? frame.slot with
      | Option.none => (.error .outOfRange, none)
      | some id =>
        match s.fetch id with
        | .error e => (.error e, none)
        | .ok n =>
          if n.size = 0 then (.error (.node id .emptyNode), none)
          else descend s edge bound (⟨n, edge.slot n⟩ :: frame :: above)

/-- Counts up by one, leaving out the levels below the one that moved. -/
def carryUp : List Frame → Option (List Frame)
  | [] => Option.none
  | frame :: above =>
    if frame.slot + 1 < frame.node.size then some ({ frame with slot := frame.slot + 1 } :: above)
    else carryUp above

/-- Counts down by one, leaving out the levels below the one that moved. -/
def carryDown : List Frame → Option (List Frame)
  | [] => Option.none
  | frame :: above =>
    if 0 < frame.slot then some ({ frame with slot := frame.slot - 1 } :: above)
    else carryDown above

/-- Steps to the next entry. Behind the last one the cursor stands on no entry, and there it
stays. -/
def next (s : NodeSource) (c : Cursor) : Except StoreError Unit × Cursor :=
  if c.valid then
    match carryUp c.path with
    | Option.none => (.ok (), none)
    | some path => descend s .first s.descentBound path
  else (.ok (), c)

/-- Steps to the entry before. Before the first one the cursor stands on no entry, and there it
stays. -/
def prev (s : NodeSource) (c : Cursor) : Except StoreError Unit × Cursor :=
  if c.valid then
    match carryDown c.path with
    | Option.none => (.ok (), none)
    | some path => descend s .last s.descentBound path
  else (.ok (), c)

def step (s : NodeSource) (direction : Direction) (c : Cursor) : Except StoreError Unit × Cursor :=
  match direction with
  | .ascending => c.next s
  | .descending => c.prev s

/-- The cursor on the first entry, in the comparison's direction, whose key it accepts: the
smallest such key for `gt` and `ge`, the greatest for `lt` and `le`. -/
def seek (s : NodeSource) (root : PageId) (key : Bytes) (c : Comparison) :
    Except StoreError Cursor :=
  match seekLE s root key with
  | .error e => .error e
  | .ok cursor =>
    match cursor.entry? with
    | Option.none => .ok cursor
    | some found =>
      if c.holds found.key key then .ok cursor
      else
        match cursor.step s c.direction with
        | (.error e, _) => .error e
        | (.ok (), moved) => .ok moved

end Cursor

end RangeStore
