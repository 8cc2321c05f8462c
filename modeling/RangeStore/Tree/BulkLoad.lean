import RangeStore.Storage.Source
import RangeStore.Tree.NodeDraft
set_option autoImplicit false

/-! # Loading a tree in bulk

A tree is built from the bottom up out of entries in strictly ascending order: entries are packed
into leaves from left to right, then the leaves, each under its first key, into internal nodes,
and so on until one node is left, the root. A node is full at a given number of cells or when the
next one does not fit on its page. No node is touched again once it has been put. -/

namespace RangeStore

/-- Why a tree was not built. -/
inductive BuildError where
  /-- A node must have room for two children. -/
  | invalidFanout (maxKeys : Nat)
  /-- The entry at this position is not greater than the one before it. -/
  | unsorted (position : Nat)
  /-- The keys are too long for two of them to share an internal node. -/
  | separatorTooLarge
  | node (error : NodeError)
  | store (error : StoreError)
deriving DecidableEq

namespace BulkLoad

/-- The fewest cells that a full node may have: with fewer, a level would not be smaller than the
one below it. -/
def minFanout : Nat := 2

end BulkLoad

namespace BuildError

def message : BuildError → String
  | invalidFanout n => s!"invalid fanout {n} (minimum {BulkLoad.minFanout})"
  | unsorted position => s!"entry {position} is not in strictly ascending order"
  | separatorTooLarge => "separator keys too large for internal nodes"
  | node e => "node error: " ++ e.message
  | store e => "store error: " ++ e.message

def causes : BuildError → List String
  | node e => [e.message]
  | store e => e.message :: e.causes
  | _ => []

end BuildError

namespace BulkLoad

variable {σ : Type} [Storage σ]

/-- Puts the node of a draft and gives it, under its first key, as a child of the next level. -/
def flush (d : NodeDraft) (store : σ) : Except BuildError (Bytes × PageId) × σ :=
  match Storage.put store d.finish with
  | (.error e, store) => (.error (.store e), store)
  | (.ok id, store) => (.ok (d.firstKey?.getD [], id), store)

/-- Whether a draft takes no more cells before this one. -/
def isFull (maxKeys : Nat) (d : NodeDraft) (cell : Cell) : Bool :=
  d.size = maxKeys || (!d.isEmpty && !d.fits cell.key.length cell.value.length)

/-- Whether `key` is not greater than the key before it. -/
def unsortedAfter (previous : Option Bytes) (key : Bytes) : Bool :=
  match previous with
  | none => false
  | some p => (compare p key).isGE

/-- Packs cells into nodes of one kind. `d` holds the cells that wait for their node, `position`
and `previous` tell where the list has come to. Gives the nodes as children of the next level,
of which `done` holds the first, last one first. -/
def packFrom (maxKeys : Nat) (d : NodeDraft) (position : Nat) (previous : Option Bytes)
    (done : List (Bytes × PageId)) (store : σ) :
    List Cell → Except BuildError (List (Bytes × PageId)) × σ
  | [] =>
    if !d.isEmpty || done.isEmpty then
      match flush d store with
      | (.error e, store) => (.error e, store)
      | (.ok child, store) => (.ok (child :: done).reverse, store)
    else (.ok done.reverse, store)
  | cell :: rest =>
    if unsortedAfter previous cell.key then (.error (.unsorted position), store)
    else if isFull maxKeys d cell then
      match flush d store with
      | (.error e, store) => (.error e, store)
      | (.ok child, store) =>
        match NodeDraft.push { kind := d.kind } cell with
        | .error e => (.error (.node e), store)
        | .ok d => packFrom maxKeys d (position + 1) (some cell.key) (child :: done) store rest
    else
      match d.push cell with
      | .error e => (.error (.node e), store)
      | .ok d => packFrom maxKeys d (position + 1) (some cell.key) done store rest

def pack (maxKeys : Nat) (kind : NodeKind) (cells : List Cell) (store : σ) :
    Except BuildError (List (Bytes × PageId)) × σ :=
  packFrom maxKeys { kind := kind } 0 none [] store cells

/-- Packs the nodes of a level into those of the next one until a single node is left. -/
def climb (maxKeys : Nat) (level : List (Bytes × PageId)) (store : σ) :
    Except BuildError PageId × σ :=
  match level with
  | [] => (.error .separatorTooLarge, store)
  | [root] => (.ok root.2, store)
  | first :: second :: rest =>
    let children := first :: second :: rest
    match pack maxKeys .internal (children.map fun c => Cell.ofChild c.1 c.2) store with
    | (.error e, store) => (.error e, store)
    | (.ok parents, store) =>
      if _ : parents.length < children.length then climb maxKeys parents store
      else (.error .separatorTooLarge, store)
termination_by level.length
decreasing_by assumption

end BulkLoad

/-- Builds a tree of entries in strictly ascending order, with at most `maxKeys` cells in a node.
No entries make one empty leaf. Gives the root, and the store with all nodes that were put, also
when the tree was not built. -/
def bulkLoad {σ : Type} [Storage σ] (maxKeys : Nat) (entries : List Cell) (store : σ) :
    Except BuildError PageId × σ :=
  if maxKeys < BulkLoad.minFanout then (.error (.invalidFanout maxKeys), store)
  else
    match BulkLoad.pack maxKeys .leaf entries store with
    | (.error e, store) => (.error e, store)
    | (.ok leaves, store) => BulkLoad.climb maxKeys leaves store

end RangeStore
