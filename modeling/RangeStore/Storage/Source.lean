import RangeStore.Page.Superblock
import RangeStore.Tree.Node
set_option autoImplicit false

/-! # Where nodes are kept

A reader needs only a `NodeSource`: the node at each page id, or the reason why there is none.
Stores that nodes can also be added to are instances of `Storage`. -/

namespace RangeStore

/-- What may go wrong with a file. -/
inductive FileError where
  /-- A read reaches behind the end of the file. -/
  | unexpectedEnd
  | notFound
  /-- The position is no position of any file. -/
  | invalidPosition
  /-- The length is no length of any file. -/
  | invalidLength
deriving DecidableEq

namespace FileError

def message : FileError → String
  | unexpectedEnd => "failed to fill whole buffer"
  | notFound => "No such file or directory (os error 2)"
  | invalidPosition => "Invalid argument (os error 22)"
  | invalidLength => "out of range integral type conversion attempted"

end FileError

/-- Why a store does not do what it is asked for. -/
inductive StoreError where
  | file (error : FileError)
  | alreadyExists (path : String)
  | superblock (error : SuperblockError)
  /-- No node is kept under this id. -/
  | pageNotFound (id : PageId)
  | pageOutOfBounds (id : PageId) (pageCount : UInt64)
  | checksumMismatch (id : PageId) (expected actual : UInt32)
  | node (id : PageId) (error : NodeError)
  /-- A slot, a page position or a page number leaves its range, or no page number is left. -/
  | outOfRange
  /-- The way down the tree comes back to a node that it has passed, and so has no end. -/
  | endless
deriving DecidableEq

namespace StoreError

def message : StoreError → String
  | file e => "I/O error: " ++ e.message
  | alreadyExists path => "file already exists: " ++ path
  | superblock e => "superblock error: " ++ e.message
  | pageNotFound id => s!"page {id.toNat} not found"
  | pageOutOfBounds id pageCount =>
    s!"page {id.toNat} out of bounds (total pages: {pageCount.toNat})"
  | checksumMismatch id expected actual =>
    s!"checksum mismatch on page {id.toNat}: expected " ++ Text.hexWord expected ++ ", got " ++
      Text.hexWord actual
  | node id e => s!"invalid node on page {id.toNat}: " ++ e.message
  | outOfRange => "out of range"
  | endless => "endless descent"

/-- The messages of the errors that this one wraps, outermost first. -/
def causes : StoreError → List String
  | file e => [e.message]
  | superblock e => [e.message]
  | node _ e => [e.message]
  | _ => []

end StoreError

/-- Read access to nodes. At most `extent` ids have a node, and no node has more than `capacity`
cells; so a way down that passes no node twice has at most `extent` nodes, and without cycles
there are at most `capacity ^ extent` entries below any node. -/
structure NodeSource where
  fetch : PageId → Except StoreError Node
  extent : Nat
  capacity : Nat
  exists_ids : ∃ ids : List PageId, ids.length ≤ extent ∧
    ∀ {id : PageId} {n : Node}, fetch id = .ok n → id ∈ ids
  size_le_capacity : ∀ {id : PageId} {n : Node}, fetch id = .ok n → n.size ≤ capacity

namespace NodeSource

/-- More than the number of nodes on any way down that passes no node twice. -/
def descentBound (s : NodeSource) : Nat := s.extent + 1

/-- More than the number of entries below any node, if there are no cycles. -/
def entryBound (s : NodeSource) : Nat := Nat.pow s.capacity s.extent + 1

/-- The source with some pages lost. -/
def without (s : NodeSource) (lost : List PageId) : NodeSource where
  fetch id := if id ∈ lost then .error (.pageNotFound id) else s.fetch id
  extent := s.extent
  capacity := s.capacity
  exists_ids := by
    obtain ⟨ids, hlength, hmem⟩ := s.exists_ids
    refine ⟨ids, hlength, fun h => ?_⟩
    split at h
    · contradiction
    · exact hmem h
  size_le_capacity h := by
    split at h
    · contradiction
    · exact s.size_le_capacity h

end NodeSource

/-- Stores to which nodes can be added. An operation that fails may still have changed the
store. -/
class Storage (σ : Type) where
  source : σ → NodeSource
  /-- Adds a node and gives its page id. -/
  put : σ → Node → Except StoreError PageId × σ
  commitRoot : σ → PageId → Except StoreError Unit × σ

end RangeStore
