import RangeStore.Proofs.Page.Region
import RangeStore.Proofs.Tree.Runs
set_option autoImplicit false

/-! # Reading cells off their page

A node lists the cells that `Node.ofPage` has found on its page. Read directly off the page, a cell
is found anew each time: its position in the list of positions, the two lengths there, and the bytes
behind them. Nothing but the slot is checked on the way; what would go wrong is a slot that the node
does not have, a child asked of a leaf, or a read that leaves the page. All three are `none` here.

None of them happens to a node that `Node.ofPage` has accepted, whatever bytes its page has: the
reads off the page give what the cells say (`OfPage.pageKey?_eq`, `OfPage.pageValue?_eq`,
`OfPage.pageChild?_eq`), and so does a lookup, whatever the order of the keys
(`OfPage.pageLookup?_eq`). -/

namespace RangeStore

namespace Page

theorem read?_of_le {p : Page} {offset count : Nat} (h : offset + count ≤ pageSize) :
    p.read? offset count = some (p.slice offset count) :=
  if_pos h

theorem readWord?_of_le {p : Page} {offset width : Nat} (h : offset + width ≤ pageSize) :
    p.readWord? offset width = some (p.word offset width) := by
  rw [readWord?, read?_of_le h, Option.map_some, word]

end Page

namespace Node

/-! ## Reads that may go wrong -/

/-- Where on a page a cell lies: where its key begins, and the lengths of key and value. -/
structure Place where
  start : Nat
  keyLength : Nat
  valueLength : Nat

variable (n : Node)

/-- The place of the cell at a slot, as the page says. -/
def place? (slot : Nat) : Option Place :=
  if slot < n.size then do
    let offset ← n.page.readWord? (slotsStart + 2 * slot) 2
    let keyLength ← n.page.readWord? offset 2
    let valueLength ← n.page.readWord? (offset + 2) 2
    some ⟨offset + cellHeader, keyLength, valueLength⟩
  else none

/-- The key at a slot, read off the page. -/
def pageKey? (slot : Nat) : Option Bytes := do
  let place ← n.place? slot
  n.page.read? place.start place.keyLength

/-- The value at a slot, read off the page. -/
def pageValue? (slot : Nat) : Option Bytes := do
  let place ← n.place? slot
  n.page.read? (place.start + place.keyLength) place.valueLength

/-- The child at a slot of an internal node, read off the page. -/
def pageChild? (slot : Nat) : Option PageId :=
  if n.isLeaf then none
  else do
    let place ← n.place? slot
    let id ← n.page.readWord? (place.start + place.keyLength) 8
    some (UInt64.ofNat id)

/-- The search among the slots from `lo` to `hi`, with the keys read off the page. -/
def pageSearch? (key : Bytes) (lo hi : Nat) : Option Nat :=
  if lo < hi then
    match n.pageKey? (lo + (hi - lo) / 2) with
    | none => none
    | some found =>
      if (compare found key).isLE then pageSearch? key (lo + (hi - lo) / 2 + 1) hi
      else pageSearch? key lo (lo + (hi - lo) / 2)
  else some lo
termination_by hi - lo

/-- The last slot whose key is at most `key`, or 0, with the keys read off the page. -/
def pageLookup? (key : Bytes) : Option Nat := (n.pageSearch? key 0 n.size).map (· - 1)

/-! ## What an accepted page looks like -/

/-- The node was read from a page, whatever bytes the page has. -/
def OfPage : Prop := ∃ p, ofPage p = .ok n

variable {n} {p : Page} {kind : NodeKind} {cellsStart slot count : Nat} {cell : Cell}
  {cells : List Cell}

/-- A cell that was read lies on the page, and a child of an internal node is a page id. -/
theorem readCell?_eq_some (h : readCell? p kind cellsStart slot = some cell) :
    ∃ offset keyLength valueLength, offset = p.word (slotsStart + 2 * slot) 2 ∧
      keyLength = p.word offset 2 ∧ valueLength = p.word (offset + 2) 2 ∧
      offset + cellHeader + keyLength + valueLength ≤ pageSize ∧
      (kind = .internal → valueLength = 8) ∧
      cell = ⟨p.slice (offset + cellHeader) keyLength,
        p.slice (offset + cellHeader + keyLength) valueLength⟩ := by
  refine ⟨_, _, _, rfl, rfl, rfl, ?_⟩
  simp only [readCell?] at h
  split at h
  · contradiction
  · split at h
    · contradiction
    · next hend =>
      split at h
      · contradiction
      · next hchild =>
        refine ⟨Nat.le_of_not_lt hend, fun hkind => ?_, (Option.some.inj h).symm⟩
        exact Decidable.not_not.mp fun hne => hchild ⟨hkind, hne⟩

theorem readCell?_of_readCells (h : readCells p kind cellsStart slot count = .ok cells)
    {i : Nat} (hi : i < cells.length) : readCell? p kind cellsStart (slot + i) = some cells[i] := by
  induction count generalizing slot cells i with
  | zero =>
    cases Except.ok.inj h
    contradiction
  | succ count ih =>
    simp only [readCells] at h
    split at h
    · contradiction
    · next first hfirst =>
      split at h
      · contradiction
      · next rest hrest =>
        cases Except.ok.inj h
        cases i with
        | zero => exact hfirst
        | succ i =>
          have hcell := ih hrest (Nat.lt_of_succ_lt_succ hi)
          rw [Nat.add_right_comm] at hcell
          exact hcell

/-- What `ofPage` has found out about the page. -/
theorem ofPage_eq_ok (h : ofPage p = .ok n) :
    n.page = p ∧ slotsStart + 2 * n.size ≤ pageSize ∧
      readCells p n.kind (slotsStart + 2 * n.size) 0 n.size = .ok n.cells.toList := by
  simp only [ofPage] at h
  split at h
  · contradiction
  · split at h
    · contradiction
    · next hcount =>
      split at h
      · contradiction
      · next cells hcells =>
        cases Except.ok.inj h
        simp only [size, List.size_toArray, length_readCells hcells]
        exact ⟨trivial, Nat.le_of_not_lt hcount, hcells⟩

/-- The cells of the node are those that stand on its page, read as cells of some kind. -/
structure Laid (n : Node) (kind : NodeKind) : Prop where
  list_le : slotsStart + 2 * n.size ≤ pageSize
  read : readCells n.page kind (slotsStart + 2 * n.size) 0 n.size = .ok n.cells.toList

theorem OfPage.laid (h : n.OfPage) : n.Laid n.kind := by
  obtain ⟨p, hp⟩ := h
  obtain ⟨rfl, hlist, hcells⟩ := ofPage_eq_ok hp
  exact ⟨hlist, hcells⟩

namespace Laid

/-- Every slot has a place on the page, with the cell that the node lists. -/
theorem place?_eq (h : n.Laid kind) (hslot : slot < n.size) :
    ∃ place, n.place? slot = some place ∧
      place.start + place.keyLength + place.valueLength ≤ pageSize ∧
      (kind = .internal → place.valueLength = 8) ∧
      n.cells[slot]? = some ⟨n.page.slice place.start place.keyLength,
        n.page.slice (place.start + place.keyLength) place.valueLength⟩ := by
  have hlist := h.list_le
  have hget : slot < n.cells.toList.length := hslot
  have hcell := readCell?_of_readCells h.read hget
  rw [Nat.zero_add] at hcell
  obtain ⟨offset, keyLength, valueLength, hoffset, hkey, hvalue, hend, hchild, heq⟩ :=
    readCell?_eq_some hcell
  refine ⟨⟨offset + cellHeader, keyLength, valueLength⟩, ?_, hend, hchild, ?_⟩
  · have hfit : offset + 4 ≤ pageSize := by
      simp only [cellHeader] at hend
      omega
    have hposition : n.page.readWord? (slotsStart + 2 * slot) 2 = some offset := by
      rw [Page.readWord?_of_le (by omega), hoffset]
    have hkeyRead : n.page.readWord? offset 2 = some keyLength := by
      rw [Page.readWord?_of_le (by omega), hkey]
    have hvalueRead : n.page.readWord? (offset + 2) 2 = some valueLength := by
      rw [Page.readWord?_of_le (by omega), hvalue]
    simp only [place?, if_pos hslot, hposition, hkeyRead, hvalueRead, Option.bind_eq_bind,
      Option.bind_some]
  · rw [← heq, ← Array.getElem?_toList, List.getElem?_eq_getElem hget]

theorem pageKey?_eq (h : n.Laid kind) (slot : Nat) : n.pageKey? slot = n.key? slot := by
  by_cases hslot : slot < n.size
  · obtain ⟨place, hplace, hend, -, hcell⟩ := h.place?_eq hslot
    rw [pageKey?, hplace, key?, hcell]
    exact Page.read?_of_le (by omega)
  · rw [pageKey?, place?, if_neg hslot, key?, Array.getElem?_eq_none (Nat.le_of_not_lt hslot)]
    rfl

end Laid

/-! ## Reads off an accepted page -/

namespace OfPage

/-- Every slot of an accepted node has a place on the page, and an internal one a child there. -/
theorem place?_eq (h : n.OfPage) (hslot : slot < n.size) :
    ∃ place, n.place? slot = some place ∧
      place.start + place.keyLength + place.valueLength ≤ pageSize ∧
      (n.isLeaf = false → place.valueLength = 8) ∧
      n.cells[slot]? = some ⟨n.page.slice place.start place.keyLength,
        n.page.slice (place.start + place.keyLength) place.valueLength⟩ := by
  obtain ⟨place, hplace, hend, hchild, hcell⟩ := h.laid.place?_eq hslot
  refine ⟨place, hplace, hend, fun hleaf => hchild ?_, hcell⟩
  cases hkind : n.kind with
  | internal => rfl
  | leaf => simp [isLeaf, hkind] at hleaf

theorem pageKey?_eq (h : n.OfPage) (slot : Nat) : n.pageKey? slot = n.key? slot :=
  h.laid.pageKey?_eq slot

theorem pageValue?_eq (h : n.OfPage) (slot : Nat) : n.pageValue? slot = n.value? slot := by
  by_cases hslot : slot < n.size
  · obtain ⟨place, hplace, hend, -, hcell⟩ := h.place?_eq hslot
    rw [pageValue?, hplace, value?, hcell]
    exact Page.read?_of_le hend
  · rw [pageValue?, place?, if_neg hslot, value?, Array.getElem?_eq_none (Nat.le_of_not_lt hslot)]
    rfl

theorem pageChild?_eq (h : n.OfPage) (slot : Nat) : n.pageChild? slot = n.child? slot := by
  rw [pageChild?, child?]
  split
  · rfl
  · next hleaf =>
    by_cases hslot : slot < n.size
    · obtain ⟨place, hplace, hend, hchild, hcell⟩ := h.place?_eq hslot
      have hlength := hchild (Bool.not_eq_true _ ▸ hleaf)
      rw [hlength] at hend hcell
      rw [hplace, hcell, Option.bind_eq_bind, Option.bind_some, Page.readWord?_of_le hend,
        Option.bind_some, Cell.child?, if_pos (Page.length_slice hend)]
      rfl
    · rw [place?, if_neg hslot, Array.getElem?_eq_none (Nat.le_of_not_lt hslot)]
      rfl

/-- Every slot of an internal node has a child. -/
theorem child?_isSome (h : n.OfPage) (hleaf : n.isLeaf = false) (hslot : slot < n.size) :
    ∃ id, n.child? slot = some id := by
  obtain ⟨place, -, hend, hchild, hcell⟩ := h.place?_eq hslot
  rw [hchild hleaf] at hend hcell
  refine ⟨UInt64.ofNat (Bytes.ofLittle (n.page.slice (place.start + place.keyLength) 8)), ?_⟩
  rw [child?, hleaf, if_neg Bool.false_ne_true, hcell, Option.bind_some, Cell.child?,
    if_pos (Page.length_slice hend)]

/-- The search off the page looks at the same slots as the search in the list of cells. -/
theorem pageSearch?_eq (h : n.OfPage) (key : Bytes) (lo hi : Nat) (hhi : hi ≤ n.cells.size) :
    n.pageSearch? key lo hi = some (search n.cells key lo hi hhi) := by
  fun_induction search n.cells key lo hi hhi with
  | case1 lo hi hhi hlt hmid hle ih =>
    rw [pageSearch?, if_pos hlt, h.pageKey?_eq, key?, Array.getElem?_eq_getElem hmid]
    simp only [Option.map_some, if_pos hle, ih]
  | case2 lo hi hhi hlt hmid hle ih =>
    rw [pageSearch?, if_pos hlt, h.pageKey?_eq, key?, Array.getElem?_eq_getElem hmid]
    simp only [Option.map_some, if_neg hle, ih]
  | case3 lo hi hhi hlt => rw [pageSearch?, if_neg hlt]

theorem pageLookup?_eq (h : n.OfPage) (key : Bytes) :
    n.pageLookup? key = some (n.lookupLE key) := by
  rw [pageLookup?, size, h.pageSearch?_eq key 0 n.cells.size (Nat.le_refl _), Option.map_some,
    lookupLE]

end OfPage

/-- Whatever is read off the page at a slot of the node is there, and a lookup ends at such a
slot. -/
structure Readable (n : Node) : Prop where
  key : ∀ slot < n.size, ∃ key, n.pageKey? slot = some key
  value : ∀ slot < n.size, ∃ value, n.pageValue? slot = some value
  child : n.isLeaf = false → ∀ slot < n.size, ∃ id, n.pageChild? slot = some id
  lookup : 0 < n.size → ∀ key, ∃ slot < n.size, n.pageLookup? key = some slot

theorem OfPage.readable (h : n.OfPage) : n.Readable where
  key slot hslot := by
    have hget : slot < n.cells.size := hslot
    rw [h.pageKey?_eq, key?, Array.getElem?_eq_getElem hget]
    exact ⟨_, rfl⟩
  value slot hslot := by
    have hget : slot < n.cells.size := hslot
    rw [h.pageValue?_eq, value?, Array.getElem?_eq_getElem hget]
    exact ⟨_, rfl⟩
  child hleaf slot hslot := by
    rw [h.pageChild?_eq]
    exact h.child?_isSome hleaf hslot
  lookup hsize key := ⟨n.lookupLE key, lookupLE_lt hsize key, h.pageLookup?_eq key⟩

end Node

end RangeStore
