import RangeStore.Proofs.Page.Region
import RangeStore.Proofs.Storage.Lawful
set_option autoImplicit false

/-! # Pages of drafts

The page of a draft is read back as its node, unless the node is internal and one of its cells is no
child (`NodeDraft.Filled.ofPage_finish`). The cells lie on the page one after the other, as the list
of positions says, so the induction is over the cells: what was read of them is left behind, and
both the list and the cells go on behind it. -/

namespace RangeStore

namespace NodeDraft

/-! ## Lengths -/

theorem length_slots (start : Nat) (cells : List Cell) :
    (slots start cells).length = 2 * cells.length := by
  induction cells generalizing start with
  | nil => rfl
  | cons cell cells ih =>
    rw [slots, List.length_append, Bytes.length_little, ih, List.length_cons]
    omega

theorem length_cellBytes (cell : Cell) :
    (cellBytes cell).length = Node.cellHeader + cell.payload := by
  simp only [cellBytes, Cell.payload, Node.cellHeader, List.length_append, Bytes.length_little]
  omega

/-- Positions and cells take together what the draft has counted. -/
theorem length_flatMap_cellBytes (cells : List Cell) :
    2 * cells.length + (cells.flatMap cellBytes).length = cellsSize cells := by
  induction cells with
  | nil => rfl
  | cons cell cells ih =>
    rw [cellsSize, List.flatMap_cons, List.length_append, length_cellBytes, List.length_cons,
      cellSize, Cell.payload]
    omega

/-- What is written on the page of a node before the checksum: header, number of cells, their
positions, and the cells. -/
def content (kind : NodeKind) (cells : List Cell) : Bytes :=
  Page.header kind 0 ++ Bytes.little 2 cells.length ++
    slots (Node.slotsStart + 2 * cells.length) cells ++ cells.flatMap cellBytes

theorem length_content (kind : NodeKind) (cells : List Cell) :
    (content kind cells).length = Node.slotsStart + cellsSize cells := by
  have hheader : (Page.header kind 0).length = 8 := rfl
  have hcells := length_flatMap_cellBytes cells
  simp only [content, List.length_append, length_slots, Bytes.length_little, hheader,
    Node.slotsStart]
  omega

end NodeDraft

/-! ## Cells -/

namespace Node

open NodeDraft

variable {p : Page} {kind : NodeKind} {cellsStart : Nat}

/-- A length or a position on a page fits in its two bytes. -/
theorem word_of_le {offset n : Nat} (h : p.BytesAt offset (Bytes.little 2 n)) (hn : n ≤ pageSize) :
    p.word offset 2 = n := by
  have hlimit : Bytes.limit 2 = 65536 := rfl
  rw [h.word, hlimit, Nat.mod_eq_of_lt (Nat.lt_of_le_of_lt hn (by decide))]

/-- Whether a node of this kind does not take the cell: an internal one takes children only. -/
def misfit (kind : NodeKind) (cell : Cell) : Bool := kind = .internal && cell.value.length ≠ 8

theorem misfit_eq_false {cell : Cell} (h : kind = .internal → cell.value.length = 8) :
    misfit kind cell = false := by
  simpa [misfit] using h

/-- A cell that lies where the list says is read, if the node takes it. -/
theorem readCell?_eq (kind : NodeKind) {cell : Cell} {slot start : Nat}
    (hslot : p.BytesAt (slotsStart + 2 * slot) (Bytes.little 2 start))
    (hbytes : p.BytesAt start (cellBytes cell)) (hstart : cellsStart ≤ start) :
    readCell? p kind cellsStart slot = if misfit kind cell then none else some cell := by
  have hend : start + cellHeader + cell.key.length + cell.value.length ≤ pageSize := by
    have hle := hbytes.length_le
    rw [length_cellBytes, Cell.payload, cellHeader] at hle
    rw [cellHeader]
    omega
  have hoffset := word_of_le hslot (by omega)
  have hkeyLength := word_of_le hbytes.left.left.left (by omega)
  have hvalueLength := word_of_le hbytes.left.left.right (by omega)
  have hkey := hbytes.left.right.slice
  have hvalue := hbytes.right.slice
  simp only [List.length_append, Bytes.length_little] at hvalueLength hkey hvalue
  rw [← Nat.add_assoc] at hvalue
  simp only [readCell?, hoffset, hkeyLength, hvalueLength]
  rw [if_neg (by omega), if_neg (by omega)]
  by_cases hmisfit : kind = .internal ∧ cell.value.length ≠ 8
  · rw [if_pos hmisfit, if_pos (by simpa [misfit] using hmisfit)]
  · rw [if_neg hmisfit, if_neg (by simpa [misfit] using hmisfit)]
    exact congrArg some (congrArg (Cell.mk · _) hkey |>.trans (congrArg (Cell.mk _) hvalue))

/-- The cells of a list are read one after the other, up to the first that the node does not
take. -/
theorem readCells_eq {cells : List Cell} {slot start : Nat}
    (hslots : p.BytesAt (slotsStart + 2 * slot) (slots start cells))
    (hbytes : p.BytesAt start (cells.flatMap cellBytes)) (hstart : cellsStart ≤ start) :
    readCells p kind cellsStart slot cells.length =
      match cells.findIdx? (misfit kind) with
      | none => .ok cells
      | some i => .error (.corruptCell (slot + i)) := by
  induction cells generalizing slot start with
  | nil => rfl
  | cons cell cells ih =>
    rw [slots] at hslots
    rw [List.flatMap_cons] at hbytes
    have hcell := readCell?_eq kind hslots.left hbytes.left hstart
    rw [List.length_cons, readCells, hcell, List.findIdx?_cons]
    cases hmisfit : misfit kind cell with
    | true => rfl
    | false =>
      -- the rest of the list and the rest of the cells begin behind this one
      have hslots' := hslots.right
      have hbytes' := hbytes.right
      rw [Bytes.length_little] at hslots'
      rw [length_cellBytes, ← Nat.add_assoc] at hbytes'
      have hrest : readCells p kind cellsStart (slot + 1) cells.length =
          match cells.findIdx? (misfit kind) with
          | none => .ok cells
          | some i => .error (.corruptCell (slot + 1 + i)) := ih hslots' hbytes' (by omega)
      rw [if_neg Bool.false_ne_true, if_neg Bool.false_ne_true]
      simp only [hrest]
      cases cells.findIdx? (misfit kind) with
      | none => rfl
      | some i =>
        simp only [Option.map_some]
        rw [Nat.add_assoc, Nat.add_comm 1 i]

end Node

/-! ## Nodes -/

namespace NodeDraft

variable {d : NodeDraft}

namespace Filled

theorem length_content_le (h : d.Filled) :
    (content d.kind d.cells.toList).length ≤ pageSize := by
  have hused := h.used_le
  rwa [length_content, ← h.used_eq]

/-- Where the parts of its content stand on the page of a draft. -/
theorem bytesAt_finish (h : d.Filled) :
    d.finish.page.BytesAt 0 [d.kind.tag] ∧
      d.finish.page.BytesAt 8 (Bytes.little 2 d.cells.toList.length) ∧
      d.finish.page.BytesAt Node.slotsStart
        (slots (Node.slotsStart + 2 * d.cells.toList.length) d.cells.toList) ∧
      d.finish.page.BytesAt (Node.slotsStart + 2 * d.cells.toList.length)
        (d.cells.toList.flatMap cellBytes) := by
  have hall : (Page.ofList (content d.kind d.cells.toList)).BytesAt 0
      (content d.kind d.cells.toList) := Page.bytesAt_ofList h.length_content_le
  have hheader : (Page.header d.kind 0).length = 8 := rfl
  have hkind : (Page.ofList (content d.kind d.cells.toList)).BytesAt 0 ([d.kind.tag] ++ [0]) :=
    hall.left.left.left.left.left
  have hcount := hall.left.left.right
  have hslots := hall.left.right
  have hcells := hall.right
  simp only [List.length_append, hheader, Bytes.length_little, length_slots, Nat.zero_add]
    at hcount hslots hcells
  exact ⟨hkind.left.withChecksum_before (Nat.le_succ 1) _, hcount.withChecksum (by decide) _,
    hslots.withChecksum (by decide) _, hcells.withChecksum (by omega) _⟩

/-- The page of a draft is read back as its node, unless it is internal and a cell is no child. -/
theorem ofPage_finish (h : d.Filled) :
    Node.ofPage d.finish.page =
      match d.cells.toList.findIdx? (Node.misfit d.kind) with
      | none => .ok d.finish
      | some slot => .error (.corruptCell slot) := by
  obtain ⟨hkind, hcount, hslots, hcells⟩ := h.bytesAt_finish
  have hlist : Node.slotsStart + 2 * d.cells.toList.length ≤ pageSize := by
    have hlen := h.length_content_le
    have hsize := length_flatMap_cellBytes d.cells.toList
    rw [length_content] at hlen
    omega
  have hnumber := Node.word_of_le hcount (by omega)
  have hread : Node.readCells d.finish.page d.kind
      (Node.slotsStart + 2 * d.cells.toList.length) 0 d.cells.toList.length =
      match d.cells.toList.findIdx? (Node.misfit d.kind) with
      | none => .ok d.cells.toList
      | some slot => .error (.corruptCell (0 + slot)) :=
    Node.readCells_eq hslots hcells (Nat.le_refl _)
  simp only [Node.ofPage, hkind.kind, hnumber, if_neg (Nat.not_lt.mpr hlist), hread]
  cases d.cells.toList.findIdx? (Node.misfit d.kind) with
  | none => rfl
  | some slot =>
    simp only [Nat.zero_add]

end Filled

/-- The page of a sound draft is read back as its node. -/
theorem Sound.ofPage_finish (h : d.Sound) : Node.ofPage d.finish.page = .ok d.finish := by
  have hnone : d.cells.toList.findIdx? (Node.misfit d.kind) = none := by
    apply List.findIdx?_eq_none_iff.mpr
    intro cell hcell
    exact Node.misfit_eq_false fun hkind => h.child hkind cell hcell
  rw [h.filled.ofPage_finish, hnone]

end NodeDraft

end RangeStore
