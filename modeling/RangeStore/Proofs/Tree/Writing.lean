import RangeStore.Proofs.Tree.Image
set_option autoImplicit false

/-! # Writing a page piece by piece

The page of a draft can be written in place: the header, the number of cells, and then for each cell
its position in the list, its two lengths, its key and its value. What is written last always lies
at the end, and the list was left free for the positions, so no piece comes over another; and no
piece leaves the page, even where the draft takes it up to the last byte
(`NodeDraft.Filled.written_eq`). -/

namespace RangeStore

namespace Page

/-- A page ends in zeros anyway. -/
theorem ofList_append_zeros (bytes : Bytes) (n : Nat) :
    ofList (bytes ++ List.replicate n 0) = ofList bytes := by
  apply ext_toList
  rw [toList_ofList, toList_ofList, List.append_assoc, List.replicate_append_replicate,
    List.take_append, List.take_append, List.take_replicate, List.take_replicate]
  congr 2
  omega

/-- Bytes come in the place of as many others. -/
theorem write?_ofList {a b c new : Bytes} (hnew : new.length = b.length)
    (hle : (a ++ b ++ c).length ≤ pageSize) :
    (ofList (a ++ b ++ c)).write? a.length new = some (ofList (a ++ new ++ c)) := by
  have hall : (ofList (a ++ b ++ c)).toList =
      a ++ (b ++ (c ++ List.replicate (pageSize - (a ++ b ++ c).length) 0)) := by
    rw [toList_ofList, List.take_append, List.take_of_length_le hle, List.take_replicate,
      Nat.min_eq_left (Nat.sub_le _ _)]
    simp only [List.append_assoc]
  simp only [List.length_append] at hle
  rw [write?, if_pos (by omega), splice, hall, List.take_left, hnew, ← List.drop_drop,
    List.drop_left, List.drop_left, ← List.append_assoc, ofList_append_zeros]

/-- Bytes come behind the others. -/
theorem write?_ofList_end {a new : Bytes} {offset : Nat} (hoffset : offset = a.length)
    (hle : (a ++ new).length ≤ pageSize) :
    (ofList a).write? offset new = some (ofList (a ++ new)) := by
  have hzeros : (a ++ List.replicate new.length 0 ++ []).length ≤ pageSize := by
    simpa using hle
  have hwrite := write?_ofList (List.length_replicate ..).symm hzeros
  rwa [List.append_nil, List.append_nil, ofList_append_zeros, ← hoffset] at hwrite

end Page

namespace NodeDraft

/-- Writes the lengths of a cell, its key and its value. -/
def writeCell (p : Page) (offset : Nat) (cell : Cell) : Option Page := do
  let p ← p.write? offset (Bytes.little 2 cell.key.length)
  let p ← p.write? (offset + 2) (Bytes.little 2 cell.value.length)
  let p ← p.write? (offset + Node.cellHeader) cell.key
  p.write? (offset + Node.cellHeader + cell.key.length) cell.value

/-- Writes cells one behind the other, and where each lies in the list of positions. -/
def writeCells (p : Page) (slot offset : Nat) : List Cell → Option Page
  | [] => some p
  | cell :: rest => do
    let p ← p.write? (Node.slotsStart + 2 * slot) (Bytes.little 2 offset)
    let p ← writeCell p offset cell
    writeCells p (slot + 1) (offset + Node.cellHeader + cell.payload) rest

/-- Writes the page of a node, if each piece stays on it. -/
def written (kind : NodeKind) (cells : List Cell) : Option Page := do
  let p ← Page.zero.write? 0 (Page.header kind 0)
  let p ← p.write? 8 (Bytes.little 2 cells.length)
  let p ← writeCells p 0 (Node.slotsStart + 2 * cells.length) cells
  return p.sealed

/-- A cell is written behind what is there. -/
theorem writeCell_eq {bytes : Bytes} {offset : Nat} {cell : Cell} (hoffset : offset = bytes.length)
    (hle : (bytes ++ cellBytes cell).length ≤ pageSize) :
    writeCell (Page.ofList bytes) offset cell = some (Page.ofList (bytes ++ cellBytes cell)) := by
  rw [cellBytes, ← List.append_assoc, ← List.append_assoc, ← List.append_assoc] at hle ⊢
  have htwo (n : Nat) : (Bytes.little 2 n).length = 2 := Bytes.length_little 2 n
  have hlengths := hle
  simp only [List.length_append, htwo] at hlengths
  -- each of the pieces is written where those before it end
  have hkeyLength : (Page.ofList bytes).write? offset (Bytes.little 2 cell.key.length) =
      some (Page.ofList (bytes ++ Bytes.little 2 cell.key.length)) := by
    apply Page.write?_ofList_end hoffset
    rw [List.length_append, htwo]
    omega
  have hvalueLength : (Page.ofList (bytes ++ Bytes.little 2 cell.key.length)).write? (offset + 2)
      (Bytes.little 2 cell.value.length) = some (Page.ofList
        (bytes ++ Bytes.little 2 cell.key.length ++ Bytes.little 2 cell.value.length)) := by
    apply Page.write?_ofList_end
    · rw [List.length_append, htwo, hoffset]
    · simp only [List.length_append, htwo]
      omega
  have hkey : (Page.ofList (bytes ++ Bytes.little 2 cell.key.length ++
      Bytes.little 2 cell.value.length)).write? (offset + Node.cellHeader) cell.key =
        some (Page.ofList (bytes ++ Bytes.little 2 cell.key.length ++
          Bytes.little 2 cell.value.length ++ cell.key)) := by
    apply Page.write?_ofList_end
    · simp only [List.length_append, htwo, hoffset, Node.cellHeader]
    · simp only [List.length_append, htwo]
      omega
  simp only [writeCell, hkeyLength, hvalueLength, hkey, Option.bind_eq_bind, Option.bind_some]
  apply Page.write?_ofList_end _ hle
  simp only [List.length_append, htwo, hoffset, Node.cellHeader]

/-- The positions come in the place that was left for them, and the cells at the end. -/
theorem writeCells_eq {cells : List Cell} {front back : Bytes} {slot offset : Nat}
    (hfront : front.length = Node.slotsStart + 2 * slot)
    (hoffset : offset = (front ++ List.replicate (2 * cells.length) 0 ++ back).length)
    (hle : offset + (cells.flatMap cellBytes).length ≤ pageSize) :
    writeCells (Page.ofList (front ++ List.replicate (2 * cells.length) 0 ++ back)) slot offset
        cells =
      some (Page.ofList (front ++ slots offset cells ++ (back ++ cells.flatMap cellBytes))) := by
  induction cells generalizing front back slot offset with
  | nil =>
    rw [List.flatMap_nil, List.append_nil]
    rfl
  | cons cell cells ih =>
    have htwo : (Bytes.little 2 offset).length = 2 := Bytes.length_little 2 offset
    have hfree : List.replicate (2 * (cell :: cells).length) (0 : UInt8) =
        [0, 0] ++ List.replicate (2 * cells.length) 0 := by
      rw [List.length_cons, Nat.mul_succ, Nat.add_comm, ← List.replicate_append_replicate]
      rfl
    rw [hfree, ← List.append_assoc] at hoffset ⊢
    rw [List.flatMap_cons, List.length_append] at hle
    have hplaced : (Page.ofList (front ++ [0, 0] ++ List.replicate (2 * cells.length) 0 ++
        back)).write? (Node.slotsStart + 2 * slot) (Bytes.little 2 offset) = some (Page.ofList
          (front ++ Bytes.little 2 offset ++ List.replicate (2 * cells.length) 0 ++ back)) := by
      rw [← hfront, List.append_assoc, List.append_assoc (front ++ Bytes.little 2 offset)]
      apply Page.write?_ofList htwo
      rw [← List.append_assoc, ← hoffset]
      omega
    have hsame : (front ++ [0, 0] ++ List.replicate (2 * cells.length) 0 ++ back).length =
        (front ++ Bytes.little 2 offset ++ List.replicate (2 * cells.length) 0 ++ back).length := by
      simp only [List.length_append, htwo]
      rfl
    have hend := hoffset.trans hsame
    have hcell : writeCell (Page.ofList (front ++ Bytes.little 2 offset ++
        List.replicate (2 * cells.length) 0 ++ back)) offset cell = some (Page.ofList
          (front ++ Bytes.little 2 offset ++ List.replicate (2 * cells.length) 0 ++
            (back ++ cellBytes cell))) := by
      rw [← List.append_assoc _ back]
      apply writeCell_eq hend
      rw [List.length_append, ← hend]
      omega
    have hrest : writeCells (Page.ofList (front ++ Bytes.little 2 offset ++
        List.replicate (2 * cells.length) 0 ++ (back ++ cellBytes cell))) (slot + 1)
          (offset + Node.cellHeader + cell.payload) cells = some (Page.ofList
            (front ++ Bytes.little 2 offset ++
              slots (offset + Node.cellHeader + cell.payload) cells ++
              (back ++ cellBytes cell ++ cells.flatMap cellBytes))) := by
      rw [length_cellBytes] at hle
      apply ih
      · rw [List.length_append, htwo, hfront, Nat.mul_succ, Nat.add_assoc]
      · rw [← List.append_assoc, List.length_append, ← hend, length_cellBytes, Nat.add_assoc]
      · omega
    rw [writeCells, hplaced, Option.bind_eq_bind, Option.bind_some, hcell, Option.bind_some,
      hrest, slots, List.flatMap_cons]
    simp only [List.append_assoc]

/-- Written piece by piece, the page of a draft is the one that `finish` lays out. -/
theorem Filled.written_eq {d : NodeDraft} (h : d.Filled) :
    written d.kind d.cells.toList = some d.finish.page := by
  have hle := h.length_content_le
  have hheader : (Page.header d.kind 0).length = 8 := rfl
  have htwo : (Bytes.little 2 d.cells.toList.length).length = 2 := Bytes.length_little 2 _
  have hlengths := hle
  simp only [content, List.length_append, hheader, htwo, length_slots] at hlengths
  have hfront : (Page.header d.kind 0 ++ Bytes.little 2 d.cells.toList.length).length =
      Node.slotsStart + 2 * 0 := by
    rw [List.length_append, hheader, htwo]
    rfl
  have hfirst : Page.zero.write? 0 (Page.header d.kind 0) =
      some (Page.ofList (Page.header d.kind 0)) :=
    Page.write?_ofList_end (a := []) rfl (by rw [List.nil_append, hheader]; decide)
  have hcount : (Page.ofList (Page.header d.kind 0)).write? 8
      (Bytes.little 2 d.cells.toList.length) = some (Page.ofList
        (Page.header d.kind 0 ++ Bytes.little 2 d.cells.toList.length)) :=
    Page.write?_ofList_end hheader.symm (by rw [List.length_append, hheader, htwo]; decide)
  -- the list of positions is zero before it is written, as is the rest of the page
  have hcells : writeCells (Page.ofList (Page.header d.kind 0 ++
      Bytes.little 2 d.cells.toList.length ++ List.replicate (2 * d.cells.toList.length) 0 ++ []))
        0 (Node.slotsStart + 2 * d.cells.toList.length) d.cells.toList =
      some (Page.ofList (Page.header d.kind 0 ++ Bytes.little 2 d.cells.toList.length ++
        slots (Node.slotsStart + 2 * d.cells.toList.length) d.cells.toList ++
          ([] ++ d.cells.toList.flatMap cellBytes))) := by
    apply writeCells_eq hfront
    · rw [List.append_nil, List.length_append, hfront, List.length_replicate]
      rfl
    · rw [Node.slotsStart]
      omega
  rw [List.append_nil, Page.ofList_append_zeros, List.nil_append] at hcells
  simp only [written, hfirst, hcount, hcells, Option.bind_eq_bind, Option.bind_some]
  rfl

end NodeDraft

end RangeStore
