import Mathlib.Algebra.GroupWithZero.Nat
import RangeStore.Proofs.InPlace
import RangeStore.Proofs.Tree.Writing
set_option autoImplicit false

/-! # Drafts, call by call

A draft is filled by calls, each of which puts a cell into it or is refused. A call changes the
draft in place, first the count of its bytes and then its cells, and makes all its checks before
that. So what it leaves is what `NodeDraft.push` gives, and a refused call leaves the draft as it is
(`NodeDraft.call_eq`). One call keeps the count of the bytes in order (`NodeDraft.Filled.call`), so
all calls do, and after them the draft has the cells of those that were not refused
(`NodeDraft.cells_after`). Its page is then read back as its node, as far as the kind of the node
admits these cells (`NodeDraft.roundTrip_after`). -/

namespace RangeStore

namespace NodeDraft

/-- A call that is to put a cell into a draft. -/
inductive Call where
  | push (key value : Bytes)
  | pushChild (key : Bytes) (child : PageId)

def Call.cell : Call → Cell
  | push key value => ⟨key, value⟩
  | pushChild key child => .ofChild key child

/-- Puts a cell into the draft, in place. -/
def add (cell : Cell) : InPlace NodeDraft NodeError Unit := do
  let d ← get
  if Node.maxPayload < cell.payload then throw (.cellTooLarge cell.payload)
  else if !d.fits cell.key.length cell.value.length then throw .full
  else if d.disordered cell.key then throw (.unorderedKey d.cells.size)
  else
    modify fun d => { d with used := d.used + cellSize cell.key.length cell.value.length }
    modify fun d => { d with cells := d.cells.push cell }

/-- What a call returns, and the draft after it. -/
def call (d : NodeDraft) (c : Call) : Except NodeError Unit × NodeDraft := (add c.cell).on d

def after (d : NodeDraft) : List Call → NodeDraft
  | [] => d
  | c :: rest => after (d.call c).2 rest

/-- The cells of the calls that are not refused, in order. -/
def accepted (d : NodeDraft) : List Call → List Cell
  | [] => []
  | c :: rest =>
    match d.call c with
    | (.error _, next) => accepted next rest
    | (.ok (), next) => c.cell :: accepted next rest

/-- The draft with a cell more, which takes its lengths and six bytes. -/
def appended (d : NodeDraft) (cell : Cell) : NodeDraft :=
  { d with
    cells := d.cells.push cell
    used := d.used + (6 + cell.key.length + cell.value.length) }

variable {d : NodeDraft}

/-! ## One call -/

/-- All checks come before the first change, and between the two changes nothing can fail. -/
theorem call_eq (d : NodeDraft) (c : Call) :
    d.call c =
      match d.push c.cell with
      | .error e => (.error e, d)
      | .ok filled => (.ok (), filled) := by
  rw [call, add, InPlace.on_get_bind, push]
  by_cases hlarge : Node.maxPayload < c.cell.payload
  · rw [if_pos hlarge, if_pos hlarge]
    rfl
  · rw [if_neg hlarge, if_neg hlarge]
    by_cases hfull : !d.fits c.cell.key.length c.cell.value.length
    · rw [if_pos hfull, if_pos hfull]
      rfl
    · rw [if_neg hfull, if_neg hfull]
      by_cases hdisordered : d.disordered c.cell.key
      · rw [if_pos hdisordered, if_pos hdisordered]
        rfl
      · rw [if_neg hdisordered, if_neg hdisordered]
        -- the two changes together are the one that `push` makes
        rfl

/-- A call is refused and changes nothing, or appends its cell. -/
theorem call_cases (d : NodeDraft) (c : Call) :
    (∃ e, d.call c = (.error e, d)) ∨ d.call c = (.ok (), d.appended c.cell) := by
  rw [call_eq]
  cases hpush : d.push c.cell with
  | error e => exact Or.inl ⟨e, rfl⟩
  | ok filled =>
    obtain ⟨-, rfl⟩ := push_eq_ok hpush
    exact Or.inr rfl

theorem kind_call (d : NodeDraft) (c : Call) : (d.call c).2.kind = d.kind := by
  rcases d.call_cases c with ⟨e, h⟩ | h
  · rw [h]
  · rw [h]
    rfl

theorem Filled.call (h : d.Filled) (c : Call) : (d.call c).2.Filled := by
  rw [call_eq]
  cases hpush : d.push c.cell with
  | error e => exact h
  | ok filled => exact h.push hpush

/-! ## All calls -/

theorem kind_after (d : NodeDraft) (calls : List Call) : (d.after calls).kind = d.kind := by
  induction calls generalizing d with
  | nil => rfl
  | cons c calls ih => rw [after, ih, kind_call]

theorem Filled.after (h : d.Filled) (calls : List Call) : (d.after calls).Filled := by
  induction calls generalizing d with
  | nil => exact h
  | cons c calls ih => exact ih (h.call c)

/-- The accepted cells come behind those that were there. -/
theorem cells_after (d : NodeDraft) (calls : List Call) :
    (d.after calls).cells.toList = d.cells.toList ++ d.accepted calls := by
  induction calls generalizing d with
  | nil => exact (List.append_nil _).symm
  | cons c calls ih =>
    rw [after, accepted, ih]
    rcases d.call_cases c with ⟨e, h⟩ | h
    · simp only [h]
    · simp only [h, appended, Array.toList_push, List.append_assoc, List.singleton_append]

theorem cellsSize_eq_sum (cells : List Cell) :
    cellsSize cells = (cells.map fun c => 6 + c.key.length + c.value.length).sum := by
  induction cells with
  | nil => rfl
  | cons c cells ih =>
    rw [cellsSize, ih, List.map_cons, List.sum_cons]
    rfl

/-- A leaf admits all cells, and an internal node those whose value is as long as a page id. -/
theorem findIdx?_misfit_eq_none {kind : NodeKind} {cells : List Cell}
    (h : kind = .leaf ∨ ∀ cell ∈ cells, cell.value.length = 8) :
    cells.findIdx? (Node.misfit kind) = none := by
  apply List.findIdx?_eq_none_iff.mpr
  intro cell hcell
  apply Node.misfit_eq_false
  intro hinternal
  rcases h with hleaf | hall
  · rw [hinternal] at hleaf
    contradiction
  · exact hall cell hcell

/-- Node pages are read back. A draft is made by calls with any keys, values and children. Each call
is refused and leaves the draft as it is, or appends its cell, and is refused just when `push` is.
The draft has the kind that it had from the start, the accepted cells, and counts the bytes that
these take, never more than a page has. Its page can be written piece by piece, with no piece
outside it, and carries its checksum. It is read back as a node of the same kind with just these
cells if the node is a leaf or all their values are as long as a page id, and otherwise the first
one that is not is what is reported. -/
theorem roundTrip_after (kind : NodeKind) (calls : List Call) :
    let d := NodeDraft.after { kind := kind } calls
    let cells := accepted { kind := kind } calls
    (∀ c, (∃ e, d.call c = (.error e, d)) ∨ d.call c = (.ok (), d.appended c.cell)) ∧
    (∀ c, (∀ e, d.push c.cell = .error e → d.call c = (.error e, d)) ∧
      ∀ filled, d.push c.cell = .ok filled → d.call c = (.ok (), filled)) ∧
    d.kind = kind ∧ d.cells.toList = cells ∧
    d.used = 10 + (cells.map fun c => 6 + c.key.length + c.value.length).sum ∧ d.used ≤ 8192 ∧
    written kind cells = some d.finish.page ∧ d.finish.page.verify = .ok () ∧
    ((kind = .leaf ∨ ∀ cell ∈ cells, cell.value.length = 8) →
      Node.ofPage d.finish.page = .ok ⟨kind, cells.toArray, d.finish.page⟩) ∧
    ∀ before cell behind, kind = .internal → cells = before ++ cell :: behind →
      (∀ c ∈ before, c.value.length = 8) → cell.value.length ≠ 8 →
        Node.ofPage d.finish.page = .error (.corruptCell before.length) := by
  intro d cells
  have hfilled : d.Filled := (filled_empty kind).after calls
  have hkind : d.kind = kind := kind_after _ calls
  have hcells : d.cells.toList = cells := cells_after _ calls
  have hread := hfilled.ofPage_finish
  rw [hkind, hcells] at hread
  refine ⟨d.call_cases, fun c => ⟨fun e hpush => ?_, fun filled hpush => ?_⟩, hkind, hcells, ?_,
    hfilled.used_le, ?_, ?_, ?_, ?_⟩
  · rw [call_eq, hpush]
  · rw [call_eq, hpush]
  · rw [hfilled.used_eq, hcells, cellsSize_eq_sum]
    rfl
  · rw [← hfilled.written_eq, hkind, hcells]
  · exact if_pos (Page.storedChecksum_sealed _)
  · intro hfit
    rw [findIdx?_misfit_eq_none hfit] at hread
    rw [hread, finish, hkind, ← hcells]
  · rintro before cell behind rfl hsplit hbefore hcell
    have hmisfit : Node.misfit .internal cell = true := by simpa [Node.misfit] using hcell
    have hfirst : cells.findIdx? (Node.misfit .internal) = some before.length := by
      rw [hsplit, List.findIdx?_append, findIdx?_misfit_eq_none (Or.inr hbefore),
        List.findIdx?_cons, if_pos hmisfit]
      simp
    rw [hfirst] at hread
    exact hread

/-- The second of these cells is too short for a page id, and the third call comes too late. -/
theorem roundTrip_after_misfit :
    let d := NodeDraft.after { kind := .internal }
      [.pushChild [0x61] 1, .push [0x62] [0], .push [0x61] [0]]
    d.cells.toList = [.ofChild [0x61] 1, ⟨[0x62], [0]⟩] ∧
      Node.ofPage d.finish.page = .error (.corruptCell 1) := by
  obtain ⟨-, -, -, hcells, -, -, -, -, -, hmisfit⟩ := roundTrip_after .internal
    [.pushChild [0x61] 1, .push [0x62] [0], .push [0x61] [0]]
  refine ⟨hcells, hmisfit [.ofChild [0x61] 1] ⟨[0x62], [0]⟩ [] rfl rfl ?_ (by decide)⟩
  intro c hc
  rw [List.mem_singleton.mp hc]
  rfl

end NodeDraft

end RangeStore
