import RangeStore.Tree.Cursor
set_option autoImplicit false

/-! # One step in either direction

`next` and `prev` do the same: they carry to the first level whose slot can move, and from there go
down along the near edge of the next subtree (`Cursor.step_eq`). What a carry gives is said once for
both directions (`Direction.carry_eq_some`). -/

namespace RangeStore

namespace Direction

variable (d : Direction)

/-- The end of a subtree at which a step in this direction enters it. -/
def edge : Edge :=
  match d with
  | ascending => .first
  | descending => .last

/-- The slot that comes after the one of a frame, in this direction. -/
def beside (frame : Frame) : Option Nat :=
  match d with
  | ascending => if frame.slot + 1 < frame.node.size then some (frame.slot + 1) else none
  | descending => if 0 < frame.slot then some (frame.slot - 1) else none

/-- Counts by one, leaving out the levels below the one that moved. -/
def carry : List Frame → Option (List Frame) :=
  match d with
  | ascending => Cursor.carryUp
  | descending => Cursor.carryDown

variable {d} {frame : Frame} {frames above : List Frame}

theorem carry_nil : d.carry [] = none := by
  cases d <;> rfl

theorem carry_cons : d.carry (frame :: above) =
    match d.beside frame with
    | some slot => some ({ frame with slot := slot } :: above)
    | none => d.carry above := by
  cases d with
  | ascending =>
    simp only [carry, Cursor.carryUp, beside]
    split <;> rfl
  | descending =>
    simp only [carry, Cursor.carryDown, beside]
    split <;> rfl

theorem beside_lt {slot : Nat} (h : d.beside frame = some slot)
    (hslot : frame.slot < frame.node.size) : slot < frame.node.size := by
  cases d with
  | ascending =>
    simp only [beside] at h
    split at h
    · cases Option.some.inj h
      assumption
    · contradiction
  | descending =>
    simp only [beside] at h
    split at h
    · cases Option.some.inj h
      omega
    · contradiction

/-- A carry takes one of the frames, moves its slot and leaves out the frames below. -/
theorem carry_eq_some {path : List Frame} (h : d.carry frames = some path) :
    ∃ below frame slot above, frames = below ++ frame :: above ∧ d.beside frame = some slot ∧
      path = { frame with slot := slot } :: above := by
  induction frames with
  | nil =>
    rw [carry_nil] at h
    contradiction
  | cons lowest frames ih =>
    rw [carry_cons] at h
    split at h
    · next slot hslot => exact ⟨[], lowest, slot, frames, rfl, hslot, (Option.some.inj h).symm⟩
    · obtain ⟨below, frame, slot, above, hframes, hslot, hpath⟩ := ih h
      exact ⟨lowest :: below, frame, slot, above, by rw [hframes, List.cons_append], hslot, hpath⟩

end Direction

namespace Edge

theorem slot_lt (e : Edge) {n : Node} (h : n.size ≠ 0) : e.slot n < n.size := by
  cases e with
  | first => exact Nat.pos_of_ne_zero h
  | last => exact Nat.sub_lt (Nat.pos_of_ne_zero h) Nat.one_pos

end Edge

namespace Cursor

theorem step_eq (s : NodeSource) (d : Direction) (c : Cursor) : c.step s d =
    if c.valid then
      match d.carry c.path with
      | Option.none => (.ok (), none)
      | some path => descend s d.edge s.descentBound path
    else (.ok (), c) := by
  cases d <;> rfl

end Cursor

end RangeStore
