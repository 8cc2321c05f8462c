import RangeStore.Proofs.Tree.Runs
import RangeStore.Proofs.Tree.Stepping
import Mathlib.Logic.Relation
set_option autoImplicit false

/-! # Descents and walks that end

Nothing keeps a descent from coming back to a node that it has passed; it would then go round for
ever. Here the child pointers that can be followed from a page form no cycle
(`NodeSource.Acyclic`). The nodes may be anything else: pointers may lead to pages that are missing
or to one page from several sides, keys may stand in any order, and any fetch may fail.

As a source has only so many nodes, no way down from the page passes more (`Acyclic.endsWithin`), so
every descent ends (`EndsWithin.descendLE_ends`, `EndsWithin.descend_ends`). A walk ends as well.
The slots of a cursor are the digits of a number that a step counts down, each weighed by what may
stand below it (`Cursor.left`, `Level.step`), and at the start this number is below the bound that
the walk is given (`Level.left_lt_walkBound`). -/

namespace RangeStore

open Relation

namespace NodeSource

variable (s : NodeSource)

/-- The node of one page names the other as a child. -/
def Points (parent child : PageId) : Prop :=
  ∃ n slot, s.fetch parent = .ok n ∧ n.child? slot = some child

/-- No page that can be reached from the root can be reached from itself. -/
def Acyclic (root : PageId) : Prop :=
  ∀ id, ReflTransGen s.Points root id → ¬ TransGen s.Points id id

/-- No way down from a page has more than so many nodes. -/
def EndsWithin : Nat → PageId → Prop
  | 0, id => ∀ n, s.fetch id ≠ .ok n
  | levels + 1, id => ∀ n, s.fetch id = .ok n → ∀ slot child, n.child? slot = some child →
      EndsWithin levels child

variable {s} {root id : PageId}

theorem length_le_extent {ids : List PageId} (hnodup : ids.Nodup)
    (hfetch : ∀ id ∈ ids, ∃ n, s.fetch id = .ok n) : ids.length ≤ s.extent := by
  obtain ⟨known, hlength, hmem⟩ := s.exists_ids
  refine Nat.le_trans (List.Nodup.length_le_of_subset hnodup fun id hid => ?_) hlength
  obtain ⟨n, hn⟩ := hfetch id hid
  exact hmem hn

/-- The pages passed on the way to a page are all different, so their number and that of the levels
to come are bounded together. -/
theorem Acyclic.endsWithin_of_passed (h : s.Acyclic root) (hreach : ReflTransGen s.Points root id)
    {passed : List PageId} (hnodup : passed.Nodup)
    (hpassed : ∀ x ∈ passed, (∃ n, s.fetch x = .ok n) ∧ TransGen s.Points x id) {levels : Nat}
    (hlevels : s.extent = passed.length + levels) : s.EndsWithin levels id := by
  have hnew : id ∉ passed := fun hmem => h id hreach (hpassed id hmem).2
  have hnodup' : (id :: passed).Nodup := List.nodup_cons.mpr ⟨hnew, hnodup⟩
  induction levels generalizing id passed with
  | zero =>
    -- one page more than the source has nodes
    intro n hn
    have hlength := length_le_extent hnodup' fun x hx => by
      rcases List.mem_cons.mp hx with rfl | hx
      · exact ⟨n, hn⟩
      · exact (hpassed x hx).1
    rw [List.length_cons] at hlength
    omega
  | succ levels ih =>
    intro n hn slot child hchild
    have hpoints : s.Points id child := ⟨n, slot, hn, hchild⟩
    have hreach' := hreach.tail hpoints
    have hpassed' : ∀ x ∈ id :: passed, (∃ n, s.fetch x = .ok n) ∧ TransGen s.Points x child := by
      intro x hx
      rcases List.mem_cons.mp hx with rfl | hx
      · exact ⟨⟨n, hn⟩, .single hpoints⟩
      · exact ⟨(hpassed x hx).1, (hpassed x hx).2.tail hpoints⟩
    have hnew' : child ∉ id :: passed := fun hmem => h child hreach' (hpassed' child hmem).2
    refine ih hreach' hnodup' hpassed' ?_ hnew' (List.nodup_cons.mpr ⟨hnew', hnodup'⟩)
    rw [List.length_cons]
    omega

/-- Without a cycle a way down has at most as many nodes as the source. -/
theorem Acyclic.endsWithin (h : s.Acyclic root) : s.EndsWithin s.extent root :=
  h.endsWithin_of_passed .refl List.nodup_nil (fun _ hx => absurd hx List.not_mem_nil)
    (Nat.zero_add _).symm

/-- A node takes one of the levels. -/
theorem EndsWithin.child {levels : Nat} {n : Node} (h : s.EndsWithin levels id)
    (hn : s.fetch id = .ok n) {slot : Nat} {child : PageId} (hchild : n.child? slot = some child) :
    ∃ below, levels = below + 1 ∧ s.EndsWithin below child := by
  cases levels with
  | zero => exact absurd hn (h n)
  | succ below => exact ⟨below, rfl, h n hn slot child hchild⟩

theorem EndsWithin.pos {levels : Nat} {n : Node} (h : s.EndsWithin levels id)
    (hn : s.fetch id = .ok n) : 0 < levels := by
  cases levels with
  | zero => exact absurd hn (h n)
  | succ below => exact Nat.succ_pos below

/-- The store itself never gives the mark of a way down without end. -/
def NeverEndless (s : NodeSource) : Prop := ∀ id, s.fetch id ≠ .error .endless

end NodeSource

theorem Node.slot_lt_of_child? (n : Node) {slot : Nat} {child : PageId}
    (h : n.child? slot = some child) : slot < n.size := by
  rw [Node.child?] at h
  split at h
  · contradiction
  · obtain ⟨cell, hcell, -⟩ := Option.bind_eq_some_iff.mp h
    obtain ⟨hlt, -⟩ := Array.getElem?_eq_some_iff.mp hcell
    exact hlt

/-! ## Runs under a bound -/

/-- With so many units or more a bounded run always comes to the same result, and this is none that
the bound has cut off. -/
def Ends {α : Type} (cut : α → Prop) (run : Nat → α) (units : Nat) : Prop :=
  ∃ result, ¬ cut result ∧ ∀ bound, units ≤ bound → run bound = result

namespace Ends

variable {α : Type} {cut : α → Prop} {run : Nat → α} {units : Nat}

theorem const {result : α} (h : ¬ cut result) : Ends cut (fun _ => result) units :=
  ⟨result, h, fun _ _ => rfl⟩

/-- A run that spends a unit on its first step needs one more than what it does then. -/
theorem succ (h : Ends cut (fun bound => run (bound + 1)) units) : Ends cut run (units + 1) := by
  obtain ⟨result, hcut, hall⟩ := h
  refine ⟨result, hcut, fun bound hbound => ?_⟩
  obtain ⟨bound, rfl⟩ := Nat.exists_eq_add_of_le' (Nat.le_trans (Nat.le_add_left 1 units) hbound)
  exact hall bound (Nat.le_of_succ_le_succ hbound)

theorem not_cut (h : Ends cut run units) {bound : Nat} (hbound : units ≤ bound) :
    ¬ cut (run bound) := by
  obtain ⟨result, hcut, hall⟩ := h
  rwa [hall bound hbound]

end Ends

/-! ## Descents -/

namespace NodeSource

variable {s : NodeSource} {id : PageId} {levels : Nat}

/-- A descent from a page ends within one fetch more than there are levels below it. -/
theorem EndsWithin.descendLE_ends (hs : s.NeverEndless) (key : Bytes) (h : s.EndsWithin levels id)
    (above : List Frame) :
    Ends (· = .error .endless) (fun bound => Cursor.descendLE s key bound id above)
      (levels + 1) := by
  induction levels generalizing id above with
  | zero =>
    refine .succ ?_
    simp only [Cursor.descendLE]
    cases hn : s.fetch id with
    | error e => exact .const fun he => hs id (Except.error.inj he ▸ hn)
    | ok n => exact absurd hn (h n)
  | succ levels ih =>
    refine .succ ?_
    simp only [Cursor.descendLE]
    cases hn : s.fetch id with
    | error e => exact .const fun he => hs id (Except.error.inj he ▸ hn)
    | ok n =>
      simp only
      split
      · split <;> exact .const (by simp)
      · split
        · exact .const (by simp)
        · cases hchild : n.child? (n.lookupLE key) with
          | none => exact .const (by simp)
          | some child => exact ih (h n hn _ child hchild) _

/-- The same of a descent along an edge, from a frame that may have the page as its child. -/
theorem EndsWithin.descend_ends (hs : s.NeverEndless) (edge : Edge) {frame : Frame}
    (h : ∀ id, frame.node.child? frame.slot = some id → s.EndsWithin levels id)
    (above : List Frame) :
    Ends (·.1 = .error .endless) (fun bound => Cursor.descend s edge bound (frame :: above))
      (levels + 1) := by
  induction levels generalizing frame above with
  | zero =>
    refine .succ ?_
    simp only [Cursor.descend]
    split
    · exact .const (by simp)
    · cases hid : frame.node.child? frame.slot with
      | none => exact .const (by simp)
      | some id =>
        simp only
        cases hn : s.fetch id with
        | error e => exact .const fun he => hs id (Except.error.inj he ▸ hn)
        | ok n => exact absurd hn (h id hid n)
  | succ levels ih =>
    refine .succ ?_
    simp only [Cursor.descend]
    split
    · exact .const (by simp)
    · cases hid : frame.node.child? frame.slot with
      | none => exact .const (by simp)
      | some id =>
        simp only
        cases hn : s.fetch id with
        | error e => exact .const fun he => hs id (Except.error.inj he ▸ hn)
        | ok n =>
          simp only
          split
          · exact .const (by simp)
          · exact ih (h id hid n hn _) _

end NodeSource

/-! ## What is left of a walk -/

namespace NodeSource

/-- The most entries that may stand below a node with so many levels. -/
def spread (s : NodeSource) (levels : Nat) : Nat := Nat.pow s.capacity levels

variable {s : NodeSource}

theorem spread_succ (levels : Nat) : s.spread (levels + 1) = s.capacity * s.spread levels :=
  Nat.pow_succ'

theorem spread_pos (h : 0 < s.capacity) (levels : Nat) : 0 < s.spread levels :=
  Nat.pow_pos h

theorem spread_mono (h : 0 < s.capacity) {levels more : Nat} (hle : levels ≤ more) :
    s.spread levels ≤ s.spread more :=
  Nat.pow_le_pow_right h hle

end NodeSource

namespace Direction

/-- The number of slots that come after the one of a frame. -/
def remaining (d : Direction) (frame : Frame) : Nat :=
  match d with
  | ascending => frame.node.size - 1 - frame.slot
  | descending => frame.slot

variable {d : Direction} {frame : Frame}

theorem remaining_beside {slot : Nat} (h : d.beside frame = some slot) :
    d.remaining { frame with slot := slot } + 1 = d.remaining frame := by
  cases d with
  | ascending =>
    simp only [beside] at h
    split at h
    · cases Option.some.inj h
      simp only [remaining]
      omega
    · contradiction
  | descending =>
    simp only [beside] at h
    split at h
    · cases Option.some.inj h
      simp only [remaining]
      omega
    · contradiction

theorem remaining_edge (d : Direction) (n : Node) :
    d.remaining ⟨n, d.edge.slot n⟩ = n.size - 1 := by
  cases d <;> rfl

theorem remaining_le (hslot : frame.slot < frame.node.size) :
    d.remaining frame ≤ frame.node.size := by
  cases d with
  | ascending =>
    simp only [remaining]
    omega
  | descending => exact Nat.le_of_lt hslot

end Direction

namespace Cursor

variable {s : NodeSource}

/-- Below each frame there are only so many levels that all nodes of the source together are
enough. -/
inductive Shallow (s : NodeSource) : List Frame → Prop where
  | nil : Shallow s []
  | cons {frame : Frame} {above : List Frame} {id : PageId} (h : Shallow s above)
      (hfetch : s.fetch id = .ok frame.node)
      (hends : s.EndsWithin (s.extent - above.length) id)
      (hslot : frame.slot < frame.node.size) : Shallow s (frame :: above)

/-- The number that the slots write, counted from the end of the walk: each is weighed by the number
of entries that may stand below it. -/
def left (s : NodeSource) (d : Direction) : List Frame → Nat
  | [] => 0
  | frame :: above =>
    d.remaining frame * s.spread (s.extent - above.length - 1) + left s d above

variable {d : Direction} {frame : Frame} {above : List Frame}

theorem Shallow.append_right {below : List Frame} (h : Shallow s (below ++ above)) :
    Shallow s above := by
  induction below with
  | nil => exact h
  | cons frame below ih =>
    cases h with
    | cons h => exact ih h

theorem left_append_le (below : List Frame) : left s d above ≤ left s d (below ++ above) := by
  induction below with
  | nil => exact Nat.le_refl _
  | cons frame below ih =>
    rw [List.cons_append, left]
    exact Nat.le_trans ih (Nat.le_add_left _ _)

/-- The child below a frame comes from a page above fewer levels. -/
theorem Shallow.child (h : Shallow s (frame :: above)) {id : PageId}
    (hid : frame.node.child? frame.slot = some id) :
    s.EndsWithin (s.extent - (frame :: above).length) id := by
  cases h with
  | cons h hfetch hends _ =>
    obtain ⟨below, hlevels, hbelow⟩ := hends.child hfetch hid
    have heq : below = s.extent - (frame :: above).length := by
      rw [List.length_cons]
      omega
    exact heq ▸ hbelow

theorem Shallow.capacity_pos (h : Shallow s (frame :: above)) : 0 < s.capacity := by
  cases h with
  | cons _ hfetch _ hslot =>
    exact Nat.lt_of_lt_of_le (Nat.zero_lt_of_lt hslot) (s.size_le_capacity hfetch)

/-- The number has at most one place of the heaviest weight for each cell on the way. -/
theorem Shallow.left_le {path : List Frame} (h : Shallow s path) :
    left s d path ≤ cellsIn path * s.spread s.extent := by
  induction h with
  | nil => exact Nat.zero_le _
  | @cons frame above id habove hfetch hends hslot ih =>
    have hframe : Shallow s (frame :: above) := .cons habove hfetch hends hslot
    have hweight : s.spread (s.extent - above.length - 1) ≤ s.spread s.extent :=
      NodeSource.spread_mono hframe.capacity_pos (by omega)
    rw [left, cellsIn, Nat.add_mul]
    exact Nat.add_le_add (Nat.mul_le_mul (Direction.remaining_le hslot) hweight) ih

/-- To enter a node at its near edge takes no more from the number than the place that it fills. -/
theorem left_enter_le {n : Node} {path : List Frame} (hsize : n.size ≠ 0)
    (hcapacity : n.size ≤ s.capacity) (hlength : path.length < s.extent) :
    left s d (⟨n, d.edge.slot n⟩ :: path) + s.spread (s.extent - path.length - 1) ≤
      left s d path + s.spread (s.extent - path.length) := by
  obtain ⟨levels, hlevels⟩ : ∃ levels, s.extent - path.length = levels + 1 :=
    ⟨s.extent - path.length - 1, by omega⟩
  have hpower : (n.size - 1) * s.spread levels + s.spread levels ≤ s.spread (levels + 1) := by
    calc (n.size - 1) * s.spread levels + s.spread levels
        = n.size * s.spread levels := by
          rw [← Nat.succ_mul, Nat.succ_eq_add_one, Nat.sub_add_cancel (Nat.pos_of_ne_zero hsize)]
      _ ≤ s.capacity * s.spread levels := Nat.mul_le_mul_right _ hcapacity
      _ = s.spread (levels + 1) := (NodeSource.spread_succ levels).symm
  rw [left, Direction.remaining_edge, hlevels, Nat.add_sub_cancel]
  omega

/-- A descent on the near edge ends below the place of the frame that it started from. -/
theorem Shallow.descend_left (h : Shallow s (frame :: above)) {bound : Nat} {reached : Cursor}
    (hreached : descend s d.edge bound (frame :: above) = (.ok (), reached)) :
    Shallow s reached.path ∧
      left s d reached.path + s.spread (s.extent - reached.path.length) ≤
        left s d (frame :: above) + s.spread (s.extent - (frame :: above).length) := by
  induction bound generalizing frame above with
  | zero => cases hreached
  | succ bound ih =>
    rw [descend] at hreached
    split at hreached
    · cases hreached
      exact ⟨h, Nat.le_refl _⟩
    · cases hid : frame.node.child? frame.slot with
      | none =>
        rw [hid] at hreached
        cases hreached
      | some id =>
        simp only [hid] at hreached
        cases hn : s.fetch id with
        | error e =>
          rw [hn] at hreached
          cases hreached
        | ok n =>
          simp only [hn] at hreached
          split at hreached
          · cases hreached
          · next hsize =>
            have hends := h.child hid
            have hlength : (frame :: above).length < s.extent := by
              have hpos := hends.pos hn
              omega
            obtain ⟨hshallow, hle⟩ := ih (.cons h hn hends (d.edge.slot_lt hsize)) hreached
            have henter : left s d (⟨n, d.edge.slot n⟩ :: frame :: above) + _ ≤ _ :=
              left_enter_le hsize (s.size_le_capacity hn) hlength
            rw [Nat.sub_sub] at henter
            exact ⟨hshallow, Nat.le_trans hle henter⟩

/-! ## Walks -/

/-- The cursor stands nowhere, or its way is shallow. -/
inductive Level (s : NodeSource) : Cursor → Prop where
  | nowhere {c : Cursor} (h : c.valid = false) : Level s c
  | shallow {path : List Frame} (h : Shallow s path) : Level s ⟨path⟩

theorem valid_of_entry? {c : Cursor} {entry : Cell} (h : c.entry? = some entry) :
    c.valid = true := by
  cases hvalid : c.valid with
  | true => rfl
  | false =>
    rw [entry?_eq_none hvalid] at h
    contradiction

theorem Level.of_valid {c : Cursor} (h : Level s c) (hvalid : c.valid = true) :
    Shallow s c.path := by
  cases h with
  | nowhere hnot =>
    rw [hvalid] at hnot
    contradiction
  | shallow h => exact h

theorem descendLE_shallow {key : Bytes} {bound : Nat} {id : PageId} {c : Cursor}
    (hends : s.EndsWithin (s.extent - above.length) id) (h : Shallow s above)
    (hc : descendLE s key bound id above = .ok c) : Level s c := by
  induction bound generalizing id above with
  | zero => cases hc
  | succ bound ih =>
    rw [descendLE] at hc
    cases hn : s.fetch id with
    | error e =>
      rw [hn] at hc
      cases hc
    | ok n =>
      simp only [hn] at hc
      split at hc
      · next hsize =>
        split at hc
        · cases hc
          exact .nowhere (decide_eq_false (by simp [hsize]))
        · cases hc
      · next hsize =>
        have hslot := Node.lookupLE_lt (Nat.pos_of_ne_zero hsize) key
        have hframe : Shallow s (⟨n, n.lookupLE key⟩ :: above) := .cons h hn hends hslot
        split at hc
        · cases hc
          exact .shallow hframe
        · cases hchild : n.child? (n.lookupLE key) with
          | none =>
            rw [hchild] at hc
            cases hc
          | some child =>
            simp only [hchild] at hc
            exact ih (hframe.child hchild) hframe hc

theorem seekLE_level {root : PageId} (h : s.Acyclic root) {key : Bytes} {c : Cursor}
    (hc : seekLE s root key = .ok c) : Level s c := by
  rw [seekLE] at hc
  split at hc
  · cases hc
    exact .nowhere rfl
  · have hends : s.EndsWithin (s.extent - ([] : List Frame).length) root := h.endsWithin
    exact descendLE_shallow hends .nil hc

theorem Shallow.move (h : Shallow s (frame :: above)) {slot : Nat}
    (hbeside : d.beside frame = some slot) :
    Shallow s ({ frame with slot := slot } :: above) := by
  cases h with
  | cons habove hfetch hends hslot =>
    have hlt : slot < frame.node.size := Direction.beside_lt hbeside hslot
    exact .cons habove hfetch hends hlt

/-- A carry and the descent after it leave less of the walk. -/
theorem Shallow.carry_left {frames path : List Frame} (h : Shallow s frames)
    (hcarry : d.carry frames = some path) {bound : Nat} {reached : Cursor}
    (hreached : descend s d.edge bound path = (.ok (), reached)) :
    Shallow s reached.path ∧ left s d reached.path < left s d frames := by
  -- the frames below the one that moves are given up, and what stood below them with them
  obtain ⟨below, frame, slot, above, rfl, hbeside, rfl⟩ := Direction.carry_eq_some hcarry
  have hpart : Shallow s (frame :: above) := h.append_right
  have hcapacity : 0 < s.spread (s.extent - reached.path.length) :=
    NodeSource.spread_pos hpart.capacity_pos _
  obtain ⟨hshallow, hle⟩ := (hpart.move hbeside).descend_left hreached
  -- the frame has given up one place of its own weight
  have hplace : left s d ({ frame with slot := slot } :: above) +
      s.spread (s.extent - (frame :: above).length) = left s d (frame :: above) := by
    rw [left, left, ← Direction.remaining_beside hbeside, List.length_cons, Nat.sub_sub,
      Nat.succ_mul]
    omega
  have hwhole : left s d (frame :: above) ≤ left s d (below ++ frame :: above) :=
    left_append_le below
  refine ⟨hshallow, ?_⟩
  rw [List.length_cons] at hle hplace
  omega

/-- A step that does not fail leaves the cursor nowhere, or less of the walk. -/
theorem Level.step {c moved : Cursor} (h : Level s c) (hmoved : c.step s d = (.ok (), moved)) :
    Level s moved ∧ (moved.valid = true → left s d moved.path < left s d c.path) := by
  rw [step_eq] at hmoved
  split at hmoved
  · next hvalid =>
    have hshallow := h.of_valid hvalid
    cases hcarry : d.carry c.path with
    | none =>
      rw [hcarry] at hmoved
      cases hmoved
      exact ⟨.nowhere rfl, fun hnone => by cases hnone⟩
    | some path =>
      simp only [hcarry] at hmoved
      obtain ⟨hreached, hlt⟩ := hshallow.carry_left hcarry hmoved
      exact ⟨.shallow hreached, fun _ => hlt⟩
  · next hvalid =>
    cases hmoved
    exact ⟨h, fun htrue => absurd htrue hvalid⟩

theorem seek_level {root : PageId} (h : s.Acyclic root) {key : Bytes} {comparison : Comparison}
    {c : Cursor} (hc : seek s root key comparison = .ok c) : Level s c := by
  rw [seek] at hc
  cases hstart : seekLE s root key with
  | error e =>
    rw [hstart] at hc
    cases hc
  | ok start =>
    have hlevel := seekLE_level h hstart
    simp only [hstart] at hc
    split at hc
    · cases hc
      exact hlevel
    · split at hc
      · cases hc
        exact hlevel
      · rcases hstep : start.step s comparison.direction with ⟨_ | ⟨⟩, moved⟩
        · rw [hstep] at hc
          cases hc
        · rw [hstep] at hc
          cases hc
          exact (hlevel.step hstep).1

/-- A step of a walk is not cut off by its bound. -/
theorem Level.step_ends (hs : s.NeverEndless) {c : Cursor} (h : Level s c) :
    (c.step s d).1 ≠ .error .endless := by
  rw [step_eq]
  split
  · next hvalid =>
    cases hcarry : d.carry c.path with
    | none => simp
    | some path =>
      obtain ⟨below, frame, slot, above, hpath, hbeside, rfl⟩ := Direction.carry_eq_some hcarry
      have hframes := h.of_valid hvalid
      rw [hpath] at hframes
      have hmoved := hframes.append_right.move hbeside
      have hends := NodeSource.EndsWithin.descend_ends hs d.edge (fun _ => hmoved.child) above
      exact hends.not_cut (Nat.succ_le_succ (Nat.sub_le _ _))
  · simp

/-- A seek is not cut off by its bound. -/
theorem seek_ends (hs : s.NeverEndless) {root : PageId} (h : s.Acyclic root) (key : Bytes)
    (comparison : Comparison) : seek s root key comparison ≠ .error .endless := by
  rw [seek]
  cases hstart : seekLE s root key with
  | error e =>
    rw [seekLE] at hstart
    split at hstart
    · cases hstart
    · intro he
      have hends := h.endsWithin.descendLE_ends hs key []
      exact hends.not_cut (Nat.le_refl _) (hstart.trans he)
  | ok start =>
    simp only
    split
    · simp
    · split
      · simp
      · have hstep := (seekLE_level h hstart).step_ends hs (d := comparison.direction)
        rcases hmoved : start.step s comparison.direction with ⟨e | ⟨⟩, moved⟩
        · intro he
          rw [hmoved] at hstep
          exact hstep (congrArg Except.error (Except.error.inj he))
        · simp

/-- What is left is below the bound of a walk. -/
theorem Level.left_lt_walkBound {c : Cursor} (h : Level s c) (hvalid : c.valid = true) :
    left s d c.path + 1 < c.walkBound s := by
  have hcells : 0 < cellsIn c.path := by
    obtain ⟨path⟩ := c
    cases path with
    | nil => contradiction
    | cons leaf above =>
      have hslot : leaf.slot < leaf.node.size := of_decide_eq_true hvalid
      rw [cellsIn]
      omega
  have hbound : s.entryBound = s.spread s.extent + 1 := rfl
  have hle := (h.of_valid hvalid).left_le (d := d)
  rw [walkBound, hbound, Nat.mul_add_one]
  omega

end Cursor

/-! ## Trees -/

namespace Tree.Stored

variable {s : NodeSource} {t : Tree} {root id child : PageId}

/-- Where a tree is stored, a page that a node names as a child holds a tree of less height. -/
theorem points (h : t.Stored s id) (hpoints : s.Points id child) :
    ∃ u : Tree, u.Stored s child ∧ u.height < t.height := by
  obtain ⟨n, slot, hn, hchild⟩ := hpoints
  obtain rfl : t.node = n := Except.ok.inj (h.fetch.symm.trans hn)
  cases t with
  | leaf n =>
    have hleaf : n.isLeaf = true := h.held
    rw [Tree.node, Node.child?, if_pos hleaf] at hchild
    contradiction
  | inner n children =>
    have hslot : slot < n.size := n.slot_lt_of_child? hchild
    obtain ⟨below, hid, hstored⟩ := h.child ⟨slot, hslot⟩
    obtain rfl : below = child := Option.some.inj (hid.symm.trans hchild)
    exact ⟨_, hstored, Tree.height_child_lt n children ⟨slot, hslot⟩⟩

theorem reach (h : t.Stored s root) (hreach : ReflTransGen s.Points root id) :
    ∃ u : Tree, u.Stored s id := by
  induction hreach with
  | refl => exact ⟨t, h⟩
  | tail _ hpoints ih =>
    obtain ⟨u, hu⟩ := ih
    obtain ⟨v, hv, -⟩ := hu.points hpoints
    exact ⟨v, hv⟩

theorem height_lt (h : t.Stored s id) (hway : TransGen s.Points id child) :
    ∃ u : Tree, u.Stored s child ∧ u.height < t.height := by
  induction hway with
  | single hpoints => exact h.points hpoints
  | tail _ hpoints ih =>
    obtain ⟨u, hu, hlt⟩ := ih
    obtain ⟨v, hv, hlt'⟩ := hu.points hpoints
    exact ⟨v, hv, Nat.lt_trans hlt' hlt⟩

/-- Where a tree is stored there is no cycle: a page that led back to itself would hold a tree of
less height than its own. -/
theorem acyclic (h : t.Stored s root) : s.Acyclic root := by
  intro id hreach hcycle
  obtain ⟨u, hu⟩ := h.reach hreach
  obtain ⟨v, hv, hlt⟩ := hu.height_lt hcycle
  rw [hv.unique hu] at hlt
  exact Nat.lt_irrefl _ hlt

end Tree.Stored

end RangeStore
