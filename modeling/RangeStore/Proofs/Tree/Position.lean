import RangeStore.Proofs.Tree.Shape
set_option autoImplicit false

/-! # Positions of cursors

A cursor that stands on an entry stands at one position of the tree's entries, `Tree.Stands`. Its
frames lead from the top of the tree to a leaf (`Tree.Leads`), and each slot on the way skips the
entries of the slots before it: the position is a number written with the slots as digits, in a
radix that differs from node to node.

To step is to count. The carry ends at the first level whose digit can move, and there the next
subtree begins where the last one ended (`Leads.carryUp`, `Leads.carryDown`); the descent then
lands on its first or last entry (`Stored.descend_below`). So `next` moves to the next position and
`prev` to the one before (`Rooted.next`, `Rooted.prev`). -/

namespace RangeStore

/-- The position of an end among `count` things. -/
def Edge.rank (e : Edge) (count : Nat) : Nat :=
  match e with
  | first => 0
  | last => count - 1

namespace Edge

theorem rank_lt (e : Edge) {count : Nat} (h : 0 < count) : e.rank count < count := by
  cases e with
  | first => exact h
  | last => exact Nat.sub_lt h Nat.one_pos

theorem slot_eq_rank (e : Edge) (n : Node) : e.slot n = e.rank n.size := by
  cases e <;> rfl

/-- The entry at an end of a tree is the one at the same end of the child at this end. -/
theorem rank_inner (e : Edge) {n : Node} (child : Fin n.size → Tree)
    (hslot : e.rank n.size < n.size) (hchild : 0 < (child ⟨e.rank n.size, hslot⟩).count) :
    e.rank (Tree.inner n child).count =
      (Tree.entriesBefore child (e.rank n.size)).length +
        e.rank (child ⟨e.rank n.size, hslot⟩).count := by
  cases e with
  | first =>
    simp only [rank, Tree.entriesBefore_zero, List.length_nil]
  | last =>
    simp only [rank] at hslot hchild ⊢
    have hsucc := Tree.entriesBefore_succ child ⟨n.size - 1, hslot⟩
    simp only [Nat.sub_add_cancel (Nat.lt_of_le_of_lt (Nat.zero_le _) hslot)] at hsucc
    have hcount : (Tree.inner n child).count =
        (Tree.entriesBefore child (n.size - 1)).length + (child ⟨n.size - 1, hslot⟩).count := by
      rw [Tree.count, Tree.entries_inner, hsucc, List.length_append, Tree.count]
    omega

end Edge

namespace Tree

/-- From the top of the tree the frames lead down to a subtree; `start` entries stand before those
of the subtree. -/
inductive Leads (t : Tree) : List Frame → Tree → Nat → Prop where
  | top : Leads t [] t 0
  | down {above : List Frame} {n : Node} {child : Fin n.size → Tree} {start : Nat}
      (i : Fin n.size) (h : Leads t above (inner n child) start) :
      Leads t (⟨n, i⟩ :: above) (child i) (start + (entriesBefore child i).length)

/-- The cursor stands on the entry at a position. -/
inductive Stands (t : Tree) : Cursor → Nat → Prop where
  | intro {above : List Frame} {n : Node} {start slot : Nat} (h : Leads t above (leaf n) start)
      (hslot : slot < n.size) : Stands t ⟨⟨n, slot⟩ :: above⟩ (start + slot)

namespace Leads

variable {t u : Tree} {frames : List Frame} {start : Nat}

/-- The entries of the subtree stand in those of the tree, from `start` on. -/
theorem entries_eq (h : t.Leads frames u start) :
    ∃ before after, t.entries = before ++ u.entries ++ after ∧ before.length = start := by
  induction h with
  | top => exact ⟨[], [], by simp, rfl⟩
  | @down above n child start i _ ih =>
    obtain ⟨before, after, hentries, hlen⟩ := ih
    obtain ⟨rest, hrest⟩ := entries_inner_eq n child i
    refine ⟨before ++ entriesBefore child i, rest ++ after, ?_, by simp [hlen]⟩
    rw [hentries, hrest]
    simp only [List.append_assoc]

theorem add_count_le (h : t.Leads frames u start) : start + u.count ≤ t.count := by
  obtain ⟨before, after, hentries, hlen⟩ := h.entries_eq
  simp only [count, hentries, List.length_append]
  omega

theorem getElem?_entries (h : t.Leads frames u start) {i : Nat} (hi : i < u.count) :
    t.entries[start + i]? = u.entries[i]? := by
  obtain ⟨before, after, hentries, hlen⟩ := h.entries_eq
  rw [hentries, List.append_assoc, List.getElem?_append_right (by omega), hlen,
    Nat.add_sub_cancel_left, List.getElem?_append_left hi]

theorem full (h : t.Leads frames u start) (ht : t.Full) : u.Full := by
  induction h with
  | top => exact ht
  | down i _ ih => exact ih.2 i

theorem stored {s : NodeSource} {root : PageId} (h : t.Leads frames u start)
    (ht : t.Stored s root) : ∃ id, u.Stored s id := by
  induction h with
  | top => exact ⟨root, ht⟩
  | down i _ ih =>
    obtain ⟨id, hid⟩ := ih
    obtain ⟨below, -, hbelow⟩ := hid.child i
    exact ⟨below, hbelow⟩

theorem height_add_le (h : t.Leads frames u start) : u.height + frames.length ≤ t.height := by
  induction h with
  | top => exact Nat.le_refl _
  | @down above n child start i _ ih =>
    have hlt := height_child_lt n child i
    simp only [List.length_cons]
    omega

/-- From a leaf the way leads nowhere else. -/
theorem eq_top_of_leaf (h : t.Leads frames u start) {n : Node} (ht : t = leaf n) : u = t := by
  induction h with
  | top => rfl
  | down i _ ih =>
    rw [ht] at ih
    contradiction

/-! ## Carrying -/

/-- Counting up stops at the first level that has a further slot, and there the next subtree
begins where this one ends; where no level has one, this one ends with the tree. -/
theorem carryUp (h : t.Leads frames u start) :
    (Cursor.carryUp frames = none ∧ start + u.count = t.count) ∨
      ∃ frame above v, Cursor.carryUp frames = some (frame :: above) ∧
        t.Leads (frame :: above) v (start + u.count) := by
  induction h with
  | top => exact Or.inl ⟨rfl, Nat.zero_add _⟩
  | @down above n child start i h ih =>
    have hend : start + (entriesBefore child i).length + (child i).count =
        start + (entriesBefore child (i + 1)).length := by
      rw [entriesBefore_succ, List.length_append, count, Nat.add_assoc]
    by_cases hi : i + 1 < n.size
    · -- this level has a further slot
      refine Or.inr ⟨⟨n, i + 1⟩, above, child ⟨i + 1, hi⟩, ?_, ?_⟩
      · rw [Cursor.carryUp, if_pos hi]
      · rw [hend]
        exact Leads.down ⟨i + 1, hi⟩ h
    · -- this subtree ends where the one around it does, so the carry goes on above
      have hlast : (i : Nat) + 1 = n.size := by omega
      have hcount : start + (entriesBefore child i).length + (child i).count =
          start + (inner n child).count := by
        rw [hend, hlast, count, entries_inner]
      rw [Cursor.carryUp, if_neg hi, hcount]
      exact ih

/-- Counting down stops at the first level that has a slot before, and there the subtree before
ends where this one begins; where no level has one, this one begins with the tree. -/
theorem carryDown (h : t.Leads frames u start) :
    (Cursor.carryDown frames = none ∧ start = 0) ∨
      ∃ frame above v before, Cursor.carryDown frames = some (frame :: above) ∧
        t.Leads (frame :: above) v before ∧ before + v.count = start := by
  induction h with
  | top => exact Or.inl ⟨rfl, rfl⟩
  | @down above n child start i h ih =>
    by_cases hi : 0 < (i : Nat)
    · have hlt : (i : Nat) - 1 < n.size := by omega
      refine Or.inr ⟨⟨n, i - 1⟩, above, child ⟨i - 1, hlt⟩, _, ?_, Leads.down ⟨i - 1, hlt⟩ h, ?_⟩
      · rw [Cursor.carryDown, if_pos hi]
      · have hsucc := entriesBefore_succ child ⟨i - 1, hlt⟩
        simp only [Nat.sub_add_cancel hi] at hsucc
        rw [hsucc, List.length_append, count, Nat.add_assoc]
    · -- this subtree begins where the one around it does
      have hzero : (i : Nat) = 0 := by omega
      rw [Cursor.carryDown, if_neg hi, hzero, entriesBefore_zero, List.length_nil, Nat.add_zero]
      exact ih

end Leads

/-! ## Going down -/

variable {s : NodeSource} {t u : Tree} {above : List Frame} {start : Nat}

/-- Going down along an edge from a subtree ends on the first or last entry of the subtree. -/
theorem Held.descend (hheld : u.Held s) (hfull : u.Full) (h : t.Leads above u start) (edge : Edge)
    {bound : Nat} (hbound : u.height ≤ bound) :
    ∃ c, Cursor.descend s edge bound (⟨u.node, edge.rank u.node.size⟩ :: above) = (.ok (), c) ∧
      t.Stands c (start + edge.rank u.count) := by
  induction u generalizing above start bound with
  | leaf n =>
    have hleaf : n.isLeaf = true := hheld
    have hsize : 0 < n.size := hfull
    have hslot : edge.rank n.size < n.size := edge.rank_lt hsize
    obtain ⟨bound, rfl⟩ := Nat.exists_eq_add_of_le' hbound
    refine ⟨⟨⟨n, edge.rank n.size⟩ :: above⟩, ?_, Stands.intro h hslot⟩
    rw [height, Cursor.descend, node, if_pos hleaf]
  | inner n child ih =>
    have hslot : edge.rank n.size < n.size := edge.rank_lt hfull.1
    obtain ⟨hinner, hchildren⟩ := hheld
    obtain ⟨id, hid, hfetch, hbelow⟩ := hchildren ⟨edge.rank n.size, hslot⟩
    have hpos := (hfull.2 ⟨edge.rank n.size, hslot⟩).size_pos
    have hlt := height_child_lt n child ⟨edge.rank n.size, hslot⟩
    obtain ⟨bound, rfl⟩ := Nat.exists_eq_add_of_le' (Nat.le_trans (height_pos _) hbound)
    have hheight : (child ⟨edge.rank n.size, hslot⟩).height ≤ bound := by omega
    obtain ⟨c, hc, hstands⟩ := ih _ hbelow (hfull.2 _) (Leads.down ⟨_, hslot⟩ h) hheight
    refine ⟨c, ?_, ?_⟩
    · rw [Cursor.descend, node, if_neg (by simp [hinner])]
      simp only [hid, hfetch, if_neg (Nat.ne_of_gt hpos), Edge.slot_eq_rank]
      exact hc
    · have hrank := edge.rank_inner child hslot (hfull.2 _).count_pos
      rw [Nat.add_assoc] at hstands
      rwa [hrank]

/-- After a carry the cursor goes down along an edge of the subtree under the level that moved. -/
theorem Leads.descend {root : PageId} {frame : Frame} (h : t.Leads (frame :: above) u start)
    (ht : t.Rooted s root) (edge : Edge) :
    0 < u.count ∧ ∃ c, Cursor.descend s edge s.descentBound (frame :: above) = (.ok (), c) ∧
      t.Stands c (start + edge.rank u.count) := by
  have hheight := h.height_add_le
  have hext := ht.height_le
  simp only [List.length_cons] at hheight
  cases h with
  | @down above n child start i h =>
    -- a level moved, so the tree is no leaf, and then no node of it is empty
    have hfull : t.Full := by
      rcases ht.full with hfull | hleaf
      · exact hfull
      · have htop := h.eq_top_of_leaf hleaf
        rw [← htop] at hleaf
        contradiction
    have hbelow := (h.full hfull).2 i
    obtain ⟨id, hstored⟩ := h.stored ht.toStored
    obtain ⟨below, hid, hchild⟩ := hstored.child i
    have hbound : (child i).height ≤ s.extent := by omega
    obtain ⟨c, hc, hstands⟩ := hchild.held.descend hbelow (Leads.down i h) edge hbound
    refine ⟨hbelow.count_pos, c, ?_, hstands⟩
    rw [NodeSource.descentBound, Cursor.descend, if_neg (by simp [hstored.held.1])]
    simp only [hid, hchild.fetch, if_neg (Nat.ne_of_gt hbelow.size_pos), Edge.slot_eq_rank]
    exact hc

/-! ## Steps -/

theorem Stands.valid {c : Cursor} {i : Nat} (h : t.Stands c i) : c.valid = true := by
  cases h with
  | intro _ hslot => exact decide_eq_true hslot

theorem Stands.lt_count {c : Cursor} {i : Nat} (h : t.Stands c i) : i < t.count := by
  cases h with
  | @intro above n start slot h hslot =>
    have hle := h.add_count_le
    rw [count_leaf] at hle
    omega

theorem Stands.entry? {c : Cursor} {i : Nat} (h : t.Stands c i) : c.entry? = t.entries[i]? := by
  cases h with
  | @intro above n start slot h hslot =>
    rw [h.getElem?_entries (by rwa [count_leaf]), entries, Array.getElem?_toList]
    rfl

namespace Rooted

variable {root : PageId}

/-- `next` moves to the next position, and behind the last one the cursor stands nowhere. -/
theorem next (ht : t.Rooted s root) {c : Cursor} {i : Nat} (h : t.Stands c i) :
    ∃ moved, c.next s = (.ok (), moved) ∧
      if i + 1 < t.count then t.Stands moved (i + 1) else moved.valid = false := by
  have hvalid := h.valid
  cases h with
  | @intro above n start slot h hslot =>
    have hleaf : n.isLeaf = true := by
      obtain ⟨id, hstored⟩ := h.stored ht.toStored
      exact hstored.held
    have hcount := count_leaf n
    have hle := h.add_count_le
    rw [Cursor.next, if_pos hvalid]
    by_cases hmore : slot + 1 < n.size
    · -- the next entry is in the same leaf
      have hstands := Stands.intro h hmore
      refine ⟨⟨⟨n, slot + 1⟩ :: above⟩, ?_, ?_⟩
      · simp only [Cursor.carryUp, if_pos hmore, NodeSource.descentBound, Cursor.descend, hleaf,
          if_true]
      · rw [← Nat.add_assoc] at hstands
        rw [if_pos hstands.lt_count]
        exact hstands
    · -- the leaf is at its end, and the carry shows whether the tree is
      simp only [Cursor.carryUp, if_neg hmore]
      rcases h.carryUp with ⟨hnone, hend⟩ | ⟨frame, above', v, hsome, hleads⟩
      · rw [hnone]
        refine ⟨Cursor.none, rfl, ?_⟩
        rw [if_neg (by omega)]
        rfl
      · obtain ⟨-, c, hc, hstands⟩ := hleads.descend ht .first
        have hpos : start + (leaf n).count + Edge.rank .first v.count = start + slot + 1 := by
          simp only [Edge.rank]
          omega
        rw [hsome]
        rw [hpos] at hstands
        refine ⟨c, hc, ?_⟩
        rw [if_pos hstands.lt_count]
        exact hstands

/-- `prev` moves to the position before, and before the first one the cursor stands nowhere. -/
theorem prev (ht : t.Rooted s root) {c : Cursor} {i : Nat} (h : t.Stands c i) :
    ∃ moved, c.prev s = (.ok (), moved) ∧
      if 0 < i then t.Stands moved (i - 1) else moved.valid = false := by
  have hvalid := h.valid
  cases h with
  | @intro above n start slot h hslot =>
    have hleaf : n.isLeaf = true := by
      obtain ⟨id, hstored⟩ := h.stored ht.toStored
      exact hstored.held
    rw [Cursor.prev, if_pos hvalid]
    by_cases hmore : 0 < slot
    · -- the entry before is in the same leaf
      have hstands := Stands.intro h (show slot - 1 < n.size by omega)
      refine ⟨⟨⟨n, slot - 1⟩ :: above⟩, ?_, ?_⟩
      · simp only [Cursor.carryDown, if_pos hmore, NodeSource.descentBound, Cursor.descend, hleaf,
          if_true]
      · rw [if_pos (by omega), Nat.add_sub_assoc hmore]
        exact hstands
    · -- the leaf is at its beginning
      simp only [Cursor.carryDown, if_neg hmore]
      rcases h.carryDown with ⟨hnone, hstart⟩ | ⟨frame, above', v, before, hsome, hleads, hend⟩
      · rw [hnone]
        refine ⟨Cursor.none, rfl, ?_⟩
        rw [if_neg (by omega)]
        rfl
      · obtain ⟨hpos, c, hc, hstands⟩ := hleads.descend ht .last
        have hbefore : before + Edge.rank .last v.count = start + slot - 1 := by
          simp only [Edge.rank]
          omega
        rw [hsome]
        rw [hbefore] at hstands
        refine ⟨c, hc, ?_⟩
        rw [if_pos (by omega)]
        exact hstands

end Rooted

end Tree

end RangeStore
