import RangeStore.Proofs.Tree.Search
set_option autoImplicit false

/-! # Windows

What a cursor shows from a position on, step by step, is a list (`Direction.onward`), and of that
list a scan takes entries as long as they lie between its bounds. In a search tree the entries that
it takes are all entries between the bounds: none comes before the position on which the search for
the start bound lands, and none behind the first that the stop bound does not accept
(`Tree.Rooted.takeWhile_onward`). A cursor on an entry also sees how many there can be
(`Tree.Stands.count_lt_walkBound`). -/

namespace RangeStore

open Std

/-! ## Lists in a direction -/

namespace Direction

variable {α : Type}

/-- The list, read in a direction. -/
def arrange (d : Direction) (l : List α) : List α :=
  match d with
  | .ascending => l
  | .descending => l.reverse

/-- What is read in a direction from a position on. -/
def onward (d : Direction) (l : List α) : Option Nat → List α
  | none => []
  | some i =>
    match d with
    | .ascending => l.drop i
    | .descending => (l.take (i + 1)).reverse

/-- First comes what stands at the position, and then what follows one step further. -/
theorem onward_some (d : Direction) {l : List α} {i : Nat} {a : α} (h : l[i]? = some a) :
    d.onward l (some i) = a :: d.onward l (d.move l.length (some i)) := by
  obtain ⟨hi, rfl⟩ := List.getElem?_eq_some_iff.mp h
  cases d with
  | ascending =>
    rw [onward, List.drop_eq_getElem_cons hi, move]
    by_cases hmore : i + 1 < l.length
    · rw [if_pos hmore]
      rfl
    · rw [if_neg hmore, List.drop_of_length_le (Nat.le_of_not_lt hmore)]
      rfl
  | descending =>
    rw [onward, List.take_add_one, h, Option.toList_some, List.reverse_append,
      List.reverse_singleton, List.singleton_append, move]
    by_cases hmore : 0 < i
    · rw [if_pos hmore]
      simp only [onward, Nat.sub_add_cancel hmore]
    · have hzero : i = 0 := Nat.eq_zero_of_not_pos hmore
      subst hzero
      rfl

theorem onward_sublist (d : Direction) (l : List α) (i : Option Nat) :
    (d.onward l i).Sublist (d.arrange l) := by
  cases i with
  | none => exact List.nil_sublist _
  | some i =>
    cases d with
    | ascending => exact List.drop_sublist _ _
    | descending => exact (List.take_sublist _ _).reverse

theorem length_arrange (d : Direction) (l : List α) : (d.arrange l).length = l.length := by
  cases d with
  | ascending => rfl
  | descending => exact List.length_reverse

theorem arrange_perm (d : Direction) (l : List α) : (d.arrange l).Perm l := by
  cases d with
  | ascending => exact List.Perm.refl _
  | descending => exact List.reverse_perm _

theorem filter_arrange (d : Direction) (l : List α) (p : α → Bool) :
    (d.arrange l).filter p = d.arrange (l.filter p) := by
  cases d with
  | ascending => rfl
  | descending => exact List.filter_reverse

theorem mem_onward (d : Direction) {l : List α} {i : Nat} {a : α} (h : a ∈ d.onward l (some i)) :
    ∃ j, l[j]? = some a ∧ d.Covers i j := by
  cases d with
  | ascending =>
    obtain ⟨j, hj⟩ := List.getElem?_of_mem h
    exact ⟨i + j, by simpa [onward, List.getElem?_drop] using hj, Nat.le_add_right _ _⟩
  | descending =>
    obtain ⟨j, hj⟩ := List.getElem?_of_mem (List.mem_reverse.mp h)
    have hlt := (List.getElem?_eq_some_iff.mp hj).1
    rw [List.length_take] at hlt
    refine ⟨j, ?_, ?_⟩
    · rwa [List.getElem?_take_of_lt (by omega)] at hj
    · show j ≤ i
      omega

/-- What is accepted only from a position on is all read from there on. -/
theorem filter_onward (d : Direction) {l : List α} {i : Nat} {p : α → Bool}
    (h : ∀ j a, l[j]? = some a → p a = true → d.Covers i j) :
    (d.onward l (some i)).filter p = d.arrange (l.filter p) := by
  rw [← d.filter_arrange]
  cases d with
  | ascending =>
    have hnone : (l.take i).filter p = [] := by
      refine List.filter_eq_nil_iff.mpr fun a ha hp => ?_
      obtain ⟨j, hj⟩ := List.getElem?_of_mem ha
      have hlt := (List.getElem?_eq_some_iff.mp hj).1
      rw [List.length_take] at hlt
      rw [List.getElem?_take_of_lt (by omega)] at hj
      have hcovers : i ≤ j := h j a hj hp
      omega
    have hsplit : ((l.take i) ++ (l.drop i)).filter p = (l.drop i).filter p := by
      rw [List.filter_append, hnone, List.nil_append]
    rw [List.take_append_drop] at hsplit
    exact hsplit.symm
  | descending =>
    have hnone : (l.drop (i + 1)).filter p = [] := by
      refine List.filter_eq_nil_iff.mpr fun a ha hp => ?_
      obtain ⟨j, hj⟩ := List.getElem?_of_mem ha
      rw [List.getElem?_drop] at hj
      have hcovers : i + 1 + j ≤ i := h _ a hj hp
      omega
    have hsplit : ((l.take (i + 1)) ++ (l.drop (i + 1))).filter p = (l.take (i + 1)).filter p := by
      rw [List.filter_append, hnone, List.append_nil]
    rw [List.take_append_drop] at hsplit
    simp only [onward, arrange, List.filter_reverse, hsplit]

end Direction

/-- What is accepted only as long as it was accepted before is taken in one go. -/
theorem takeWhile_eq_filter {α : Type} {p : α → Bool} {l : List α}
    (h : l.Pairwise fun a b => p b = true → p a = true) : l.takeWhile p = l.filter p := by
  induction l with
  | nil => rfl
  | cons a l ih =>
    obtain ⟨hfirst, hrest⟩ := List.pairwise_cons.mp h
    by_cases ha : p a = true
    · rw [List.takeWhile_cons_of_pos ha, List.filter_cons_of_pos ha, ih hrest]
    · have hnone : l.filter p = [] :=
        List.filter_eq_nil_iff.mpr fun b hb hp => ha (hfirst b hb hp)
      rw [List.takeWhile_cons_of_neg ha, List.filter_cons_of_neg ha, hnone]

/-! ## Keys in a direction -/

/-- The order of two keys of which the first is read first. -/
def Direction.ordering : Direction → Ordering
  | .ascending => .lt
  | .descending => .gt

theorem Ascending.pairwise_arrange {cells : List Cell} (h : Ascending cells) (d : Direction) :
    (d.arrange cells).Pairwise fun a b => compare a.key b.key = d.ordering := by
  cases d with
  | ascending => exact h
  | descending =>
    exact List.pairwise_reverse.mpr (h.imp fun hlt => OrientedCmp.gt_of_lt hlt)

/-- A comparison in the other direction that accepts a key accepts all keys read before it. -/
theorem Comparison.holds_of_before {c : Comparison} {d : Direction} (hdir : c.direction ≠ d)
    {a b key : Bytes} (hab : compare a b = d.ordering) (h : c.holds b key = true) :
    c.holds a key = true := by
  unfold Comparison.holds at h ⊢
  cases d with
  | ascending =>
    have hlt : compare a b = .lt := hab
    cases c with
    | gt => exact absurd rfl hdir
    | ge => exact absurd rfl hdir
    | lt =>
      have hkey : compare b key = .lt := of_decide_eq_true h
      exact decide_eq_true (TransCmp.lt_trans hlt hkey)
    | le =>
      have hkey : (compare b key).isLE := Ordering.isLE_iff_ne_gt.mpr (of_decide_eq_true h)
      have hlt' := TransCmp.lt_of_lt_of_isLE hlt hkey
      rw [hlt']
      rfl
  | descending =>
    have hgt : compare a b = .gt := hab
    cases c with
    | gt =>
      have hkey : compare b key = .gt := of_decide_eq_true h
      exact decide_eq_true (TransCmp.gt_trans hgt hkey)
    | ge =>
      have hkey : (compare b key).isGE := Ordering.isGE_iff_ne_lt.mpr (of_decide_eq_true h)
      have hgt' := TransCmp.gt_of_gt_of_isGE hgt hkey
      rw [hgt']
      rfl
    | lt => exact absurd rfl hdir
    | le => exact absurd rfl hdir

namespace Tree

variable {s : NodeSource} {root : PageId} {t : Tree}

namespace Rooted

/-- From where the search for a start bound lands, the entries that both bounds accept are all
accepted entries of the tree. -/
theorem takeWhile_onward (ht : t.Rooted s root) (hsearch : t.Search) {start stop : Comparison}
    (hdir : start.direction ≠ stop.direction) (startKey stopKey : Bytes) :
    (start.direction.onward t.entries (t.landing startKey start)).takeWhile
        (fun e => start.holds e.key startKey && stop.holds e.key stopKey) =
      start.direction.arrange
        (t.entries.filter fun e => start.holds e.key startKey && stop.holds e.key stopKey) := by
  have hcovers := ht.landing_covers hsearch startKey start
  cases hlanding : t.landing startKey start with
  | none =>
    rw [hlanding] at hcovers
    have hnone : t.entries.filter
        (fun e => start.holds e.key startKey && stop.holds e.key stopKey) = [] := by
      refine List.filter_eq_nil_iff.mpr fun e he => ?_
      rw [hcovers e he, Bool.false_and]
      exact Bool.false_ne_true
    rw [hnone]
    cases start.direction <;> rfl
  | some p =>
    rw [hlanding] at hcovers
    obtain ⟨-, hcovers⟩ := hcovers
    rw [takeWhile_eq_filter, start.direction.filter_onward]
    · intro i e he haccepted
      exact (hcovers i e he).mp (Bool.and_eq_true_iff.mp haccepted).1
    · -- all entries from there on satisfy the start bound, so only the stop bound can end the walk
      refine ((hsearch.ascending.pairwise_arrange start.direction).sublist
        (start.direction.onward_sublist _ _)).imp_of_mem fun {a b} ha _ hab hb => ?_
      obtain ⟨i, hi, hcovered⟩ := start.direction.mem_onward ha
      rw [(hcovers i a hi).mpr hcovered, Bool.true_and]
      exact Comparison.holds_of_before hdir.symm hab (Bool.and_eq_true_iff.mp hb).2

/-- An entry of the tree is found under its key. -/
theorem seek_ge_of_mem (ht : t.Rooted s root) (hsearch : t.Search) {e : Cell}
    (he : e ∈ t.entries) :
    ∃ cursor, Cursor.seek s root e.key .ge = .ok cursor ∧ cursor.entry? = some e := by
  obtain ⟨cursor, hcursor, htracks⟩ := ht.seek e.key .ge
  have hcovers := ht.landing_covers hsearch e.key .ge
  obtain ⟨j, hj⟩ := List.getElem?_of_mem he
  have hself : Comparison.ge.holds e.key e.key = true := by
    rw [Comparison.holds, compare_self]
    rfl
  refine ⟨cursor, hcursor, ?_⟩
  cases hlanding : t.landing e.key .ge with
  | none =>
    rw [hlanding] at hcovers
    rw [hcovers e he] at hself
    contradiction
  | some p =>
    rw [hlanding] at hcovers htracks
    obtain ⟨hp, hcovers⟩ := hcovers
    have hstands : t.Stands cursor p := htracks
    obtain ⟨found, hfound⟩ : ∃ found, t.entries[p]? = some found :=
      ⟨_, List.getElem?_eq_getElem hp⟩
    have hle : p ≤ j := (hcovers j e hj).mp hself
    have hholds : Comparison.ge.holds found.key e.key = true :=
      (hcovers p found hfound).mpr (Nat.le_refl p)
    rcases Nat.lt_or_eq_of_le hle with hlt | rfl
    · rw [Comparison.holds, hsearch.ascending.compare_lt hfound hj hlt] at hholds
      contradiction
    · rw [hstands.entry?, hj]

end Rooted

/-! ## How many entries there are -/

theorem Stored.count_le {id : PageId} (h : t.Stored s id) :
    t.count ≤ t.node.size * Nat.pow s.capacity (t.height - 1) := by
  show t.count ≤ t.node.size * s.capacity ^ (t.height - 1)
  induction t generalizing id with
  | leaf n =>
    rw [count_leaf, height, Nat.sub_self, Nat.pow_zero, Nat.mul_one]
    exact Nat.le_refl _
  | inner n child ih =>
    have hchild : ∀ i, (child i).count ≤ s.capacity ^ ((inner n child).height - 1) := by
      intro i
      obtain ⟨below, -, hbelow⟩ := h.child i
      have hsize := s.size_le_capacity hbelow.fetch
      have hpos := height_pos (child i)
      have hlt := height_child_lt n child i
      rcases Nat.eq_zero_or_pos s.capacity with hzero | hcapacity
      · have hcount := ih i hbelow
        have hempty : (child i).node.size = 0 := by omega
        rw [hempty, Nat.zero_mul] at hcount
        exact Nat.le_trans hcount (Nat.zero_le _)
      · calc (child i).count
            ≤ (child i).node.size * s.capacity ^ ((child i).height - 1) := ih i hbelow
          _ ≤ s.capacity * s.capacity ^ ((child i).height - 1) := Nat.mul_le_mul_right _ hsize
          _ = s.capacity ^ (child i).height := by
            rw [← Nat.pow_succ', Nat.succ_eq_add_one, Nat.sub_add_cancel hpos]
          _ ≤ s.capacity ^ ((inner n child).height - 1) :=
            Nat.pow_le_pow_right hcapacity (by omega)
    rw [count, entries_inner]
    exact length_entriesBefore_le hchild (Nat.le_refl _)

theorem Leads.size_le_cellsIn {u : Tree} {frames : List Frame} {start : Nat}
    (h : t.Leads frames u start) (slot : Nat) :
    t.node.size ≤ Cursor.cellsIn (⟨u.node, slot⟩ :: frames) := by
  induction h generalizing slot with
  | top => exact Nat.le_add_right _ _
  | down i _ ih => exact Nat.le_trans (ih i) (Nat.le_add_left _ _)

/-- A cursor on an entry is bound to take more steps than the tree has entries. -/
theorem Stands.count_lt_walkBound {c : Cursor} {i : Nat} (h : t.Stands c i)
    (ht : t.Stored s root) : t.count < c.walkBound s := by
  have hcount := h.lt_count
  have hle := ht.count_le
  have hcapacity : 0 < s.capacity := by
    have hsize := s.size_le_capacity ht.fetch
    rcases Nat.eq_zero_or_pos t.node.size with hzero | hpos
    · rw [hzero, Nat.zero_mul] at hle
      omega
    · omega
  have hpow : s.capacity ^ (t.height - 1) ≤ s.entryBound := by
    have hheight := ht.height_le
    exact Nat.le_succ_of_le (Nat.pow_le_pow_right hcapacity (by omega))
  have hcells : t.node.size ≤ Cursor.cellsIn c.path := by
    cases h with
    | @intro above n start slot hleads _ => exact hleads.size_le_cellsIn slot
  calc t.count
      ≤ t.node.size * s.capacity ^ (t.height - 1) := hle
    _ ≤ Cursor.cellsIn c.path * s.entryBound := Nat.mul_le_mul hcells hpow
    _ < c.walkBound s := Nat.lt_succ_self _

/-- So is any cursor, whatever the direction. -/
theorem Tracks.length_onward_lt {c : Cursor} {i : Option Nat} (h : t.Tracks c i)
    (ht : t.Stored s root) (d : Direction) :
    (d.onward t.entries i).length < c.walkBound s := by
  cases i with
  | none => exact Nat.succ_pos _
  | some i =>
    have hstands : t.Stands c i := h
    have hlen := (d.onward_sublist t.entries (some i)).length_le
    rw [Direction.length_arrange] at hlen
    exact Nat.lt_of_le_of_lt hlen (hstands.count_lt_walkBound ht)

end Tree

end RangeStore
