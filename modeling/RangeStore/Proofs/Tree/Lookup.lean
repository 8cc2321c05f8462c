import Mathlib.Order.Bounds.Defs
import RangeStore.Proofs.Tree.Access
import RangeStore.Proofs.Tree.Drafting
import RangeStore.Proofs.Tree.Search
set_option autoImplicit false

/-! # Looking up a key in a node

Which slot belongs to a key can be said without halving: all slots are gone through from the last
one down to the first whose key is at most the sought one, and where none is, it is slot 0
(`Node.lastAtMost`). In a node whose keys ascend this is the slot that the search by halving ends on
(`Node.Made.lookupLE_eq_linear`).

A node is made in two ways, from a page that is read and by a draft (`Node.Made`). Either way its
keys are those that stand on its page, so that the search off the page looks at the same keys. A
page has room for fewer than 4096 cells, and so that search has ended after twelve keys, in whatever
order they are (`Node.Made.lookupWithin_eq`). -/

namespace RangeStore

open Std

namespace Node

/-! ## The rule -/

section

variable (n : Node) (key : Bytes)

/-- The key at a slot is at most `key`. -/
def AtMost (slot : Nat) : Prop :=
  ∃ found, n.key? slot = some found ∧ (compare found key).isLE

instance (slot : Nat) : Decidable (n.AtMost key slot) :=
  decidable_of_iff ((n.key? slot).any fun found => (compare found key).isLE)
    (Option.any_eq_true _ _)

/-- The last of the first `count` slots whose key is at most `key`, or 0 if there is none: they are
looked at one by one, from the last one down. -/
def scanDown : (count : Nat) → Nat
  | 0 => 0
  | count + 1 => if n.AtMost key count then count else scanDown count

/-- The last slot whose key is at most `key`, or 0 if there is none. -/
def lastAtMost : Nat := n.scanDown key n.size

/-- The search among the slots from `lo` to `hi`, as far as it comes in some rounds, each of which
reads one key off the page. -/
def searchWithin : (rounds lo hi : Nat) → Option Nat
  | 0, lo, hi => if lo < hi then none else some lo
  | rounds + 1, lo, hi =>
    if lo < hi then
      match n.pageKey? (lo + (hi - lo) / 2) with
      | none => none
      | some found =>
        if (compare found key).isLE then searchWithin rounds (lo + (hi - lo) / 2 + 1) hi
        else searchWithin rounds lo (lo + (hi - lo) / 2)
    else some lo

/-- The slot for a key by the search off the page, if it comes to its end in some rounds. -/
def lookupWithin (rounds : Nat) : Option Nat :=
  (n.searchWithin key rounds 0 n.size).map (· - 1)

/-- The node was read from a page, or made by a draft that has taken up some cells. -/
inductive Made : Node → Prop
  | read {n : Node} (h : n.OfPage) : Made n
  | drafted (kind : NodeKind) (calls : List NodeDraft.Call) :
      Made (NodeDraft.after { kind := kind } calls).finish

end

variable {n : Node} {key : Bytes}

theorem AtMost.lt_size {slot : Nat} (h : n.AtMost key slot) : slot < n.size := by
  obtain ⟨found, hfound, -⟩ := h
  obtain ⟨cell, hcell, -⟩ := Option.map_eq_some_iff.mp hfound
  exact (Array.getElem?_eq_some_iff.mp hcell).1

/-- Going down, the greatest of the slots in question is met first. -/
theorem scanDown_eq {slot count : Nat} (h : IsGreatest {slot | n.AtMost key slot} slot)
    (hcount : slot < count) : n.scanDown key count = slot := by
  induction count with
  | zero => contradiction
  | succ count ih =>
    rw [scanDown]
    split
    · next hkey => exact Nat.le_antisymm (h.2 hkey) (Nat.lt_succ_iff.mp hcount)
    · next hkey =>
      have hne : slot ≠ count := fun heq => hkey (heq ▸ h.1)
      exact ih (by omega)

theorem scanDown_eq_zero (h : ∀ slot, ¬ n.AtMost key slot) (count : Nat) :
    n.scanDown key count = 0 := by
  induction count with
  | zero => rfl
  | succ count ih => rw [scanDown, if_neg (h count), ih]

theorem lastAtMost_eq {slot : Nat} (h : IsGreatest {slot | n.AtMost key slot} slot) :
    n.lastAtMost key = slot :=
  scanDown_eq h (AtMost.lt_size h.1)

/-! ## The search by halving -/

/-- In a node whose keys ascend, the slots in question are those up to the slot found, unless the
key there is greater too. -/
theorem atMost_iff {found : Cell} {slot : Nat} (hasc : Ascending n.cells.toList)
    (hfound : n.cells[n.lookupLE key]? = some found) :
    n.AtMost key slot ↔ slot ≤ n.lookupLE key ∧ (compare found.key key).isLE := by
  have hlookup := (Array.getElem?_eq_some_iff.mp hfound).1
  have hseat := seats_lookupLE (Nat.zero_lt_of_lt hlookup) hasc key
  rw [← Array.getElem?_toList] at hfound
  constructor
  · rintro ⟨other, hother, hle⟩
    obtain ⟨cell, hcell, rfl⟩ := Option.map_eq_some_iff.mp hother
    rw [← Array.getElem?_toList] at hcell
    rw [hseat.compare_eq hasc hfound hcell] at hle
    rcases Nat.lt_trichotomy slot (n.lookupLE key) with hlt | heq | hgt
    · exact ⟨Nat.le_of_lt hlt, hseat.isLE (Nat.zero_lt_of_lt hlt) found hfound⟩
    · rw [Nat.compare_eq_eq.mpr heq] at hle
      exact ⟨Nat.le_of_eq heq, hle⟩
    · rw [Nat.compare_eq_gt.mpr hgt] at hle
      contradiction
  · rintro ⟨hslot, hle⟩
    have hget : slot < n.cells.size := Nat.lt_of_le_of_lt hslot hlookup
    have hcell : n.cells.toList[slot]? = some n.cells[slot] := by
      rw [Array.getElem?_toList, Array.getElem?_eq_getElem hget]
    refine ⟨n.cells[slot].key, by rw [key?, Array.getElem?_eq_getElem hget]; rfl, ?_⟩
    rw [hseat.compare_eq hasc hfound hcell]
    rcases Nat.lt_or_eq_of_le hslot with hlt | heq
    · rw [Nat.compare_eq_lt.mpr hlt]
      rfl
    · rw [Nat.compare_eq_eq.mpr heq]
      exact hle

theorem isGreatest_lookupLE (hasc : Ascending n.cells.toList) (h : ∃ slot, n.AtMost key slot) :
    IsGreatest {slot | n.AtMost key slot} (n.lookupLE key) := by
  obtain ⟨slot, hslot⟩ := h
  have hlookup : n.lookupLE key < n.cells.size :=
    lookupLE_lt (Nat.zero_lt_of_lt hslot.lt_size) key
  have hfound : n.cells[n.lookupLE key]? = some n.cells[n.lookupLE key] :=
    Array.getElem?_eq_getElem hlookup
  have hle := ((atMost_iff hasc hfound).mp hslot).2
  exact ⟨(atMost_iff hasc hfound).mpr ⟨Nat.le_refl _, hle⟩,
    fun other hother => ((atMost_iff hasc hfound).mp hother).1⟩

theorem lookupLE_eq_zero (hasc : Ascending n.cells.toList) (h : ∀ slot, ¬ n.AtMost key slot) :
    n.lookupLE key = 0 := by
  refine Nat.eq_zero_of_not_pos fun hpos => ?_
  have hsize : 0 < n.size := by
    -- in a node without cells nothing is searched
    have hle := search_le n.cells key 0 n.cells.size (Nat.le_refl _) (Nat.zero_le _)
    rw [lookupLE] at hpos
    exact Nat.lt_of_lt_of_le (Nat.lt_of_lt_of_le hpos (Nat.sub_le _ _)) hle
  have hget : n.lookupLE key < n.cells.size := lookupLE_lt hsize key
  have hfound : n.cells[n.lookupLE key]? = some n.cells[n.lookupLE key] :=
    Array.getElem?_eq_getElem hget
  have hle := (seats_lookupLE hsize hasc key).isLE hpos _
    (by rw [Array.getElem?_toList]; exact hfound)
  exact h _ ((atMost_iff hasc hfound).mpr ⟨Nat.le_refl _, hle⟩)

/-! ## The search off the page -/

/-- Each round leaves at most half of the slots. -/
theorem searchWithin_eq_search (hkeys : ∀ slot, n.pageKey? slot = n.key? slot)
    {rounds lo hi : Nat} (hhi : hi ≤ n.cells.size) (hrounds : hi - lo < 2 ^ rounds) :
    n.searchWithin key rounds lo hi = some (search n.cells key lo hi hhi) := by
  induction rounds generalizing lo hi with
  | zero =>
    have hle : ¬ lo < hi := by omega
    rw [searchWithin, if_neg hle, search, dif_neg hle]
  | succ rounds ih =>
    rw [Nat.pow_succ] at hrounds
    rw [searchWithin, search]
    split
    · next hlt =>
      have hmid : lo + (hi - lo) / 2 < n.cells.size := by omega
      rw [hkeys, key?, Array.getElem?_eq_getElem hmid]
      simp only [Option.map_some]
      split
      · exact ih hhi (by omega)
      · exact ih (by omega) (by omega)
    · rfl

end Node

namespace NodeDraft

/-- A draft has taken up no more cells than a page can list. -/
theorem Filled.size_finish_le {d : NodeDraft} (h : d.Filled) : d.finish.size ≤ Node.maxCells := by
  have hle := h.length_content_le
  have hcells := length_flatMap_cellBytes d.cells.toList
  rw [length_content] at hle
  show d.cells.size ≤ (pageSize - Node.slotsStart) / 2
  rw [← Array.length_toList]
  omega

/-- The cells of a draft stand on its page, and a leaf takes any of them. -/
theorem Filled.laid_finish {d : NodeDraft} (h : d.Filled) : d.finish.Laid .leaf := by
  obtain ⟨-, -, hslots, hcells⟩ := h.bytesAt_finish
  have hsize : d.finish.size = d.cells.toList.length := Array.length_toList.symm
  have hleaf : d.cells.toList.findIdx? (Node.misfit .leaf) = none :=
    findIdx?_misfit_eq_none (Or.inl rfl)
  constructor
  · have hle := h.length_content_le
    have hlengths := length_flatMap_cellBytes d.cells.toList
    rw [length_content] at hle
    rw [hsize]
    omega
  · rw [hsize]
    refine (Node.readCells_eq hslots hcells (Nat.le_refl _)).trans ?_
    rw [hleaf]
    rfl

end NodeDraft

namespace Node

namespace Made

variable {n : Node}

/-- The keys of a node are those that stand on its page. -/
theorem pageKey?_eq (h : n.Made) (slot : Nat) : n.pageKey? slot = n.key? slot := by
  cases h with
  | read h => exact h.pageKey?_eq slot
  | drafted kind calls =>
    exact ((NodeDraft.filled_empty kind).after calls).laid_finish.pageKey?_eq slot

theorem size_le (h : n.Made) : n.size ≤ maxCells := by
  cases h with
  | read h =>
    obtain ⟨p, hp⟩ := h
    exact size_ofPage_le hp
  | drafted kind calls => exact ((NodeDraft.filled_empty kind).after calls).size_finish_le

/-- The search off the page has ended after twelve keys, whatever their order is. -/
theorem lookupWithin_eq (h : n.Made) (key : Bytes) :
    n.lookupWithin key 12 = some (n.lookupLE key) := by
  have hlt : n.cells.size - 0 < 2 ^ 12 := Nat.lt_of_le_of_lt h.size_le (by decide)
  rw [lookupWithin, size, searchWithin_eq_search h.pageKey?_eq (Nat.le_refl _) hlt, lookupLE,
    Option.map_some]

/-- The search by halving finds what the rule says. The node was read from a page or made by a
draft, it is a leaf or an internal node with any number of cells, and its keys ascend. Then the
search off the page has ended after at most twelve keys, and the slot that it gives is the last one
whose key is at most the sought one, as all slots gone through one by one show, and slot 0 if there
is none, such as in a node without cells. -/
theorem lookupLE_eq_linear (h : n.Made) (hasc : Ascending n.cells.toList) (key : Bytes) :
    (∀ slot, n.pageKey? slot = n.key? slot) ∧
      n.lookupWithin key 12 = some (n.lookupLE key) ∧
      n.lookupLE key = n.lastAtMost key ∧
      ((∃ slot, n.AtMost key slot) → IsGreatest {slot | n.AtMost key slot} (n.lookupLE key)) ∧
      ((∀ slot, ¬ n.AtMost key slot) → n.lookupLE key = 0) := by
  refine ⟨h.pageKey?_eq, h.lookupWithin_eq key, ?_, isGreatest_lookupLE hasc, lookupLE_eq_zero hasc⟩
  by_cases hsome : ∃ slot, n.AtMost key slot
  · exact (lastAtMost_eq (isGreatest_lookupLE hasc hsome)).symm
  · have hnone : ∀ slot, ¬ n.AtMost key slot := fun slot hslot => hsome ⟨slot, hslot⟩
    rw [lookupLE_eq_zero hasc hnone, lastAtMost, scanDown_eq_zero hnone]

end Made

/-- An internal node of three children. -/
def threeChildren : Node :=
  (NodeDraft.after { kind := .internal }
    [.pushChild [0x61] 1, .pushChild [0x61, 0x00] 2, .pushChild [0x63] 3]).finish

/-- Between the second key and the third the second child is found, and at a key its own; before all
keys it is the first. -/
theorem lookupLE_eq_linear_three :
    threeChildren.Made ∧ Ascending threeChildren.cells.toList ∧
      threeChildren.lookupWithin [0x61, 0x00, 0xFF] 12 = some 1 ∧
      threeChildren.lookupLE [0x61] = 0 ∧ threeChildren.lookupLE [0x63] = 2 ∧
      threeChildren.lookupLE [] = 0 := by
  have hmade : threeChildren.Made := .drafted _ _
  have hasc : Ascending threeChildren.cells.toList := by
    unfold Ascending
    decide
  have hbetween := hmade.lookupLE_eq_linear hasc [0x61, 0x00, 0xFF]
  refine ⟨hmade, hasc, ?_, ?_, ?_, ?_⟩
  · rw [hbetween.2.1, hbetween.2.2.1]
    rfl
  · rw [(hmade.lookupLE_eq_linear hasc [0x61]).2.2.1]
    rfl
  · rw [(hmade.lookupLE_eq_linear hasc [0x63]).2.2.1]
    rfl
  · rw [(hmade.lookupLE_eq_linear hasc []).2.2.1]
    rfl

end Node

end RangeStore
