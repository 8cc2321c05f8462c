import Mathlib.Data.List.Nodup
import RangeStore.Proofs.Tree.Search
set_option autoImplicit false

/-! # Balanced trees

What there is to say about the nodes of a tree besides its entries: how many cells a node has, on
which level the leaves stand, which key separates a child from those before it, and which page ids
the slots name. `Tree.refs` lists these slot by slot, so an id that two slots name is listed
twice. -/

namespace RangeStore.Tree

open Std

/-- The page ids that the slots of the nodes name, each as often as a slot names it. -/
def refs : Tree → List PageId
  | leaf _ => []
  | inner n child =>
    (List.finRange n.size).flatMap fun i : Fin n.size => (n.child? i).toList ++ (child i).refs

/-- No node has more than `bound` cells. -/
def Within (bound : Nat) : Tree → Prop
  | leaf n => n.size ≤ bound
  | inner n child => n.size ≤ bound ∧ ∀ i, (child i).Within bound

/-- All leaves are at the same depth: every way down has `depth` nodes. -/
def LeavesAt : Tree → (depth : Nat) → Prop
  | leaf _, depth => depth = 1
  | inner _ child, depth => ∃ below, depth = below + 1 ∧ ∀ i, (child i).LeavesAt below

/-- Below a node with this id each slot names a smaller id than the node's own. -/
def Descends : Tree → (id : PageId) → Prop
  | leaf _, _ => True
  | inner n child, id => ∀ i : Fin n.size, ∃ below, n.child? i = some below ∧ below < id ∧
      (child i).Descends below

/-- Each separator is the least key below its slot. -/
def LeastKeys : Tree → Prop
  | leaf _ => True
  | inner n child => ∀ i : Fin n.size,
      (∃ e ∈ (child i).entries, n.key? i = some e.key ∧
        ∀ other ∈ (child i).entries, (compare e.key other.key).isLE) ∧
      (child i).LeastKeys

/-- In ascending order the first key is the least. -/
theorem isLE_of_ascending {e : Cell} {rest : List Cell} (h : Ascending (e :: rest)) :
    ∀ other ∈ e :: rest, (compare e.key other.key).isLE := by
  intro other hother
  rcases List.mem_cons.mp hother with rfl | hother
  · rw [ReflOrd.compare_self]
    rfl
  · rw [(List.pairwise_cons.mp h).1 other hother]
    rfl

theorem Search.leastKeys {t : Tree} (h : t.Search) (hfull : t.Full) : t.LeastKeys := by
  induction t with
  | leaf n => trivial
  | inner n child ih =>
    intro i
    have hchild : (child i).Search := h.below i
    refine ⟨?_, ih i hchild (hfull.2 i)⟩
    obtain ⟨e, rest, hentries⟩ :=
      List.exists_cons_of_ne_nil (List.length_pos_iff.mp (hfull.2 i).count_pos)
    refine ⟨e, hentries ▸ List.mem_cons_self .., ?_, ?_⟩
    · rw [(h.separated i).1, hentries]
      rfl
    · rw [hentries]
      exact isLE_of_ascending (hentries ▸ hchild.ascending)

/-- Where the ids of the top and of all slots are different, each is the top's or is named by just
one slot. -/
theorem count_refs_eq_one {t : Tree} {top id : PageId} {ids : List PageId}
    (h : (top :: t.refs).Perm ids) (hnodup : ids.Nodup) (hid : id ∈ ids) :
    id = top ∨ t.refs.count id = 1 := by
  have hall : (top :: t.refs).Nodup := h.nodup_iff.mpr hnodup
  rcases List.mem_cons.mp (h.mem_iff.mpr hid) with rfl | hmem
  · exact Or.inl rfl
  · exact Or.inr (List.count_eq_one_of_mem (List.nodup_cons.mp hall).2 hmem)

end RangeStore.Tree
