import RangeStore.Tree.Cursor
set_option autoImplicit false

/-! # Trees of nodes

A `Tree` is what a cursor walks over: a finite tree of nodes, any number of levels deep, with a
subtree for each slot of an internal node. It is a view of a source, not a second store:
`Tree.Stored` says that the source has exactly these nodes below a page id.

Its content is `Tree.entries`, the cells of the leaves from left to right. Besides that the module
gives the bound on which all descents rest. A node that a tree holds below itself would hold the
tree below itself as well, so the ids on a way down are different, and a stored tree is no higher
than the source has nodes (`Tree.Stored.height_le`). -/

namespace RangeStore

/-- A leaf, or an internal node with a tree for each of its slots. -/
inductive Tree where
  | leaf (node : Node)
  | inner (node : Node) (child : Fin node.size → Tree)

namespace Tree

def node : Tree → Node
  | leaf n => n
  | inner n _ => n

/-- The cells of the leaves, from left to right. -/
def entries : Tree → List Cell
  | leaf n => n.cells.toList
  | inner n child => (List.finRange n.size).flatMap fun i => (child i).entries

/-- The entries below the first `count` slots. -/
def entriesBefore {n : Nat} (child : Fin n → Tree) (count : Nat) : List Cell :=
  ((List.finRange n).take count).flatMap fun i => (child i).entries

def count (t : Tree) : Nat := t.entries.length

def height : Tree → Nat
  | leaf _ => 1
  | inner n child => (List.finRange n.size).foldr (fun i h => Nat.max (child i).height h) 0 + 1

/-- No node of the tree is empty. -/
def Full : Tree → Prop
  | leaf n => 0 < n.size
  | inner n child => 0 < n.size ∧ ∀ i, (child i).Full

/-- The source has the nodes below the top one under the page ids that the slots name. -/
def Held (s : NodeSource) : Tree → Prop
  | leaf n => n.isLeaf = true
  | inner n child => n.isLeaf = false ∧
      ∀ i : Fin n.size, ∃ id, n.child? i = some id ∧ s.fetch id = .ok (child i).node ∧
        (child i).Held s

/-- The source has the nodes of the tree, the top one under `id`. -/
structure Stored (s : NodeSource) (id : PageId) (t : Tree) : Prop where
  fetch : s.fetch id = .ok t.node
  held : t.Held s

/-- The tree below a root. Only a leaf at the root may be empty. -/
structure Rooted (s : NodeSource) (root : PageId) (t : Tree) : Prop extends Stored s root t where
  root_ne_zero : root ≠ 0
  full : t.Full ∨ t = leaf t.node

/-! ## Entries slot by slot -/

theorem entries_inner (n : Node) (child : Fin n.size → Tree) :
    (inner n child).entries = entriesBefore child n.size := by
  rw [entriesBefore, List.take_of_length_le (by simp), entries]

@[simp] theorem entriesBefore_zero {n : Nat} (child : Fin n → Tree) :
    entriesBefore child 0 = [] := by
  simp [entriesBefore]

theorem entriesBefore_succ {n : Nat} (child : Fin n → Tree) (i : Fin n) :
    entriesBefore child (i + 1) = entriesBefore child i ++ (child i).entries := by
  have hget : (List.finRange n)[(i : Nat)]? = some i := by
    rw [List.getElem?_eq_getElem (by simp)]
    simp
  rw [entriesBefore, List.take_add_one, hget, List.flatMap_append, entriesBefore]
  simp

theorem length_entriesBefore_succ {n : Nat} (child : Fin n → Tree) (i : Fin n) :
    (entriesBefore child (i + 1)).length = (entriesBefore child i).length + (child i).count := by
  rw [entriesBefore_succ, List.length_append, count]

theorem length_entriesBefore_le {n : Nat} {child : Fin n → Tree} {bound : Nat}
    (h : ∀ i, (child i).count ≤ bound) {k : Nat} (hk : k ≤ n) :
    (entriesBefore child k).length ≤ k * bound := by
  induction k with
  | zero =>
    rw [entriesBefore_zero]
    exact Nat.zero_le _
  | succ k ih =>
    calc (entriesBefore child (k + 1)).length
        = (entriesBefore child k).length + (child ⟨k, hk⟩).count :=
          length_entriesBefore_succ child ⟨k, hk⟩
      _ ≤ k * bound + bound := Nat.add_le_add (ih (Nat.le_of_succ_le hk)) (h _)
      _ = (k + 1) * bound := (Nat.succ_mul k bound).symm

/-- The entries below the first slots are the first entries. -/
theorem entriesBefore_isPrefix {n : Nat} (child : Fin n → Tree) {k m : Nat} (h : k ≤ m) :
    entriesBefore child k <+: entriesBefore child m := by
  have htake : (List.finRange n).take k <+: (List.finRange n).take m :=
    List.take_prefix_take_left h
  obtain ⟨rest, hrest⟩ := htake
  refine ⟨rest.flatMap fun i => (child i).entries, ?_⟩
  rw [entriesBefore, entriesBefore, ← hrest, List.flatMap_append]

/-- What stands before the entries of one child, and behind them. -/
theorem entries_inner_eq (n : Node) (child : Fin n.size → Tree) (i : Fin n.size) :
    ∃ rest, (inner n child).entries = entriesBefore child i ++ (child i).entries ++ rest := by
  obtain ⟨rest, hrest⟩ := entriesBefore_isPrefix child (k := i + 1) (m := n.size) i.isLt
  refine ⟨rest, ?_⟩
  rw [entries_inner, ← hrest, entriesBefore_succ]

@[simp] theorem count_leaf (n : Node) : (leaf n).count = n.size := by
  rw [count, entries, Array.length_toList, Node.size]

theorem Full.size_pos {t : Tree} (h : t.Full) : 0 < t.node.size := by
  cases t with
  | leaf n => exact h
  | inner n child => exact h.1

theorem Full.count_pos {t : Tree} (h : t.Full) : 0 < t.count := by
  induction t with
  | leaf n =>
    rw [count_leaf]
    exact h
  | inner n child ih =>
    -- already the first child has entries
    have hchild := ih ⟨0, h.1⟩ (h.2 _)
    obtain ⟨rest, hrest⟩ := entries_inner_eq n child ⟨0, h.1⟩
    simp only [count, hrest, List.length_append] at hchild ⊢
    omega

/-! ## Height -/

theorem height_pos (t : Tree) : 0 < t.height := by
  cases t with
  | leaf n => exact Nat.one_pos
  | inner n child => exact Nat.succ_pos _

theorem height_child_lt (n : Node) (child : Fin n.size → Tree) (i : Fin n.size) :
    (child i).height < (inner n child).height := by
  have key : ∀ slots : List (Fin n.size), i ∈ slots →
      (child i).height ≤ slots.foldr (fun i h => Nat.max (child i).height h) 0 := by
    intro slots
    induction slots with
    | nil => intro h; contradiction
    | cons j slots ih =>
      intro h
      rw [List.foldr_cons]
      rcases List.mem_cons.mp h with rfl | h
      · exact Nat.le_max_left _ _
      · exact Nat.le_trans (ih h) (Nat.le_max_right _ _)
  exact Nat.lt_succ_of_le (key _ (List.mem_finRange i))

theorem height_inner_le {n : Node} {child : Fin n.size → Tree} {bound : Nat}
    (h : ∀ i, (child i).height ≤ bound) : (inner n child).height ≤ bound + 1 := by
  have key : ∀ slots : List (Fin n.size),
      slots.foldr (fun i h => Nat.max (child i).height h) 0 ≤ bound := by
    intro slots
    induction slots with
    | nil => exact Nat.zero_le _
    | cons j slots ih => exact Nat.max_le.mpr ⟨h j, ih⟩
  exact Nat.succ_le_succ (key _)

/-! ## Stored trees -/

namespace Stored

variable {s : NodeSource} {id : PageId}

/-- A child of a stored tree is stored under the id in its slot. -/
theorem child {n : Node} {child : Fin n.size → Tree} (h : Stored s id (inner n child))
    (i : Fin n.size) : ∃ below, n.child? i = some below ∧ Stored s below (child i) := by
  obtain ⟨below, hid, hfetch, hheld⟩ := h.held.2 i
  exact ⟨below, hid, hfetch, hheld⟩

/-- A source stores at most one tree under an id. -/
theorem unique {t u : Tree} (ht : Stored s id t) (hu : Stored s id u) : t = u := by
  induction t generalizing id u with
  | leaf n =>
    have hnode : u.node = n := Except.ok.inj (hu.fetch.symm.trans ht.fetch)
    have hleaf : n.isLeaf = true := ht.held
    cases u with
    | leaf m => exact congrArg leaf hnode.symm
    | inner m child =>
      have hinner : n.isLeaf = false := (show m = n from hnode) ▸ hu.held.1
      rw [hleaf] at hinner
      contradiction
  | inner n children ih =>
    have hnode : u.node = n := Except.ok.inj (hu.fetch.symm.trans ht.fetch)
    have hinner : n.isLeaf = false := ht.held.1
    cases u with
    | leaf m =>
      have hleaf : n.isLeaf = true := (show m = n from hnode) ▸ hu.held
      rw [hinner] at hleaf
      contradiction
    | inner m others =>
      have hm : m = n := hnode
      subst hm
      -- the slots of the one node name the same ids in both trees
      congr 1
      funext i
      obtain ⟨a, ha, hta⟩ := ht.child i
      obtain ⟨b, hb, hub⟩ := hu.child i
      have hab : a = b := Option.some.inj (ha.symm.trans hb)
      exact ih i hta (hab ▸ hub)

/-- An id passed on the way to a tree is not the tree's own, if higher trees are stored under all
ids passed. -/
theorem not_mem_of_passed {t : Tree} (h : Stored s id t) {passed : List PageId}
    (hpassed : ∀ x ∈ passed, ∃ u : Tree, Stored s x u ∧ t.height < u.height) : id ∉ passed := by
  intro hmem
  obtain ⟨u, hu, hlt⟩ := hpassed id hmem
  rw [h.unique hu] at hlt
  exact Nat.lt_irrefl _ hlt

theorem length_lt_of_passed {t : Tree} (h : Stored s id t) (passed : List PageId)
    (hnodup : passed.Nodup)
    (hpassed : ∀ x ∈ passed, ∃ u : Tree, Stored s x u ∧ t.height < u.height) :
    passed.length < s.extent := by
  obtain ⟨ids, hids, hmem⟩ := s.exists_ids
  have hnodup' : (id :: passed).Nodup := List.nodup_cons.mpr ⟨h.not_mem_of_passed hpassed, hnodup⟩
  have hsub : ∀ x ∈ id :: passed, x ∈ ids := by
    intro x hx
    rcases List.mem_cons.mp hx with rfl | hx
    · exact hmem h.fetch
    · obtain ⟨u, hu, -⟩ := hpassed x hx
      exact hmem hu.fetch
  exact Nat.lt_of_lt_of_le (List.Nodup.length_le_of_subset hnodup' hsub) hids

/-- A way down to a stored tree, together with the tree's height, is no longer than the source
has nodes: the trees at the ids passed are all higher, so none of these ids comes again. -/
theorem height_add_le {t : Tree} (h : Stored s id t) (passed : List PageId)
    (hnodup : passed.Nodup)
    (hpassed : ∀ x ∈ passed, ∃ u : Tree, Stored s x u ∧ t.height < u.height) :
    passed.length + t.height ≤ s.extent := by
  induction t generalizing id passed with
  | leaf n => exact length_lt_of_passed h passed hnodup hpassed
  | inner n children ih =>
    have hlen := length_lt_of_passed h passed hnodup hpassed
    have hnodup' : (id :: passed).Nodup := List.nodup_cons.mpr ⟨h.not_mem_of_passed hpassed, hnodup⟩
    -- for the children the id of this node is one more that was passed
    have hchild : ∀ i, (children i).height ≤ s.extent - (passed.length + 1) := by
      intro i
      obtain ⟨below, -, hbelow⟩ := h.child i
      have hlt := height_child_lt n children i
      have hle := ih i hbelow (id :: passed) hnodup' (by
        intro x hx
        rcases List.mem_cons.mp hx with rfl | hx
        · exact ⟨_, h, hlt⟩
        · obtain ⟨u, hu, hgt⟩ := hpassed x hx
          exact ⟨u, hu, Nat.lt_trans hlt hgt⟩)
      rw [List.length_cons] at hle
      omega
    have hle := height_inner_le hchild
    omega

/-- A stored tree has at most as many levels as the source has nodes. -/
theorem height_le {t : Tree} (h : Stored s id t) : t.height ≤ s.extent := by
  have hle := h.height_add_le [] List.nodup_nil (fun x hx => absurd hx List.not_mem_nil)
  rwa [List.length_nil, Nat.zero_add] at hle

end Stored

end Tree

end RangeStore
