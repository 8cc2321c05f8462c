import RangeStore.Proofs.Tree.Balance
import RangeStore.Proofs.Tree.Packing
set_option autoImplicit false

/-! # Loaded trees

Loading entries in bulk loses none of them and gives a balanced search tree of all nodes that were
put: `bulkLoad_balanced`. A level of the tree is seen as a list of trees, each under the child that
the next level will name it by (`BulkLoad.Level`). Packing the children of a level cuts the list of
trees into groups, and each becomes one tree (`BulkLoad.exists_joined`). What is put later keeps
what was put before, so a level is still there when the one above it has been packed, and the ids of
its nodes come later than those of the nodes below. -/

namespace RangeStore

namespace Tree

variable {s s' : NodeSource}

theorem Held.keep {t : Tree} (h : t.Held s) (hkeep : s.Keeps s') : t.Held s' := by
  induction t with
  | leaf n => exact h
  | inner n child ih =>
    refine ⟨h.1, fun i => ?_⟩
    obtain ⟨id, hid, hfetch, hheld⟩ := h.2 i
    exact ⟨id, hid, hkeep hfetch, ih i hheld⟩

theorem Rooted.keep {root : PageId} {t : Tree} (h : t.Rooted s root) (hkeep : s.Keeps s') :
    t.Rooted s' root :=
  { h with fetch := hkeep h.fetch, held := h.held.keep hkeep }

end Tree

namespace BulkLoad

variable {σ : Type} [Storage σ]

/-- What climbing from more than one child does when it succeeds: it packs the children and goes on
with the nodes that they were packed into, which are fewer. -/
theorem climb_cons_eq_ok {maxKeys : Nat} {first second : Bytes × PageId}
    {rest : List (Bytes × PageId)} {store store' : σ} {root : PageId}
    (h : climb maxKeys (first :: second :: rest) store = (.ok root, store')) :
    ∃ parents packed, pack maxKeys .internal ((first :: second :: rest).map childCell) store =
        (.ok parents, packed) ∧
      parents.length < (first :: second :: rest).length ∧
      climb maxKeys parents packed = (.ok root, store') := by
  unfold climb at h
  dsimp only at h
  split at h
  · cases h
  · next parents packed hpack =>
    split at h
    · next hlt => exact ⟨parents, packed, hpack, hlt, h⟩
    · cases h

/-- What loading does when it succeeds: it packs the entries into leaves and climbs from them. -/
theorem bulkLoad_eq_ok {maxKeys : Nat} {entries : List Cell} {store store' : σ} {root : PageId}
    (h : bulkLoad maxKeys entries store = (.ok root, store')) :
    minFanout ≤ maxKeys ∧ ∃ leaves packed, pack maxKeys .leaf entries store = (.ok leaves, packed) ∧
      climb maxKeys leaves packed = (.ok root, store') := by
  unfold bulkLoad at h
  split at h
  · cases h
  · next hfanout =>
    split at h
    · cases h
    · next leaves packed hpack => exact ⟨Nat.le_of_not_lt hfanout, leaves, packed, hpack, h⟩

variable [LawfulStorage σ]

open LawfulStorage (Sound)

/-! ## Trees of a level -/

/-- A tree of a level, stored under the child by which the next level names it. -/
structure Grown (s : NodeSource) (child : Bytes × PageId) (t : Tree) : Prop
    extends Tree.Stored s child.2 t where
  ne_zero : child.2 ≠ 0
  full : t.Full
  separated : t.Separated
  key_eq : t.entries.head?.map (·.key) = some child.1

theorem Grown.keep {s s' : NodeSource} {child : Bytes × PageId} {t : Tree} (h : Grown s child t)
    (hkeep : s.Keeps s') : Grown s' child t :=
  { h with fetch := hkeep h.fetch, held := h.held.keep hkeep }

theorem leaf_grown {s : NodeSource} {child : Bytes × PageId} {d : NodeDraft}
    (h : Packed s .leaf child d) (hne : d.cells.toList ≠ []) :
    Grown s child (.leaf d.finish) where
  fetch := h.fetch
  held := decide_eq_true h.kind_eq
  ne_zero := h.ne_zero
  full := by
    show 0 < d.cells.size
    rw [← Array.length_toList]
    exact List.length_pos_iff.mpr hne
  separated := trivial
  key_eq := by
    show d.cells.toList.head?.map (·.key) = some child.1
    obtain ⟨first, rest, hcells⟩ := List.exists_cons_of_ne_nil hne
    have hfirst : d.cells[0]? = some first := by
      rw [← Array.getElem?_toList, hcells]
      rfl
    rw [h.key_eq, NodeDraft.firstKey?, hfirst, hcells]
    rfl

theorem flatMap_finRange_get {α β : Type} (l : List α) (f : α → List β) {n : Nat}
    (h : n = l.length) :
    ((List.finRange n).flatMap fun i => f (l.get (i.cast h))) = l.flatMap f := by
  subst h
  rw [List.flatMap_def, List.flatMap_def]
  refine congrArg List.flatten (List.ext_getElem (by simp) fun i _ _ => ?_)
  simp

/-! ## Joining trees -/

/-- An internal node whose slots name the children of some trees, in this order. -/
structure Names (n : Node) (group : List ((Bytes × PageId) × Tree)) : Prop where
  internal : n.isLeaf = false
  cells_eq : n.cells.toList = group.map fun g => childCell g.1

namespace Names

variable {n : Node} {group : List ((Bytes × PageId) × Tree)}

theorem size_eq (h : Names n group) : n.size = group.length := by
  rw [Node.size, ← Array.length_toList, h.cells_eq, List.length_map]

theorem getElem?_cells (h : Names n group) (i : Fin n.size) :
    n.cells[(i : Nat)]? = some (childCell (group.get (i.cast h.size_eq)).1) := by
  rw [← Array.getElem?_toList, h.cells_eq, List.getElem?_map,
    List.getElem?_eq_getElem (h.size_eq ▸ i.isLt)]
  rfl

theorem child?_eq (h : Names n group) (i : Fin n.size) :
    n.child? i = some (group.get (i.cast h.size_eq)).1.2 := by
  rw [Node.child?, h.internal, h.getElem?_cells i]
  exact Cell.child?_ofChild _ _

theorem key?_eq (h : Names n group) (i : Fin n.size) :
    n.key? i = some (group.get (i.cast h.size_eq)).1.1 := by
  rw [Node.key?, h.getElem?_cells i]
  rfl

/-- The tree of the node over the trees that it names. -/
def join (h : Names n group) : Tree := .inner n fun i => (group.get (i.cast h.size_eq)).2

theorem entries_join (h : Names n group) : h.join.entries = group.flatMap (·.2.entries) :=
  flatMap_finRange_get group (·.2.entries) h.size_eq

theorem refs_join (h : Names n group) :
    h.join.refs = group.flatMap fun g => g.1.2 :: g.2.refs := by
  rw [← flatMap_finRange_get group (fun g => g.1.2 :: g.2.refs) h.size_eq]
  simp only [join, Tree.refs, h.child?_eq, Option.toList_some, List.singleton_append]

end Names

/-- One tree made of those in a group, stored under a child of the next level. -/
structure Joined (s : NodeSource) (child : Bytes × PageId)
    (group : List ((Bytes × PageId) × Tree)) (t : Tree) : Prop where
  grown : Grown s child t
  entries_eq : t.entries = group.flatMap (·.2.entries)
  refs_eq : t.refs = group.flatMap fun g => g.1.2 :: g.2.refs
  within : ∀ bound, group.length ≤ bound → (∀ g ∈ group, g.2.Within bound) → t.Within bound
  leavesAt : ∀ depth, (∀ g ∈ group, g.2.LeavesAt depth) → t.LeavesAt (depth + 1)
  descends : (∀ g ∈ group, g.1.2 < child.2 ∧ g.2.Descends g.1.2) → t.Descends child.2

theorem Names.grown {s : NodeSource} {child : Bytes × PageId} {d : NodeDraft}
    {group : List ((Bytes × PageId) × Tree)} (h : Names d.finish group)
    (hpacked : Packed s .internal child d) (hne : group ≠ [])
    (hgroup : ∀ g ∈ group, Grown s g.1 g.2) : Grown s child h.join := by
  have hgrown : ∀ i : Fin d.finish.size,
      Grown s (group.get (i.cast h.size_eq)).1 (group.get (i.cast h.size_eq)).2 :=
    fun i => hgroup _ (List.get_mem _ _)
  refine ⟨⟨hpacked.fetch, h.internal, fun i => ?_⟩, hpacked.ne_zero,
    ⟨?_, fun i => (hgrown i).full⟩, fun i => ⟨?_, (hgrown i).separated⟩, ?_⟩
  · exact ⟨_, h.child?_eq i, (hgrown i).fetch, (hgrown i).held⟩
  · rw [h.size_eq]
    exact List.length_pos_iff.mpr hne
  · rw [h.key?_eq i, (hgrown i).key_eq]
  · -- the first entry is the first child's, and so is the key of the node
    obtain ⟨first, rest, hfirst⟩ := List.exists_cons_of_ne_nil hne
    have hkey := (hgroup first (hfirst ▸ List.mem_cons_self ..)).key_eq
    have hget : d.cells[0]? = some (childCell first.1) := by
      rw [← Array.getElem?_toList, show d.cells.toList = _ from h.cells_eq, hfirst]
      rfl
    obtain ⟨e, he, hekey⟩ := Option.map_eq_some_iff.mp hkey
    rw [h.entries_join, hfirst, List.flatMap_cons, hpacked.key_eq, NodeDraft.firstKey?, hget,
      List.head?_append, he]
    exact congrArg some hekey

/-- Trees whose children make up one packed node are the children of one tree. -/
theorem exists_joined {s : NodeSource} {child : Bytes × PageId} {d : NodeDraft}
    {group : List ((Bytes × PageId) × Tree)} (h : Packed s .internal child d)
    (hcells : d.cells.toList = group.map fun g => childCell g.1) (hne : group ≠ [])
    (hgroup : ∀ g ∈ group, Grown s g.1 g.2) : ∃ t, Joined s child group t := by
  have hinternal : d.finish.isLeaf = false := by
    show decide (d.kind = .leaf) = false
    rw [h.kind_eq]
    rfl
  have hnames : Names d.finish group := ⟨hinternal, hcells⟩
  have hget : ∀ {P : (Bytes × PageId) × Tree → Prop}, (∀ g ∈ group, P g) →
      ∀ i : Fin d.finish.size, P (group.get (i.cast hnames.size_eq)) :=
    fun hP i => hP _ (List.get_mem _ _)
  refine ⟨hnames.join, hnames.grown h hne hgroup, hnames.entries_join, hnames.refs_join,
    ?_, ?_, ?_⟩
  · intro bound hlen hbound
    exact ⟨hnames.size_eq ▸ hlen, fun i => hget hbound i⟩
  · intro depth hdepth
    exact ⟨depth, rfl, fun i => hget hdepth i⟩
  · intro hless i
    obtain ⟨hlt, hbelow⟩ := hget hless i
    exact ⟨_, hnames.child?_eq i, hlt, hbelow⟩

/-- The groups into which the children of a level were packed are the trees of the next level. -/
theorem exists_level {s : NodeSource} {maxKeys : Nat}
    {packed : List ((Bytes × PageId) × NodeDraft)} {level : List ((Bytes × PageId) × Tree)}
    (hpacked : ∀ p ∈ packed, Packed s .internal p.1 p.2 ∧ p.2.size ≤ maxKeys ∧
      p.2.cells.toList ≠ [])
    (hlevel : ∀ g ∈ level, Grown s g.1 g.2)
    (hflat : packed.flatMap (·.2.cells.toList) = level.map fun g => childCell g.1) :
    ∃ next : List ((Bytes × PageId) × Tree), next.map (·.1) = packed.map (·.1) ∧
      next.flatMap (·.2.entries) = level.flatMap (·.2.entries) ∧
      next.flatMap (·.2.refs) = level.flatMap (fun g => g.1.2 :: g.2.refs) ∧
      ∀ g ∈ next, ∃ group, (∀ m ∈ group, m ∈ level) ∧ group.length ≤ maxKeys ∧
        Joined s g.1 group g.2 := by
  induction packed generalizing level with
  | nil =>
    have hnil : level = [] := by simpa using hflat.symm
    subst hnil
    exact ⟨[], rfl, rfl, rfl, fun g hg => by contradiction⟩
  | cons p packed ih =>
    rw [List.flatMap_cons] at hflat
    -- the first draft took the children of the first few trees
    obtain ⟨group, others, rfl, hgroup, hothers⟩ := List.map_eq_append_iff.mp hflat.symm
    obtain ⟨hfirst, hsize, hne⟩ := hpacked p (List.mem_cons_self ..)
    have hgroup_ne : group ≠ [] := by
      rintro rfl
      exact hne hgroup.symm
    have hlen : group.length ≤ maxKeys := by
      have hcount := congrArg List.length hgroup
      rw [List.length_map] at hcount
      rw [hcount, Array.length_toList]
      exact hsize
    obtain ⟨t, ht⟩ := exists_joined hfirst hgroup.symm hgroup_ne fun g hg =>
      hlevel g (List.mem_append_left _ hg)
    obtain ⟨next, hkeys, hentries, hrefs, hall⟩ := ih
      (fun q hq => hpacked q (List.mem_cons_of_mem _ hq))
      (fun g hg => hlevel g (List.mem_append_right _ hg)) hothers.symm
    refine ⟨(p.1, t) :: next, ?_, ?_, ?_, ?_⟩
    · rw [List.map_cons, List.map_cons, hkeys]
    · rw [List.flatMap_cons, List.flatMap_append, ht.entries_eq, hentries]
    · rw [List.flatMap_cons, List.flatMap_append, ht.refs_eq, hrefs]
    · intro g hg
      rcases List.mem_cons.mp hg with rfl | hg
      · exact ⟨group, fun m hm => List.mem_append_left _ hm, hlen, ht⟩
      · obtain ⟨group', hsub, hjoined⟩ := hall g hg
        exact ⟨group', fun m hm => List.mem_append_right _ (hsub m hm), hjoined⟩

/-! ## Levels -/

/-- A level of trees of the same depth. The nodes of these trees are those that were put under the
ids in `made`; if these were given out in ascending order, the ids descend on every way down. -/
structure Level (s : NodeSource) (maxKeys depth : Nat) (made : List PageId)
    (level : List ((Bytes × PageId) × Tree)) : Prop where
  grown : ∀ g ∈ level, Grown s g.1 g.2
  within : ∀ g ∈ level, g.2.Within maxKeys
  leavesAt : ∀ g ∈ level, g.2.LeavesAt depth
  pages : (level.flatMap fun g => g.1.2 :: g.2.refs).Perm made
  descends : made.Pairwise (· < ·) → ∀ g ∈ level, g.2.Descends g.1.2

theorem Level.keep {s s' : NodeSource} {maxKeys depth : Nat} {made : List PageId}
    {level : List ((Bytes × PageId) × Tree)} (h : Level s maxKeys depth made level)
    (hkeep : s.Keeps s') : Level s' maxKeys depth made level :=
  { h with grown := fun g hg => (h.grown g hg).keep hkeep }

/-- The ids of a level, each with those below it, and all ids below the next level. -/
theorem flatMap_refs_perm (next : List ((Bytes × PageId) × Tree)) :
    (next.flatMap fun g => g.1.2 :: g.2.refs).Perm
      (next.flatMap (·.2.refs) ++ next.map (·.1.2)) := by
  induction next with
  | nil => exact List.Perm.refl _
  | cons g next ih =>
    rw [List.flatMap_cons, List.flatMap_cons, List.map_cons, List.append_assoc]
    calc (g.1.2 :: g.2.refs ++ next.flatMap fun g => g.1.2 :: g.2.refs)
        |>.Perm (g.1.2 :: (g.2.refs ++ (next.flatMap (·.2.refs) ++ next.map (·.1.2)))) :=
          (ih.append_left g.2.refs).cons _
      _ |>.Perm (g.2.refs ++ (g.1.2 :: (next.flatMap (·.2.refs) ++ next.map (·.1.2)))) :=
          List.perm_middle.symm
      _ |>.Perm (g.2.refs ++ (next.flatMap (·.2.refs) ++ g.1.2 :: next.map (·.1.2))) :=
          List.perm_middle.symm.append_left _

/-- One level up: the children of a level, packed into nodes that were put after all nodes below. -/
theorem Level.raise {s : NodeSource} {maxKeys depth : Nat} {made : List PageId}
    {level : List ((Bytes × PageId) × Tree)} {packed : List ((Bytes × PageId) × NodeDraft)}
    (h : Level s maxKeys depth made level) (hne : level ≠ [])
    (hgroups : Groups s maxKeys .internal (level.map fun g => childCell g.1) packed) :
    ∃ next : List ((Bytes × PageId) × Tree), next.map (·.1) = packed.map (·.1) ∧
      next.flatMap (·.2.entries) = level.flatMap (·.2.entries) ∧
      Level s maxKeys (depth + 1) (made ++ packed.map (·.1.2)) next := by
  have hpacked : ∀ p ∈ packed, Packed s .internal p.1 p.2 ∧ p.2.size ≤ maxKeys ∧
      p.2.cells.toList ≠ [] := fun p hp =>
    ⟨hgroups.put p hp, hgroups.size_le p hp, fun hnil =>
      hne (List.map_eq_nil_iff.mp (hgroups.nonempty p hp hnil))⟩
  obtain ⟨next, hkeys, hentries, hrefs, hjoined⟩ := exists_level hpacked h.grown hgroups.flat
  have hids : next.map (·.1.2) = packed.map (·.1.2) := by
    have hboth := congrArg (List.map Prod.snd) hkeys
    rwa [List.map_map, List.map_map] at hboth
  refine ⟨next, hkeys, hentries, ?_, ?_, ?_, ?_, ?_⟩
  · intro g hg
    obtain ⟨_, -, -, hg⟩ := hjoined g hg
    exact hg.grown
  · intro g hg
    obtain ⟨group, hsub, hlen, hg⟩ := hjoined g hg
    exact hg.within maxKeys hlen fun m hm => h.within m (hsub m hm)
  · intro g hg
    obtain ⟨group, hsub, -, hg⟩ := hjoined g hg
    exact hg.leavesAt depth fun m hm => h.leavesAt m (hsub m hm)
  · rw [← hids]
    refine (flatMap_refs_perm next).trans ?_
    rw [hrefs]
    exact h.pages.append_right _
  · intro hascending g hg
    obtain ⟨hmade, -, hlater⟩ := List.pairwise_append.mp hascending
    obtain ⟨group, hsub, -, hjoined⟩ := hjoined g hg
    refine hjoined.descends fun m hm => ⟨?_, h.descends hmade m (hsub m hm)⟩
    -- the child was put with its level, the node above it afterwards
    have hbefore : m.1.2 ∈ made := h.pages.mem_iff.mp
      (List.mem_flatMap.mpr ⟨m, hsub m hm, List.mem_cons_self ..⟩)
    exact hlater _ hbefore _ (hids ▸ List.mem_map_of_mem hg)

/-! ## The whole tree -/

/-- Climbing from a level ends in one tree with the entries of the level. -/
theorem climb_ok {maxKeys : Nat} (hmax : 0 < maxKeys) {level : List ((Bytes × PageId) × Tree)}
    {depth : Nat} {made : List PageId} {store store' : σ} {root : PageId} (hstore : Sound store)
    (hlevel : Level (Storage.source store) maxKeys depth made level)
    (h : climb maxKeys (level.map (·.1)) store = (.ok root, store')) :
    ∃ key t height more, Puts store more store' ∧ t.entries = level.flatMap (·.2.entries) ∧
      Level (Storage.source store') maxKeys height (made ++ more) [((key, root), t)] := by
  -- by the length of the level, since the one above it is shorter
  induction hlen : level.length using Nat.strongRecOn generalizing level depth made store with
  | ind count ih =>
    match level, h with
    | [], h =>
      unfold climb at h
      cases h
    | [g], h =>
      unfold climb at h
      obtain ⟨hroot, rfl⟩ := Prod.mk.inj h
      obtain rfl := Except.ok.inj hroot
      refine ⟨g.1.1, g.2, depth, [], Puts.done _, by simp, ?_⟩
      rw [List.append_nil]
      exact hlevel
    | first :: second :: rest, h =>
      -- the children are packed into the nodes of the next level, from where climbing goes on
      obtain ⟨parents, packedStore, hpack, hlt, hclimb⟩ := climb_cons_eq_ok h
      have hchild : ∀ c ∈ ((first :: second :: rest).map (·.1)).map childCell,
          c.value.length = 8 := by
        intro c hc
        obtain ⟨child, -, rfl⟩ := List.mem_map.mp hc
        exact Bytes.length_little _ _
      obtain ⟨packed, hparents, hputs, hgroups⟩ :=
        packFrom_ok hmax hstore (NodeDraft.sound_empty _) (Nat.zero_le _) (fun _ => hchild) hpack
      obtain ⟨hsound, hkeep⟩ := hputs.sound_keeps hstore
      rw [List.map_map] at hgroups
      obtain ⟨next, hnext, hentries, hraised⟩ :=
        (hlevel.keep hkeep).raise (List.cons_ne_nil _ _) hgroups
      rw [List.reverse_nil, List.nil_append, ← hnext] at hparents
      rw [hparents] at hclimb hlt
      obtain ⟨key, t, height, more, hmore, htree, htop⟩ :=
        ih next.length (by simpa [← hlen] using hlt) hsound hraised hclimb rfl
      rw [List.append_assoc] at htop
      exact ⟨key, t, height, _, hputs.trans hmore, htree.trans hentries, htop⟩

/-- Packed leaves are a level of trees with the entries. -/
theorem pack_leaves_ok {maxKeys : Nat} (hmax : 0 < maxKeys) {entries : List Cell}
    (hne : entries ≠ []) {leaves : List (Bytes × PageId)} {store store' : σ} (hstore : Sound store)
    (h : pack maxKeys .leaf entries store = (.ok leaves, store')) :
    ∃ (level : List ((Bytes × PageId) × Tree)) (made : List PageId), leaves = level.map (·.1) ∧
      Puts store made store' ∧ level.flatMap (·.2.entries) = entries ∧
      Level (Storage.source store') maxKeys 1 made level := by
  obtain ⟨packed, hleaves, hputs, hgroups⟩ := packFrom_ok hmax hstore (NodeDraft.sound_empty _)
    (Nat.zero_le _) (fun hkind => by contradiction) h
  have hleaf : ∀ g ∈ packed.map fun p => (p.1, Tree.leaf p.2.finish),
      ∃ p ∈ packed, g = (p.1, Tree.leaf p.2.finish) := by
    intro g hg
    obtain ⟨p, hp, rfl⟩ := List.mem_map.mp hg
    exact ⟨p, hp, rfl⟩
  refine ⟨packed.map fun p => (p.1, Tree.leaf p.2.finish), _, ?_, hputs, ?_, ?_, ?_, ?_, ?_, ?_⟩
  · rw [hleaves, List.map_map]
    rfl
  · rw [List.flatMap_map]
    exact hgroups.flat
  · intro g hg
    obtain ⟨p, hp, rfl⟩ := hleaf g hg
    exact leaf_grown (hgroups.put p hp) fun hnil => hne (by simpa using hgroups.nonempty p hp hnil)
  · intro g hg
    obtain ⟨p, hp, rfl⟩ := hleaf g hg
    exact hgroups.size_le p hp
  · intro g hg
    obtain ⟨p, -, rfl⟩ := hleaf g hg
    rfl
  · have hids : ((packed.map fun p => (p.1, Tree.leaf p.2.finish)).flatMap
        fun g => g.1.2 :: g.2.refs) = packed.map (·.1.2) := by
      rw [List.flatMap_map]
      exact List.flatMap_pure_eq_map ..
    rw [hids]
  · intro _ g hg
    obtain ⟨p, -, rfl⟩ := hleaf g hg
    trivial

end BulkLoad

/-- What loading entries makes: below the root a search tree of just these entries, whose nodes are
those that were put under the ids in `made`. -/
structure Loaded (s : NodeSource) (maxKeys : Nat) (entries : List Cell) (root : PageId)
    (made : List PageId) (t : Tree) : Prop extends Tree.Rooted s root t where
  search : t.Search
  entries_eq : t.entries = entries
  within : t.Within maxKeys
  leavesAt : ∃ depth, t.LeavesAt depth
  pages : (root :: t.refs).Perm made
  descends : made.Pairwise (· < ·) → t.Descends root

open BulkLoad in
/-- Loading puts the nodes of one search tree, and nothing else. -/
theorem bulkLoad_loaded {σ : Type} [Storage σ] [LawfulStorage σ] {maxKeys : Nat}
    {entries : List Cell} {store store' : σ} {root : PageId} (hstore : LawfulStorage.Sound store)
    (h : bulkLoad maxKeys entries store = (.ok root, store')) :
    ∃ made t, Puts store made store' ∧
      Loaded (Storage.source store') maxKeys entries root made t := by
  obtain ⟨hfanout, leaves, packed, hpack, hclimb⟩ := bulkLoad_eq_ok h
  have hmax : 0 < maxKeys := Nat.lt_of_lt_of_le Nat.two_pos hfanout
  by_cases hne : entries = []
  · -- the root is the one empty leaf
    subst hne
    obtain ⟨child, hflush, rfl⟩ := pack_nil_eq_ok hpack
    obtain ⟨hput, hpacked⟩ := flush_ok hstore (NodeDraft.sound_empty _) hflush
    unfold climb at hclimb
    obtain ⟨hroot, rfl⟩ := Prod.mk.inj hclimb
    obtain rfl : child.2 = root := Except.ok.inj hroot
    exact ⟨[child.2], .leaf (NodeDraft.finish { kind := .leaf }), hput,
      ⟨⟨⟨hpacked.fetch, rfl⟩, hpacked.ne_zero, Or.inr rfl⟩, ⟨List.Pairwise.nil, trivial⟩, rfl,
        Nat.zero_le _, ⟨1, rfl⟩, List.Perm.refl _, fun _ => trivial⟩⟩
  · -- the leaves are the first level, the root is the one tree of the last
    obtain ⟨level, made, rfl, hputs, hentries, hlevel⟩ := pack_leaves_ok hmax hne hstore hpack
    obtain ⟨key, t, height, more, hmore, htree, htop⟩ :=
      climb_ok hmax (hputs.sound_keeps hstore).1 hlevel hclimb
    have heq : t.entries = entries := htree.trans hentries
    have hascending : Ascending t.entries := heq ▸ (packFrom_ascending hpack).1
    have hmem : ((key, root), t) ∈ [((key, root), t)] := List.mem_singleton.mpr rfl
    have ht := htop.grown _ hmem
    refine ⟨made ++ more, t, hputs.trans hmore,
      ⟨⟨ht.toStored, ht.ne_zero, Or.inl ht.full⟩, ⟨hascending, ht.separated⟩, heq,
        htop.within _ hmem, ⟨height, htop.leavesAt _ hmem⟩, ?_,
        fun hpairwise => htop.descends hpairwise _ hmem⟩⟩
    have hpages := htop.pages
    rwa [List.flatMap_singleton] at hpages

/-- Entries that were loaded are in order, and below the root is a search tree of just these
entries. Nothing that the store had is lost. -/
theorem bulkLoad_ok {σ : Type} [Storage σ] [LawfulStorage σ] {maxKeys : Nat} {entries : List Cell}
    {store store' : σ} {root : PageId} (hstore : LawfulStorage.Sound store)
    (h : bulkLoad maxKeys entries store = (.ok root, store')) :
    LawfulStorage.Sound store' ∧ (Storage.source store).Keeps (Storage.source store') ∧
      ∃ t : Tree, t.Rooted (Storage.source store') root ∧ t.Search ∧ t.entries = entries := by
  obtain ⟨made, t, hputs, ht⟩ := bulkLoad_loaded hstore h
  obtain ⟨hsound, hkeep⟩ := hputs.sound_keeps hstore
  exact ⟨hsound, hkeep, t, ht.toRooted, ht.search, ht.entries_eq⟩

/-- Loading entries puts the nodes of one tree and nothing else: the leaves, all at the same depth,
hold the entries in their order, no node has more cells than it may have, and none is empty but the
single leaf that holds no entries. Each separator is the least key below it. The ids descend from
the root, and each node that was put is the root or the child of just one slot. -/
theorem bulkLoad_balanced {σ : Type} [Storage σ] [LawfulStorage σ] [SerialStorage σ]
    {maxKeys : Nat} {entries : List Cell} {store store' : σ} {root : PageId}
    (hstore : LawfulStorage.Sound store)
    (h : bulkLoad maxKeys entries store = (.ok root, store')) :
    ∃ made t, Puts store made store' ∧ Tree.Stored (Storage.source store') root t ∧
      t.entries = entries ∧ (∃ depth, t.LeavesAt depth) ∧ t.Within maxKeys ∧
      (entries = [] → t = .leaf t.node ∧ t.node.size = 0) ∧ (entries ≠ [] → t.Full) ∧
      t.LeastKeys ∧ t.Descends root ∧
      (∀ id ∈ made, id = root ∨ t.refs.count id = 1) := by
  obtain ⟨made, t, hputs, ht⟩ := bulkLoad_loaded hstore h
  obtain ⟨-, hascending, -⟩ := hputs.taken_eq hstore
  have hcount : t.count = entries.length := by rw [Tree.count, ht.entries_eq]
  have hempty : entries = [] → t = .leaf t.node ∧ t.node.size = 0 := fun hnil =>
    ht.toRooted.count_eq_zero_iff.mp (hcount.trans (List.length_eq_zero_iff.mpr hnil))
  have hfull : entries ≠ [] → t.Full := fun hne =>
    ht.toRooted.full_of_count_pos (hcount ▸ List.length_pos_iff.mpr hne)
  refine ⟨made, t, hputs, ht.toStored, ht.entries_eq, ht.leavesAt, ht.within, hempty, hfull,
    ?_, ht.descends hascending, ?_⟩
  · by_cases hnil : entries = []
    · rw [(hempty hnil).1]
      trivial
    · exact ht.search.leastKeys (hfull hnil)
  · intro id hid
    exact Tree.count_refs_eq_one ht.pages (hascending.imp fun hlt => UInt64.ne_of_lt hlt) hid

/-- Five entries whose tree has three levels when a node has room for two. -/
def ladder : List Cell := [⟨[1], []⟩, ⟨[2], [7]⟩, ⟨[2, 0], []⟩, ⟨[3], [0, 0]⟩, ⟨[255], []⟩]

theorem bulkLoad_balanced_ladder :
    ∃ store', bulkLoad 2 ladder ({} : MemoryStore) = (.ok 6, store') ∧
      ∃ made t, Puts {} made store' ∧ Tree.Stored (Storage.source store') 6 t ∧
        t.entries = ladder ∧ (∃ depth, t.LeavesAt depth) ∧ t.Within 2 ∧ t.Full ∧ t.LeastKeys ∧
        t.Descends 6 ∧ (∀ id ∈ made, id = 6 ∨ t.refs.count id = 1) := by
  have hruns : (match bulkLoad 2 ladder ({} : MemoryStore) with
      | (.ok root, _) => decide (root = 6)
      | (.error _, _) => false) = true := by decide +kernel
  split at hruns
  · next root store' hload =>
    obtain rfl := of_decide_eq_true hruns
    obtain ⟨made, t, hputs, hstored, hentries, hdepth, hwithin, -, hfull, hleast, hdescends,
      hrefs⟩ := bulkLoad_balanced trivial hload
    exact ⟨store', hload, made, t, hputs, hstored, hentries, hdepth, hwithin,
      hfull (List.cons_ne_nil _ _), hleast, hdescends, hrefs⟩
  · contradiction

end RangeStore
