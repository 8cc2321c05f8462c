import RangeStore.Proofs.Tree.Runs
import RangeStore.Proofs.Tuple.Order
set_option autoImplicit false

/-! # Searching

In a search tree the keys ascend from left to right and each separator is the first key below it
(`Tree.Search`). There a descent ends on the last key that is at most the sought one, or on the
first key if all are greater (`Tree.Search.seats`): each node on the way is searched by halving, and
a separator answers for the whole subtree under it.

The keys that a comparison accepts are an upper or a lower part of all keys, and that seat is at
most one step away from where the part begins (`Seats.landing`). So `seek` lands on the accepted key
that is closest to the sought one, whenever there is an accepted key:
`Tree.Rooted.seek_closest`. -/

namespace RangeStore

open Std

/-- The keys ascend strictly. -/
def Ascending (cells : List Cell) : Prop :=
  cells.Pairwise fun a b => compare a.key b.key = .lt

theorem Ascending.compare_lt {cells : List Cell} (h : Ascending cells) {i j : Nat} {a b : Cell}
    (ha : cells[i]? = some a) (hb : cells[j]? = some b) (hij : i < j) :
    compare a.key b.key = .lt := by
  obtain ⟨hi, rfl⟩ := List.getElem?_eq_some_iff.mp ha
  obtain ⟨hj, rfl⟩ := List.getElem?_eq_some_iff.mp hb
  exact List.pairwise_iff_getElem.mp h i j hi hj hij

theorem Ascending.isLE_compare {cells : List Cell} (h : Ascending cells) {i j : Nat} {a b : Cell}
    (ha : cells[i]? = some a) (hb : cells[j]? = some b) (hij : i ≤ j) :
    (compare a.key b.key).isLE := by
  rcases Nat.lt_or_eq_of_le hij with hlt | rfl
  · rw [h.compare_lt ha hb hlt]
    rfl
  · rw [Option.some.inj (ha.symm.trans hb), ReflOrd.compare_self]
    rfl

theorem ascending_of {cells : List Cell}
    (h : ∀ {i j : Nat} {a b : Cell}, cells[i]? = some a → cells[j]? = some b → i < j →
      compare a.key b.key = .lt) : Ascending cells :=
  List.pairwise_iff_getElem.mpr fun _ _ hi hj hij =>
    h (List.getElem?_eq_getElem hi) (List.getElem?_eq_getElem hj) hij

/-- At `r` stands the last key that is at most `key`, or the first one if all are greater. -/
structure Seats (cells : List Cell) (key : Bytes) (r : Nat) : Prop where
  lt_length : r < cells.length
  isLE : 0 < r → ∀ a, cells[r]? = some a → (compare a.key key).isLE
  gt : ∀ b, cells[r + 1]? = some b → compare b.key key = .gt

namespace Seats

/-- How any key stands to the sought one: as its position stands to the seat, and at the seat as
the key there. -/
theorem compare_eq {cells : List Cell} {key : Bytes} {r i : Nat} {found a : Cell}
    (h : Seats cells key r) (hasc : Ascending cells) (hfound : cells[r]? = some found)
    (ha : cells[i]? = some a) :
    compare a.key key = (compare i r).then (compare found.key key) := by
  rcases Nat.lt_trichotomy i r with hlt | heq | hgt
  · have hle := h.isLE (Nat.zero_lt_of_lt hlt) found hfound
    rw [TransCmp.lt_of_lt_of_isLE (hasc.compare_lt ha hfound hlt) hle, Nat.compare_eq_lt.mpr hlt]
    rfl
  · subst heq
    rw [Nat.compare_eq_eq.mpr rfl, Option.some.inj (ha.symm.trans hfound)]
    rfl
  · -- the key behind the seat is greater than the sought one, and all keys behind it are
    have hi : i < cells.length := (List.getElem?_eq_some_iff.mp ha).1
    obtain ⟨b, hb⟩ : ∃ b, cells[r + 1]? = some b := ⟨_, List.getElem?_eq_getElem (by omega)⟩
    have hkey := h.gt b hb
    rw [Nat.compare_eq_gt.mpr hgt]
    show compare a.key key = .gt
    by_cases hnext : i = r + 1
    · subst hnext
      rwa [Option.some.inj (ha.symm.trans hb)]
    · have hba := hasc.compare_lt hb ha (by omega)
      exact TransCmp.gt_trans (OrientedCmp.gt_of_lt hba) hkey

end Seats

/-! ## One node -/

namespace Node

/-- Halving keeps what is known of both ends: the key before `lo` is at most `key`, and the one at
`hi` is greater. -/
theorem search_spec (cells : Array Cell) (key : Bytes) (lo hi : Nat) (h : hi ≤ cells.size)
    (hle : lo ≤ hi)
    (hlo : ∀ a, 0 < lo → cells[lo - 1]? = some a → (compare a.key key).isLE)
    (hhi : ∀ b, cells[hi]? = some b → compare b.key key = .gt) :
    (∀ a, 0 < search cells key lo hi h → cells[search cells key lo hi h - 1]? = some a →
      (compare a.key key).isLE) ∧
    ∀ b, cells[search cells key lo hi h]? = some b → compare b.key key = .gt := by
  induction lo, hi, h using search.induct cells key with
  | case1 lo hi h hlt hmid hkey ih =>
    rw [search, dif_pos hlt, if_pos hkey]
    refine ih (by omega) ?_ hhi
    intro a _ ha
    rw [Nat.add_sub_cancel, Array.getElem?_eq_getElem hmid] at ha
    exact Option.some.inj ha ▸ hkey
  | case2 lo hi h hlt hmid hkey ih =>
    rw [search, dif_pos hlt, if_neg hkey]
    refine ih (by omega) hlo ?_
    intro b hb
    rw [Array.getElem?_eq_getElem hmid] at hb
    rw [← Option.some.inj hb]
    simpa using hkey
  | case3 lo hi h hlt =>
    have heq : lo = hi := by omega
    rw [search, dif_neg hlt]
    exact ⟨hlo, heq ▸ hhi⟩

/-- In a node whose keys ascend the slot found is the seat of the key. -/
theorem seats_lookupLE {n : Node} (hsize : 0 < n.size) (hasc : Ascending n.cells.toList)
    (key : Bytes) : Seats n.cells.toList key (n.lookupLE key) := by
  have hle := search_le n.cells key 0 n.cells.size (Nat.le_refl _) (Nat.zero_le _)
  obtain ⟨hbelow, habove⟩ := search_spec n.cells key 0 n.cells.size (Nat.le_refl _) (Nat.zero_le _)
    (fun a h => absurd h (Nat.lt_irrefl 0)) (fun b hb => by simp at hb)
  have hslot := lookupLE_lt hsize key
  unfold lookupLE at hslot ⊢
  generalize search n.cells key 0 n.cells.size (Nat.le_refl _) = k at *
  refine ⟨by simpa [size] using hslot, ?_, ?_⟩
  · intro hpos a ha
    rw [Array.getElem?_toList] at ha
    exact hbelow a (by omega) ha
  · intro b hb
    by_cases hk : 0 < k
    · rw [Nat.sub_add_cancel hk, Array.getElem?_toList] at hb
      exact habove b hb
    · -- all keys are greater, the first one included
      have hzero : k = 0 := by omega
      subst hzero
      have hfirst : n.cells[0]? = some n.cells[0] := Array.getElem?_eq_getElem hsize
      have hgt := habove _ hfirst
      have hlt := hasc.compare_lt (by rw [Array.getElem?_toList]; exact hfirst) hb (by omega)
      exact TransCmp.gt_trans (OrientedCmp.gt_of_lt hlt) hgt

end Node

/-! ## Search trees -/

namespace Tree

/-- Each separator is the first key of the subtree under it. -/
def Separated : Tree → Prop
  | leaf _ => True
  | inner n child =>
    ∀ i : Fin n.size, n.key? i = (child i).entries.head?.map (·.key) ∧ (child i).Separated

/-- The keys ascend from left to right, and the separators are first keys. -/
structure Search (t : Tree) : Prop where
  ascending : Ascending t.entries
  separated : t.Separated

/-- The first entry of a child stands behind the entries of the children before it. -/
theorem getElem?_entries_inner (n : Node) (child : Fin n.size → Tree) (i : Fin n.size) {k : Nat}
    (hk : k < (child i).count) :
    (inner n child).entries[(entriesBefore child i).length + k]? = (child i).entries[k]? := by
  obtain ⟨rest, hrest⟩ := entries_inner_eq n child i
  rw [hrest, List.append_assoc, List.getElem?_append_right (Nat.le_add_right _ _),
    Nat.add_sub_cancel_left, List.getElem?_append_left hk]

namespace Search

variable {n : Node} {child : Fin n.size → Tree}

theorem below (h : (inner n child).Search) (i : Fin n.size) : (child i).Search := by
  refine ⟨?_, (h.separated i).2⟩
  obtain ⟨rest, hrest⟩ := entries_inner_eq n child i
  have hasc := h.ascending
  rw [hrest] at hasc
  exact (List.pairwise_append.mp (List.pairwise_append.mp hasc).1).2.1

/-- The cell of a slot has the key with which the entries below the slot begin. -/
theorem cell (h : (inner n child).Search) (hfull : (inner n child).Full) (i : Fin n.size) :
    ∃ c e, n.cells.toList[(i : Nat)]? = some c ∧ c.key = e.key ∧
      (inner n child).entries[(entriesBefore child i).length]? = some e := by
  have hpos := (hfull.2 i).count_pos
  have hfirst : (child i).entries[0]? = some (child i).entries[0] := List.getElem?_eq_getElem hpos
  have hget := getElem?_entries_inner n child i hpos
  rw [Nat.add_zero, hfirst] at hget
  have hkey := (h.separated i).1
  rw [List.head?_eq_getElem?, hfirst, Option.map_some, Node.key?] at hkey
  obtain ⟨c, hc, hckey⟩ := Option.map_eq_some_iff.mp hkey
  refine ⟨c, _, ?_, hckey, hget⟩
  rw [Array.getElem?_toList, hc]

theorem ascending_cells (h : (inner n child).Search) (hfull : (inner n child).Full) :
    Ascending n.cells.toList := by
  refine ascending_of fun {i j a b} ha hb hij => ?_
  have hj : j < n.size := (List.getElem?_eq_some_iff.mp hb).1
  obtain ⟨a', d, ha', hakey, hd⟩ := h.cell hfull ⟨i, Nat.lt_trans hij hj⟩
  obtain ⟨b', e, hb', hbkey, he⟩ := h.cell hfull ⟨j, hj⟩
  -- the entries of the child at `i` lie between the two first entries
  have hbefore : (entriesBefore child i).length < (entriesBefore child j).length := by
    have hle : (entriesBefore child (i + 1)).length ≤ (entriesBefore child j).length :=
      (entriesBefore_isPrefix child hij).length_le
    have hsucc : (entriesBefore child (i + 1)).length = (entriesBefore child i).length + _ :=
      length_entriesBefore_succ child ⟨i, Nat.lt_trans hij hj⟩
    have hpos := (hfull.2 ⟨i, Nat.lt_trans hij hj⟩).count_pos
    omega
  have hlt := h.ascending.compare_lt hd he hbefore
  rwa [← hakey, ← hbkey, Option.some.inj (ha'.symm.trans ha),
    Option.some.inj (hb'.symm.trans hb)] at hlt

/-- A seat in the node and a seat in the child under it make a seat in the whole tree. -/
theorem seats_inner (h : (inner n child).Search) (hfull : (inner n child).Full) {key : Bytes}
    {j : Fin n.size} {r : Nat} (hnode : Seats n.cells.toList key j)
    (hbelow : Seats (child j).entries key r) :
    Seats (inner n child).entries key ((entriesBefore child j).length + r) := by
  have hr : r < (child j).count := hbelow.lt_length
  have hcount := length_entriesBefore_succ child j
  refine ⟨?_, ?_, ?_⟩
  · have hle : (entriesBefore child (j + 1)).length ≤ (entriesBefore child n.size).length :=
      (entriesBefore_isPrefix child j.isLt).length_le
    rw [entries_inner]
    omega
  · intro hpos a ha
    rcases Nat.eq_zero_or_pos r with hzero | hfirst
    · -- the seat is the first entry below the slot, so its key is the separator
      subst hzero
      have hj : 0 < (j : Nat) := by
        rcases Nat.eq_zero_or_pos j with hj | hj
        · simp [hj] at hpos
        · exact hj
      obtain ⟨c, e, hc, hckey, he⟩ := h.cell hfull j
      have hle := hnode.isLE hj c hc
      rwa [hckey, Option.some.inj (he.symm.trans ha)] at hle
    · rw [getElem?_entries_inner n child j hr] at ha
      exact hbelow.isLE hfirst a ha
  · intro b hb
    by_cases hmore : r + 1 < (child j).count
    · rw [Nat.add_assoc, getElem?_entries_inner n child j hmore] at hb
      exact hbelow.gt b hb
    · -- behind the last entry of the child stands the first one of the next child
      have hend :
          (entriesBefore child j).length + r + 1 = (entriesBefore child (j + 1)).length := by
        omega
      have hnext : (j : Nat) + 1 < n.size := by
        have hlt := (List.getElem?_eq_some_iff.mp hb).1
        refine Nat.lt_of_le_of_ne (Nat.succ_le_of_lt j.isLt) fun hlast => ?_
        rw [hend, hlast, entries_inner] at hlt
        exact Nat.lt_irrefl _ hlt
      obtain ⟨c, e, hc, hckey, he⟩ := h.cell hfull ⟨j + 1, hnext⟩
      have hgt := hnode.gt c hc
      rw [hend] at hb
      rwa [hckey, Option.some.inj (he.symm.trans hb)] at hgt

/-- A descent ends on the seat of the key that it looks for. -/
theorem seats {t : Tree} (h : t.Search) (hfull : t.Full) (key : Bytes) :
    Seats t.entries key (t.seat key) := by
  induction t with
  | leaf n => exact Node.seats_lookupLE hfull h.ascending key
  | inner n child ih =>
    have hnode := Node.seats_lookupLE hfull.1 (h.ascending_cells hfull) key
    have hslot := Node.lookupLE_lt hfull.1 key
    have hbelow := ih ⟨n.lookupLE key, hslot⟩ (h.below _) (hfull.2 _)
    rw [seat, dif_pos hslot]
    exact h.seats_inner hfull (j := ⟨_, hslot⟩) hnode hbelow

end Search

end Tree

/-! ## The accepted keys -/

/-- Whether position `i` comes at `p` or behind it, in this direction. -/
def Direction.Covers (d : Direction) (p i : Nat) : Prop :=
  match d with
  | .ascending => p ≤ i
  | .descending => i ≤ p

/-- Where the order at a seat `r` is `o`, the positions that a comparison accepts begin there or one
step away, and go on in its direction to the end. -/
theorem Comparison.covers_of_step (c : Comparison) (o : Ordering) {r count : Nat} (hr : r < count) :
    match (if c.accepts o then some r else c.direction.move count (some r)) with
    | none => ∀ i, i < count → c.accepts ((compare i r).then o) = false
    | some p => p < count ∧ ∀ i, i < count →
        (c.accepts ((compare i r).then o) = true ↔ c.direction.Covers p i) := by
  have hside : ∀ i, c.accepts ((compare i r).then o) =
      if i < r then c.accepts .lt else if i = r then c.accepts o else c.accepts .gt := by
    intro i
    rcases Nat.lt_trichotomy i r with h | h | h
    · rw [if_pos h, Nat.compare_eq_lt.mpr h]
      rfl
    · rw [if_neg (by omega), if_pos h, Nat.compare_eq_eq.mpr h]
      rfl
    · rw [if_neg (by omega), if_neg (by omega), Nat.compare_eq_gt.mpr h]
      rfl
  simp only [hside]
  cases hdir : c.direction with
  | ascending =>
    have hlt : c.accepts .lt = false := by cases c <;> first | rfl | contradiction
    have hgt : c.accepts .gt = true := by cases c <;> first | rfl | contradiction
    unfold Direction.move Direction.Covers
    by_cases ho : c.accepts o = true <;> grind
  | descending =>
    have hlt : c.accepts .lt = true := by cases c <;> first | rfl | contradiction
    have hgt : c.accepts .gt = false := by cases c <;> first | rfl | contradiction
    unfold Direction.move Direction.Covers
    by_cases ho : c.accepts o = true <;> grind

namespace Tree

namespace Rooted

variable {s : NodeSource} {root : PageId} {t : Tree}

/-- A search lands where the accepted keys begin, or nowhere if there are none. -/
theorem landing_covers (ht : t.Rooted s root) (hsearch : t.Search) (key : Bytes) (c : Comparison) :
    match t.landing key c with
    | none => ∀ e ∈ t.entries, c.holds e.key key = false
    | some p => p < t.count ∧ ∀ i e, t.entries[i]? = some e →
        (c.holds e.key key = true ↔ c.direction.Covers p i) := by
  by_cases hcount : 0 < t.count
  · -- what is accepted depends on the position and the order at the seat alone
    have hseats := hsearch.seats (ht.full_of_count_pos hcount) key
    obtain ⟨found, hfound⟩ : ∃ found, t.entries[t.seat key]? = some found :=
      ⟨_, List.getElem?_eq_getElem hseats.lt_length⟩
    have hcovers := c.covers_of_step (compare found.key key) hseats.lt_length
    have hholds : ∀ i e, t.entries[i]? = some e →
        c.holds e.key key = c.accepts ((compare i (t.seat key)).then (compare found.key key)) := by
      intro i e he
      rw [Comparison.holds, hseats.compare_eq hsearch.ascending hfound he]
    have hlanding : t.landing key c = if c.accepts (compare found.key key) then some (t.seat key)
        else c.direction.move t.entries.length (some (t.seat key)) := by
      rw [landing, hfound]
      rfl
    rw [hlanding]
    split
    · next hnone =>
      rw [hnone] at hcovers
      intro e he
      obtain ⟨i, hi⟩ := List.getElem?_of_mem he
      rw [hholds i e hi]
      exact hcovers i (List.getElem?_eq_some_iff.mp hi).1
    · next p hsome =>
      rw [hsome] at hcovers
      refine ⟨hcovers.1, fun i e he => ?_⟩
      rw [hholds i e he]
      exact hcovers.2 i (List.getElem?_eq_some_iff.mp he).1
  · have hempty : t.entries = [] := List.eq_nil_of_length_eq_zero (Nat.eq_zero_of_not_pos hcount)
    simp [landing, hempty]

/-- Where a search lands, there is the accepted key that comes first in the comparison's
direction. -/
theorem landing_closest (ht : t.Rooted s root) (hsearch : t.Search) {key : Bytes} {c : Comparison}
    {p : Nat} (h : t.landing key c = some p) :
    ∃ found, t.entries[p]? = some found ∧ c.holds found.key key = true ∧
      ∀ e ∈ t.entries, c.holds e.key key = true →
        match c.direction with
        | .ascending => (compare found.key e.key).isLE
        | .descending => (compare e.key found.key).isLE := by
  have hcovers := ht.landing_covers hsearch key c
  rw [h] at hcovers
  obtain ⟨hp, hcovers⟩ := hcovers
  have hfound : t.entries[p]? = some t.entries[p] := List.getElem?_eq_getElem hp
  refine ⟨_, hfound, ?_, fun e he hholds => ?_⟩
  · rw [hcovers p _ hfound]
    cases c <;> exact Nat.le_refl p
  · obtain ⟨i, hi⟩ := List.getElem?_of_mem he
    have hside := (hcovers i e hi).mp hholds
    unfold Direction.Covers at hside
    cases hdir : c.direction with
    | ascending =>
      rw [hdir] at hside
      exact hsearch.ascending.isLE_compare hfound hi hside
    | descending =>
      rw [hdir] at hside
      exact hsearch.ascending.isLE_compare hi hfound hside

/-- In a search tree `seek` gives a cursor on the accepted key that comes first in the comparison's
direction, the smallest one for `gt` and `ge` and the greatest for `lt` and `le`; it stands nowhere
exactly if no key is accepted. -/
theorem seek_closest (ht : t.Rooted s root) (hsearch : t.Search) (key : Bytes) (c : Comparison) :
    ∃ cursor, Cursor.seek s root key c = .ok cursor ∧
      (cursor.valid = false ↔ ∀ e ∈ t.entries, c.holds e.key key = false) ∧
      (cursor.valid = true → ∃ found ∈ t.entries, cursor.entry? = some found ∧
        c.holds found.key key = true ∧ ∀ e ∈ t.entries, c.holds e.key key = true →
          match c.direction with
          | .ascending => (compare found.key e.key).isLE
          | .descending => (compare e.key found.key).isLE) := by
  obtain ⟨cursor, hcursor, htracks⟩ := ht.seek key c
  refine ⟨cursor, hcursor, ?_⟩
  cases hlanding : t.landing key c with
  | none =>
    have hnone := ht.landing_covers hsearch key c
    rw [hlanding] at htracks hnone
    have hvalid : cursor.valid = false := htracks
    refine ⟨⟨fun _ => hnone, fun _ => hvalid⟩, fun h => ?_⟩
    rw [hvalid] at h
    contradiction
  | some p =>
    obtain ⟨found, hfound, haccepted, hclosest⟩ := ht.landing_closest hsearch hlanding
    rw [hlanding] at htracks
    have hstands : t.Stands cursor p := htracks
    have hmem : found ∈ t.entries := List.mem_of_getElem? hfound
    constructor
    · rw [hstands.valid]
      constructor
      · intro h
        contradiction
      · intro hnone
        rw [hnone found hmem] at haccepted
        contradiction
    · intro _
      exact ⟨found, hmem, hstands.entry?.trans hfound, haccepted, hclosest⟩

end Rooted

theorem fork_search : fork.Search where
  ascending := by unfold Ascending; decide
  separated := fun i =>
    match i with
    | ⟨0, _⟩ => ⟨rfl, trivial⟩
    | ⟨1, _⟩ => ⟨rfl, trivial⟩

/-- The first key above `d` stands in the second leaf, one step behind the seat. -/
theorem fork_seek_closest :
    fork.Rooted forkStore.source 3 ∧ fork.Search ∧
    ∃ cursor, Cursor.seek forkStore.source 3 [0x64] .gt = .ok cursor ∧
      cursor.entry? = some ⟨[0x65], []⟩ := by
  obtain ⟨cursor, hcursor, hnone, hsome⟩ := fork_rooted.seek_closest fork_search [0x64] .gt
  have hvalid : cursor.valid = true := by
    refine Bool.of_not_eq_false fun hfalse => ?_
    have hrefused := hnone.mp hfalse ⟨[0x65], []⟩ (by decide)
    exact absurd hrefused (by decide)
  obtain ⟨found, hmem, hentry, hholds, -⟩ := hsome hvalid
  have hfound : ∀ e ∈ fork.entries, Comparison.gt.holds e.key [0x64] = true → e = ⟨[0x65], []⟩ := by
    decide
  exact ⟨fork_rooted, fork_search, cursor, hcursor, hfound found hmem hholds ▸ hentry⟩

end Tree

end RangeStore
