import RangeStore.Proofs.Tree.Faults
import RangeStore.Proofs.Tree.Lockstep
set_option autoImplicit false

/-! # When no tree is built

Above the leaves, keys are keys of entries in their order (`BulkLoad.packFrom_keys`), so no level is
found out of order, and a cell is too large only if its key is. A node is put before the last one
only when it is full; where each cell takes at most half a page it then has two cells, and so the
next level is shorter (`BulkLoad.length_lt_of_pack`). What climbing may end in follows by induction
over the levels (`BulkLoad.climb_outcome`), and with the faults of the entries what loading may end
in (`bulkLoad_outcome`). -/

namespace RangeStore

namespace BulkLoad

variable {σ : Type} [Storage σ] {maxKeys : Nat} {d : NodeDraft} {position : Nat}
  {previous : Option Bytes} {done children : List (Bytes × PageId)} {store store' : σ}
  {cell : Cell} {cells : List Cell}

/-! ## The next level -/

theorem ne_nil_of_packFrom
    (h : packFrom maxKeys d position previous done store cells = (.ok children, store')) :
    children ≠ [] := by
  induction cells generalizing d position previous done store with
  | nil =>
    rcases packFrom_nil_eq_ok h with ⟨child, -, rfl⟩ | ⟨-, hdone, -, rfl⟩
    · simp
    · simpa using hdone
  | cons cell rest ih =>
    obtain ⟨-, ⟨-, _, _, _, -, -, hpack⟩ | ⟨-, _, -, hpack⟩⟩ := packFrom_cons_eq_ok h
    · exact ih hpack
    · exact ih hpack

theorem fst_of_flush {child : Bytes × PageId} (h : flush d store = (.ok child, store')) :
    child.1 = d.firstKey?.getD [] := by
  unfold flush at h
  split at h
  · cases h
  · obtain ⟨hchild, -⟩ := Prod.mk.inj h
    rw [← Except.ok.inj hchild]

/-- A draft with cells has a first key, and is put under it. -/
theorem toList_firstKey? (h : d.cells.toList ≠ []) :
    d.firstKey?.toList = [d.firstKey?.getD []] := by
  have hpos : 0 < d.cells.size := List.length_pos_iff.mpr h
  rw [NodeDraft.firstKey?, Array.getElem?_eq_getElem hpos]
  rfl

theorem firstKey?_of_push {grown : NodeDraft} (h : d.push cell = .ok grown) :
    (d.cells.toList = [] ∧ grown.firstKey? = some cell.key) ∨
      (d.cells.toList ≠ [] ∧ grown.firstKey? = d.firstKey?) := by
  obtain ⟨-, rfl⟩ := NodeDraft.push_eq_ok h
  unfold NodeDraft.firstKey?
  by_cases hempty : d.cells.toList = []
  · refine Or.inl ⟨hempty, ?_⟩
    rw [Array.toList_eq_nil_iff.mp hempty]
    rfl
  · have hpos : 0 < d.cells.size := List.length_pos_iff.mpr hempty
    refine Or.inr ⟨hempty, ?_⟩
    rw [Array.getElem?_push_lt hpos, Array.getElem?_eq_getElem hpos]

/-- The keys of the next level are some of those of this level, in their order. -/
theorem packFrom_keys (hmax : 0 < maxKeys) (hne : d.cells.toList ≠ [] ∨ cells ≠ [])
    (h : packFrom maxKeys d position previous done store cells = (.ok children, store')) :
    (children.map (·.1)).Sublist
      (done.reverse.map (·.1) ++ (d.firstKey?.toList ++ cells.map (·.key))) := by
  induction cells generalizing d position previous done store with
  | nil =>
    have hcells : d.cells.toList ≠ [] := hne.resolve_right fun hnil => hnil rfl
    rcases packFrom_nil_eq_ok h with ⟨child, hflush, rfl⟩ | ⟨hnil, -⟩
    · have hkeys : (child :: done).reverse.map (·.1) =
          done.reverse.map (·.1) ++ (d.firstKey?.toList ++ []) := by
        rw [List.reverse_cons, List.map_append, List.map_singleton, fst_of_flush hflush,
          toList_firstKey? hcells, List.append_nil]
      exact hkeys ▸ List.Sublist.refl _
    · exact absurd hnil hcells
  | cons cell rest ih =>
    obtain ⟨-, ⟨hfull, child, flushed, fresh, hflush, hpush, hpack⟩ |
      ⟨-, grown, hpush, hpack⟩⟩ := packFrom_cons_eq_ok h
    · -- the waiting draft is put under its first key, and the cell is the first of the next one
      have hcells := toList_ne_nil_of_isFull hmax hfull
      obtain ⟨-, rfl⟩ := NodeDraft.push_eq_ok hpush
      have hnext := ih (Or.inl (List.cons_ne_nil _ _)) hpack
      rw [List.reverse_cons, List.map_append, List.map_singleton, fst_of_flush hflush,
        List.append_assoc] at hnext
      rw [toList_firstKey? hcells]
      exact hnext
    · have hgrown : grown.cells.toList ≠ [] := by
        obtain ⟨-, rfl⟩ := NodeDraft.push_eq_ok hpush
        simp
      refine (ih (Or.inl hgrown) hpack).trans ?_
      apply List.Sublist.append_left
      rcases firstKey?_of_push hpush with ⟨hnil, hfirst⟩ | ⟨-, hfirst⟩
      · rw [hfirst]
        exact List.sublist_append_right _ _
      · rw [hfirst, List.map_cons]
        exact List.Sublist.append_left (List.sublist_cons_self ..) _

/-- A cell that takes at most half of a page. -/
def HalfPage (c : Cell) : Prop := NodeDraft.cellSize c.key.length c.value.length ≤ 4091

/-- Two such cells have room on a page, so a draft that is full has two. -/
theorem two_le_size_of_isFull (hmax : 2 ≤ maxKeys) (hd : d.Filled)
    (hhalf : ∀ c ∈ d.cells.toList, HalfPage c) (hcell : HalfPage cell)
    (hfull : isFull maxKeys d cell = true) : 2 ≤ d.cells.toList.length := by
  have hpos := List.length_pos_iff.mpr
    (toList_ne_nil_of_isFull (Nat.lt_of_lt_of_le Nat.two_pos hmax) hfull)
  rcases Nat.lt_or_ge d.cells.toList.length 2 with hlt | hge
  case inr => exact hge
  -- with a single cell the draft would have room for this one
  obtain ⟨c, hc⟩ := List.length_eq_one_iff.mp (show d.cells.toList.length = 1 by omega)
  have hused := hd.used_eq
  have hfirst := hhalf c (hc ▸ List.mem_singleton.mpr rfl)
  rw [hc, NodeDraft.cellsSize, NodeDraft.cellsSize] at hused
  have hfits : d.fits cell.key.length cell.value.length = true := by
    apply decide_eq_true
    rw [HalfPage] at hfirst hcell
    rw [hused, Node.slotsStart, pageSize]
    omega
  have hsize : d.size = 1 := by
    rw [NodeDraft.size, ← Array.length_toList, hc, List.length_singleton]
  rw [isFull, hfits, hsize, Bool.not_true, Bool.and_false, Bool.or_false] at hfull
  have hone := of_decide_eq_true hfull
  omega

/-- Each node that is put before the last one takes two cells. -/
theorem length_of_packFrom (hmax : 2 ≤ maxKeys) (hd : d.Filled)
    (hhalf : ∀ c ∈ d.cells.toList ++ cells, HalfPage c) (hne : d.cells.toList ≠ [] ∨ cells ≠ [])
    (h : packFrom maxKeys d position previous done store cells = (.ok children, store')) :
    2 * children.length ≤ 2 * done.length + (d.cells.toList ++ cells).length + 1 := by
  induction cells generalizing d position previous done store with
  | nil =>
    have hcells : d.cells.toList ≠ [] := hne.resolve_right fun hnil => hnil rfl
    have hpos := List.length_pos_iff.mpr hcells
    rcases packFrom_nil_eq_ok h with ⟨child, -, rfl⟩ | ⟨-, -, -, rfl⟩
    · rw [List.length_reverse, List.length_cons, List.append_nil]
      omega
    · rw [List.length_reverse]
      omega
  | cons cell rest ih =>
    have hcell : HalfPage cell := hhalf cell (by simp)
    obtain ⟨-, ⟨hfull, child, flushed, fresh, -, hpush, hpack⟩ |
      ⟨-, grown, hpush, hpack⟩⟩ := packFrom_cons_eq_ok h
    · have htwo := two_le_size_of_isFull hmax hd
        (fun c hc => hhalf c (List.mem_append_left _ hc)) hcell hfull
      have hfresh := (NodeDraft.filled_empty d.kind).push hpush
      obtain ⟨-, rfl⟩ := NodeDraft.push_eq_ok hpush
      have hrest := ih hfresh (fun c hc => hhalf c (List.mem_append_right _ hc))
        (Or.inl (List.cons_ne_nil _ _)) hpack
      simp only [List.length_append, List.length_cons, Array.toList_push, List.length_nil]
        at hrest ⊢
      omega
    · have hgrown := hd.push hpush
      obtain ⟨-, rfl⟩ := NodeDraft.push_eq_ok hpush
      have hrest := ih hgrown (by simpa using hhalf) (Or.inl (by simp)) hpack
      rwa [Array.toList_push, List.append_assoc, List.singleton_append] at hrest

/-- Where each cell takes at most half of a page, a level is longer than the next one. -/
theorem length_lt_of_pack {kind : NodeKind} (hmax : 2 ≤ maxKeys) (hhalf : ∀ c ∈ cells, HalfPage c)
    (hlength : 2 ≤ cells.length) (h : pack maxKeys kind cells store = (.ok children, store')) :
    children.length < cells.length := by
  have hne : cells ≠ [] := List.length_pos_iff.mp (by omega)
  have hall := length_of_packFrom hmax (NodeDraft.filled_empty kind) hhalf (Or.inr hne) h
  simp only [List.length_nil, List.nil_append] at hall
  omega

/-- The keys of a level that is packed without error are in order above it as well. -/
theorem pack_keys {kind : NodeKind} (hmax : 0 < maxKeys) (hne : cells ≠ [])
    (h : pack maxKeys kind cells store = (.ok children, store')) :
    (children.map (·.1)).Sublist (cells.map (·.key)) :=
  packFrom_keys hmax (Or.inr hne) h

/-! ## Climbing -/

/-- What a store refuses after a level was packed, it refuses. -/
theorem Refuses.of_pack {kind : NodeKind} {e : StoreError}
    (h : pack maxKeys kind cells store = (.ok children, store')) (hrefuses : Refuses store' e) :
    Refuses store e := by
  have hput : ∀ (s : σ) (n : Node), (Refuses s e → Refuses store e) →
      Refuses (Storage.put s n).2 e → Refuses store e := fun _ _ hs hlater => hs hlater.later
  have hstart : Refuses store e → Refuses store e := id
  have hkeeps := pack_keeps hput maxKeys kind cells hstart
  rw [h] at hkeeps
  exact hkeeps hrefuses

theorem not_unordered_of_ascending (h : Ascending cells) (i : Nat) : ¬ Unordered cells i := by
  rintro ⟨before, cell, hpos, hbefore, hcell, hcompare⟩
  obtain ⟨hi, rfl⟩ := List.getElem?_eq_some_iff.mp hbefore
  obtain ⟨hj, rfl⟩ := List.getElem?_eq_some_iff.mp hcell
  exact hcompare (List.pairwise_iff_getElem.mp h (i - 1) i hi hj (by omega))

/-- How climbing ends above entries with some keys: the store has refused a node, or a separator is
too large for a page, or separators are too large for two of them to share one, or there is a
root. -/
inductive ClimbOutcome (store : σ) (keys : List Bytes) : Except BuildError PageId → Prop
  | refused {e : StoreError} (h : Refuses store e) : ClimbOutcome store keys (.error (.store e))
  | tooLarge {key : Bytes} (hkey : key ∈ keys) (hlarge : 8168 < key.length) :
      ClimbOutcome store keys (.error (.node (.cellTooLarge (key.length + 8))))
  | stuck {key : Bytes} (hkey : key ∈ keys) (hlong : 4077 < key.length) :
      ClimbOutcome store keys (.error .separatorTooLarge)
  | built (root : PageId) : ClimbOutcome store keys (.ok root)

theorem ClimbOutcome.of_pack {kind : NodeKind} {keys : List Bytes}
    {result : Except BuildError PageId}
    (hpack : pack maxKeys kind cells store = (.ok children, store'))
    (h : ClimbOutcome store' keys result) : ClimbOutcome store keys result := by
  cases h with
  | refused h => exact .refused (h.of_pack hpack)
  | tooLarge hkey hlarge => exact .tooLarge hkey hlarge
  | stuck hkey hlong => exact .stuck hkey hlong
  | built root => exact .built root

/-- What is left if the store refuses nothing. -/
theorem ClimbOutcome.of_not_store {keys : List Bytes} {result : Except BuildError PageId}
    (h : ClimbOutcome store keys result) (hstore : ∀ e, result ≠ .error (.store e)) :
    (∃ root, result = .ok root) ∨
      (∃ key ∈ keys, 4077 < key.length ∧ result = .error .separatorTooLarge) ∨
      ∃ key ∈ keys, 8168 < key.length ∧
        result = .error (.node (.cellTooLarge (key.length + 8))) := by
  cases h with
  | refused => exact absurd rfl (hstore _)
  | tooLarge hkey hlarge => exact Or.inr (Or.inr ⟨_, hkey, hlarge, rfl⟩)
  | stuck hkey hlong => exact Or.inr (Or.inl ⟨_, hkey, hlong, rfl⟩)
  | built root => exact Or.inl ⟨root, rfl⟩

/-- Two short keys share a page. -/
theorem ClimbOutcome.exists_root {keys : List Bytes} {result : Except BuildError PageId}
    (h : ClimbOutcome store keys result) (hstore : ∀ e, result ≠ .error (.store e))
    (hshort : ∀ key ∈ keys, key.length ≤ 4077) : ∃ root, result = .ok root := by
  rcases h.of_not_store hstore with hroot | ⟨key, hkey, hlong, -⟩ | ⟨key, hkey, hlarge, -⟩
  · exact hroot
  · exact absurd (hshort key hkey) (Nat.not_le.mpr hlong)
  · have hle := hshort key hkey
    omega

/-- The cells of a level above the leaves. -/
theorem map_key_childCell (level : List (Bytes × PageId)) :
    (level.map childCell).map (·.key) = level.map (·.1) := by
  rw [List.map_map]
  rfl

theorem climb_outcome (hmax : 2 ≤ maxKeys) {level : List (Bytes × PageId)} {keys : List Bytes}
    (hne : level ≠ []) (hlevel : (level.map (·.1)).Sublist keys)
    (hkeys : keys.Pairwise fun a b => compare a b = .lt) :
    ClimbOutcome store keys (climb maxKeys level store).1 := by
  -- by the length of the level, since the one above it is shorter
  induction hlen : level.length using Nat.strongRecOn generalizing level store with
  | ind count ih =>
    match level with
    | [] => exact absurd rfl hne
    | [root] =>
      unfold climb
      exact .built _
    | first :: second :: rest =>
      have hcells := map_key_childCell (first :: second :: rest)
      have hvalue : ∀ cell ∈ (first :: second :: rest).map childCell,
          cell.value.length = 8 ∧ cell.key ∈ keys := by
        intro cell hcell
        have hkey := List.mem_map_of_mem (f := Cell.key) hcell
        rw [hcells] at hkey
        obtain ⟨child, -, rfl⟩ := List.mem_map.mp hcell
        exact ⟨Bytes.length_little _ _, hlevel.subset hkey⟩
      have hascending : Ascending ((first :: second :: rest).map childCell) := by
        have hsorted := hkeys.sublist hlevel
        rw [← hcells] at hsorted
        exact List.pairwise_map.mp hsorted
      have houtcome :=
        pack_outcome maxKeys .internal ((first :: second :: rest).map childCell) store
      have hchildren : (first :: second :: rest).map (fun c => Cell.ofChild c.1 c.2) =
          (first :: second :: rest).map childCell := rfl
      unfold climb
      dsimp only
      rw [hchildren]
      cases hpack : pack maxKeys .internal ((first :: second :: rest).map childCell) store with
      | mk result packed =>
        rw [hpack] at houtcome
        cases houtcome with
        | refused h => exact .refused h
        | fault hfirst h =>
          cases h with
          | unsorted h => exact absurd h (not_unordered_of_ascending hascending _)
          | tooLarge _ hcell hlarge =>
            obtain ⟨hlength, hkey⟩ := hvalue _ (List.mem_of_getElem? hcell)
            rw [hlength] at hlarge ⊢
            exact .tooLarge hkey (by omega)
        | packed h parents =>
          dsimp only
          split
          · next hlt =>
            have hparents := pack_keys (by omega) (by simp) hpack
            rw [hcells] at hparents
            exact (ih parents.length (hlen ▸ hlt) (ne_nil_of_packFrom hpack)
              (hparents.trans hlevel) rfl).of_pack hpack
          · next hlong =>
            by_cases hstuck : ∃ key ∈ keys, 4077 < key.length
            · obtain ⟨key, hkey, hlarge⟩ := hstuck
              exact .stuck hkey hlarge
            -- otherwise the cells are so small that the level is longer than the next one
            have hhalf : ∀ c ∈ (first :: second :: rest).map childCell, HalfPage c := by
              intro c hc
              obtain ⟨hlength, hkey⟩ := hvalue c hc
              have hshort : c.key.length ≤ 4077 :=
                Nat.not_lt.mp fun hlarge => hstuck ⟨c.key, hkey, hlarge⟩
              rw [HalfPage, NodeDraft.cellSize, hlength, Node.cellHeader]
              omega
            have hlt := length_lt_of_pack hmax hhalf (by simp) hpack
            rw [List.length_map] at hlt
            exact absurd hlt hlong

/-- The loop over the levels, stopped after some rounds. -/
def climbWithin (maxKeys : Nat) :
    (rounds : Nat) → List (Bytes × PageId) → σ → Option (Except BuildError PageId × σ)
  | 0, _, _ => none
  | _ + 1, [], store => some (.error .separatorTooLarge, store)
  | _ + 1, [root], store => some (.ok root.2, store)
  | rounds + 1, first :: second :: rest, store =>
    match pack maxKeys .internal ((first :: second :: rest).map childCell) store with
    | (.error e, store) => some (.error e, store)
    | (.ok parents, store) =>
      if parents.length < (first :: second :: rest).length then
        climbWithin maxKeys rounds parents store
      else some (.error .separatorTooLarge, store)

/-- The loop has ended after as many rounds as the lowest level has nodes. -/
theorem climbWithin_eq {rounds : Nat} {level : List (Bytes × PageId)} (hpos : 0 < rounds)
    (hrounds : level.length ≤ rounds) :
    climbWithin maxKeys rounds level store = some (climb maxKeys level store) := by
  induction rounds generalizing level store with
  | zero => exact absurd hpos (Nat.lt_irrefl 0)
  | succ rounds ih =>
    match level with
    | [] =>
      unfold climb
      rfl
    | [root] =>
      unfold climb
      rfl
    | first :: second :: rest =>
      have hchildren : (first :: second :: rest).map (fun c => Cell.ofChild c.1 c.2) =
          (first :: second :: rest).map childCell := rfl
      rw [climbWithin, climb, hchildren]
      generalize pack maxKeys .internal ((first :: second :: rest).map childCell) store = packed
      obtain ⟨result, store⟩ := packed
      cases result with
      | error e => rfl
      | ok parents =>
        simp only [List.length_cons] at hrounds ⊢
        by_cases hlt : parents.length < rest.length + 1 + 1
        · rw [if_pos hlt, dif_pos hlt]
          exact ih (by omega) (by omega)
        · rw [if_neg hlt, dif_neg hlt]

/-- The keys of entries without fault are in order, also those of their leaves. -/
theorem climb_leaves_outcome (hmax : 2 ≤ maxKeys) {entries : List Cell}
    (h : pack maxKeys .leaf entries store = (.ok children, store')) :
    ClimbOutcome store (entries.map (·.key)) (climb maxKeys children store').1 := by
  by_cases hne : entries = []
  · subst hne
    obtain ⟨child, -, rfl⟩ := pack_nil_eq_ok h
    unfold climb
    exact .built _
  · have hascending : Ascending entries := (packFrom_ascending h).1
    have hkeys : (entries.map (·.key)).Pairwise fun a b => compare a b = .lt :=
      List.pairwise_map.mpr hascending
    exact (climb_outcome hmax (ne_nil_of_packFrom h) (pack_keys (by omega) hne h) hkeys).of_pack h

end BulkLoad

open BulkLoad

/-! ## Loading -/

theorem Blames.faulty {entries : List Cell} {i : Nat} {e : BuildError} (h : Blames entries i e) :
    Faulty entries i := by
  cases h with
  | unsorted h => exact Or.inl h
  | tooLarge _ hcell hlarge => exact Or.inr ⟨_, hcell, hlarge⟩

variable {σ : Type} [Storage σ]

/-- How loading ends: the store has refused a node, or the first faulty entry is reported, or there
is none, and climbing has ended. -/
inductive LoadOutcome (store : σ) (entries : List Cell) : Except BuildError PageId → Prop
  | refused {e : StoreError} (h : Refuses store e) : LoadOutcome store entries (.error (.store e))
  | fault {i : Nat} {e : BuildError} (hfirst : ∀ j < i, ¬ Faulty entries j)
      (h : Blames entries i e) : LoadOutcome store entries (.error e)
  | climbed {result : Except BuildError PageId} (hnone : ∀ i, ¬ Faulty entries i)
      (h : ClimbOutcome store (entries.map (·.key)) result) : LoadOutcome store entries result

theorem bulkLoad_outcome {maxKeys : Nat} (hmax : 2 ≤ maxKeys) (entries : List Cell) (store : σ) :
    LoadOutcome store entries (bulkLoad maxKeys entries store).1 := by
  have hfanout : ¬ maxKeys < minFanout := Nat.not_lt.mpr hmax
  have houtcome := pack_outcome maxKeys .leaf entries store
  unfold bulkLoad
  rw [if_neg hfanout]
  cases hpack : pack maxKeys .leaf entries store with
  | mk result packed =>
    rw [hpack] at houtcome
    cases houtcome with
    | refused h => exact .refused h
    | fault hfirst h => exact .fault hfirst h
    | packed h leaves => exact .climbed h (climb_leaves_outcome hmax hpack)

namespace LoadOutcome

variable {store : σ} {entries : List Cell} {result : Except BuildError PageId}

theorem refuses {e : StoreError} (h : LoadOutcome store entries (.error (.store e))) :
    Refuses store e := by
  cases h with
  | refused h => exact h
  | fault _ h => cases h
  | climbed _ h =>
    cases h with
    | refused h => exact h

/-- A draft reports nothing but a cell that is too large. -/
theorem eq_tooLarge {e : NodeError} (h : LoadOutcome store entries (.error (.node e))) :
    ∃ size, e = .cellTooLarge size := by
  cases h with
  | fault _ h =>
    cases h with
    | tooLarge => exact ⟨_, rfl⟩
  | climbed _ h =>
    cases h with
    | tooLarge => exact ⟨_, rfl⟩

/-- The first faulty entry decides. -/
theorem of_faulty (h : LoadOutcome store entries result)
    (hstore : ∀ e, result ≠ .error (.store e)) {i : Nat} (hi : Faulty entries i)
    (hfirst : ∀ j < i, ¬ Faulty entries j) : ∃ e, Blames entries i e ∧ result = .error e := by
  cases h with
  | refused h => exact absurd rfl (hstore _)
  | @fault k e hfirst' h =>
    have hsame : i = k := by
      rcases Nat.lt_trichotomy i k with hlt | heq | hgt
      · exact absurd hi (hfirst' i hlt)
      · exact heq
      · exact absurd h.faulty (hfirst k hgt)
    exact ⟨e, hsame ▸ h, rfl⟩
  | climbed hnone => exact absurd hi (hnone i)

/-- Without a faulty entry, climbing decides. -/
theorem of_faultless (h : LoadOutcome store entries result) (hnone : ∀ i, ¬ Faulty entries i) :
    ClimbOutcome store (entries.map (·.key)) result := by
  cases h with
  | refused h => exact .refused h
  | fault _ h => exact absurd h.faulty (hnone _)
  | climbed _ h => exact h

end LoadOutcome

/-- Loading fails just when it must. The store's error is reported only if the store refuses a node.
If it refuses none, a fanout below two is refused; then the first faulty entry decides, its order
before its size; and without one there is a root, or separators are too large for two of them to
share a page, or one is too large for any page; and there is a root whenever no key has more than
4077 bytes. A draft never reports that it is full or that a key is out of order, nothing is found
out of order above the leaves, and the loop over the levels ends after as many rounds as there are
leaves. -/
theorem bulkLoad_errors (maxKeys : Nat) (entries : List Cell) (store : σ) :
    let result := (bulkLoad maxKeys entries store).1
    (∀ e, result = .error (.store e) → Refuses store e) ∧
    (maxKeys < 2 → result = .error (.invalidFanout maxKeys)) ∧
    (2 ≤ maxKeys → (∀ e, result ≠ .error (.store e)) →
      (∀ i, Faulty entries i → (∀ j < i, ¬ Faulty entries j) →
        (Unordered entries i → result = .error (.unsorted i)) ∧
        (¬ Unordered entries i → ∃ cell, entries[i]? = some cell ∧
          result = .error (.node (.cellTooLarge (cell.key.length + cell.value.length))))) ∧
      ((∀ i, ¬ Faulty entries i) →
        (∃ root, result = .ok root) ∨ result = .error .separatorTooLarge ∨
          ∃ cell ∈ entries, 8168 < cell.key.length ∧
            result = .error (.node (.cellTooLarge (cell.key.length + 8)))) ∧
      ((∀ i, ¬ Faulty entries i) → (∀ cell ∈ entries, cell.key.length ≤ 4077) →
        ∃ root, result = .ok root)) ∧
    result ≠ .error (.node .full) ∧ (∀ slot, result ≠ .error (.node (.unorderedKey slot))) ∧
    (2 ≤ maxKeys → ∀ leaves packed, pack maxKeys .leaf entries store = (.ok leaves, packed) →
      (∀ i, (climb maxKeys leaves packed).1 ≠ .error (.unsorted i)) ∧
      climbWithin maxKeys leaves.length leaves packed = some (climb maxKeys leaves packed)) := by
  intro result
  rcases Nat.lt_or_ge maxKeys 2 with hsmall | hmax
  · have hresult : result = .error (.invalidFanout maxKeys) :=
      congrArg Prod.fst (if_pos hsmall)
    rw [hresult]
    refine ⟨?_, fun _ => rfl, fun hge => absurd hsmall (Nat.not_lt.mpr hge), ?_, ?_,
      fun hge => absurd hsmall (Nat.not_lt.mpr hge)⟩
    · intro e h
      cases h
    · intro h
      cases h
    · intro slot h
      cases h
  · have houtcome : LoadOutcome store entries result := bulkLoad_outcome hmax entries store
    have hnode (e : NodeError) (h : result = .error (.node e)) :
        ∃ size, e = .cellTooLarge size := by
      rw [h] at houtcome
      exact houtcome.eq_tooLarge
    refine ⟨?_, fun hlt => absurd hlt (Nat.not_lt.mpr hmax), fun _ hstore => ⟨?_, ?_, ?_⟩, ?_, ?_,
      fun _ leaves packed hpack => ⟨?_, ?_⟩⟩
    · intro e h
      rw [h] at houtcome
      exact houtcome.refuses
    · intro i hi hfirst
      obtain ⟨e, hblames, hresult⟩ := houtcome.of_faulty hstore hi hfirst
      cases hblames with
      | unsorted h => exact ⟨fun _ => hresult, fun hnot => absurd h hnot⟩
      | tooLarge hordered hcell => exact ⟨fun h => absurd h hordered, fun _ => ⟨_, hcell, hresult⟩⟩
    · intro hnone
      rcases (houtcome.of_faultless hnone).of_not_store hstore with
        hroot | ⟨-, -, -, hstuck⟩ | ⟨key, hkey, hlarge, hresult⟩
      · exact Or.inl hroot
      · exact Or.inr (Or.inl hstuck)
      · obtain ⟨cell, hcell, rfl⟩ := List.mem_map.mp hkey
        exact Or.inr (Or.inr ⟨cell, hcell, hlarge, hresult⟩)
    · intro hnone hshort
      apply (houtcome.of_faultless hnone).exists_root hstore
      intro key hkey
      obtain ⟨cell, hcell, rfl⟩ := List.mem_map.mp hkey
      exact hshort cell hcell
    · intro h
      obtain ⟨size, hsize⟩ := hnode _ h
      contradiction
    · intro slot h
      obtain ⟨size, hsize⟩ := hnode _ h
      contradiction
    · intro i h
      have hclimb := climb_leaves_outcome hmax hpack
      rw [h] at hclimb
      cases hclimb
    · have hleaves := List.length_pos_iff.mpr (ne_nil_of_packFrom hpack)
      exact climbWithin_eq hleaves (Nat.le_refl _)

/-- Three entries make a tree of two leaves, and two the other way around make none. -/
theorem bulkLoad_errors_swapped :
    (∃ root, (bulkLoad 2 [⟨[1], []⟩, ⟨[2], []⟩, ⟨[3], []⟩] ({} : MemoryStore)).1 = .ok root) ∧
      (bulkLoad 2 [⟨[2], []⟩, ⟨[1], []⟩] ({} : MemoryStore)).1 = .error (.unsorted 1) := by
  have hstore : ∀ entries ∈ [[⟨[1], []⟩, ⟨[2], []⟩, ⟨[3], []⟩], [⟨[2], []⟩, ⟨[1], []⟩]],
      ∀ e, (bulkLoad 2 entries ({} : MemoryStore)).1 ≠ .error (.store e) := by
    intro entries hentries e h
    have hruns : ∀ entries ∈ [[⟨[1], []⟩, ⟨[2], []⟩, ⟨[3], []⟩], [⟨[2], []⟩, ⟨[1], []⟩]],
        (match (bulkLoad 2 entries ({} : MemoryStore)).1 with
          | .ok _ => true
          | .error e => decide (e = .unsorted 1)) = true := by decide +kernel
    have hrun := hruns entries hentries
    rw [h] at hrun
    exact BuildError.noConfusion (of_decide_eq_true hrun)
  constructor
  · obtain ⟨-, -, hall, -⟩ :=
      bulkLoad_errors 2 [⟨[1], []⟩, ⟨[2], []⟩, ⟨[3], []⟩] ({} : MemoryStore)
    refine (hall (Nat.le_refl 2) (hstore _ (by simp))).2.2 ?_ (by decide)
    have hascending : Ascending [⟨[1], []⟩, ⟨[2], []⟩, ⟨[3], []⟩] := by
      unfold Ascending
      decide
    rintro i (hunordered | ⟨cell, hcell, hlarge⟩)
    · exact not_unordered_of_ascending hascending i hunordered
    · have hsmall : ∀ cell ∈ [(⟨[1], []⟩ : Cell), ⟨[2], []⟩, ⟨[3], []⟩],
          ¬ 8176 < cell.key.length + cell.value.length := by decide
      exact hsmall cell (List.mem_of_getElem? hcell) hlarge
  · obtain ⟨-, -, hall, -⟩ := bulkLoad_errors 2 [⟨[2], []⟩, ⟨[1], []⟩] ({} : MemoryStore)
    have hunordered : Unordered [⟨[2], []⟩, ⟨[1], []⟩] 1 :=
      ⟨_, _, Nat.one_pos, rfl, rfl, by decide⟩
    refine ((hall (Nat.le_refl 2) (hstore _ (by simp))).1 1 (Or.inl hunordered) ?_).1 hunordered
    intro j hj
    obtain rfl := Nat.lt_one_iff.mp hj
    rintro (⟨_, _, hpos, -⟩ | ⟨cell, hcell, hlarge⟩)
    · exact absurd hpos (Nat.lt_irrefl 0)
    · obtain rfl := Option.some.inj hcell
      exact absurd hlarge (by decide)

end RangeStore
