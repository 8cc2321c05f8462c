import RangeStore.Proofs.Storage.Serial
import RangeStore.Proofs.Tree.Search
import RangeStore.Tree.BulkLoad
set_option autoImplicit false

/-! # Packing cells into nodes

Packing cuts a list of cells into groups, one for each node, and puts the nodes one after the other:
`BulkLoad.packFrom_ok`. No group is larger than a node may be, and only a list without cells gives
an empty group. A list that was packed is in ascending order. -/

namespace RangeStore

open Std

theorem Ascending.cons {a : Cell} {cells : List Cell} (h : Ascending cells)
    (hhead : ∀ c ∈ cells.head?, compare a.key c.key = .lt) : Ascending (a :: cells) := by
  refine List.pairwise_cons.mpr ⟨fun c hc => ?_, h⟩
  cases cells with
  | nil => contradiction
  | cons first rest =>
    have hfirst := hhead first rfl
    rcases List.mem_cons.mp hc with rfl | hc
    · exact hfirst
    · exact TransCmp.lt_trans hfirst ((List.pairwise_cons.mp h).1 c hc)

namespace BulkLoad

variable {σ : Type} [Storage σ]

/-- The source has the node of a draft, under the id of the child; the child's key is the first of
the draft. -/
structure Packed (s : NodeSource) (kind : NodeKind) (child : Bytes × PageId) (d : NodeDraft) :
    Prop where
  kind_eq : d.kind = kind
  key_eq : child.1 = d.firstKey?.getD []
  ne_zero : child.2 ≠ 0
  fetch : s.fetch child.2 = .ok d.finish

theorem Packed.keep {s s' : NodeSource} {kind : NodeKind} {child : Bytes × PageId} {d : NodeDraft}
    (h : Packed s kind child d) (hkeep : s.Keeps s') : Packed s' kind child d :=
  ⟨h.kind_eq, h.key_eq, h.ne_zero, hkeep h.fetch⟩

theorem compare_of_unsortedAfter {p key : Bytes} (h : unsortedAfter (some p) key = false) :
    compare p key = .lt := by
  have hge : (compare p key).isGE = false := h
  cases hcmp : compare p key with
  | lt => rfl
  | eq => simp [hcmp] at hge
  | gt => simp [hcmp] at hge

/-- What packing one more cell does when it succeeds: the cell comes behind the one before it, and
it begins a new draft, after the full one has been put, or joins the one that waits. -/
theorem packFrom_cons_eq_ok {maxKeys : Nat} {d : NodeDraft} {position : Nat}
    {previous : Option Bytes} {done children : List (Bytes × PageId)} {store store' : σ}
    {cell : Cell} {rest : List Cell}
    (h : packFrom maxKeys d position previous done store (cell :: rest) = (.ok children, store')) :
    unsortedAfter previous cell.key = false ∧
    ((isFull maxKeys d cell = true ∧ ∃ child flushed fresh,
        flush d store = (.ok child, flushed) ∧ NodeDraft.push { kind := d.kind } cell = .ok fresh ∧
        packFrom maxKeys fresh (position + 1) (some cell.key) (child :: done) flushed rest =
          (.ok children, store')) ∨
      (isFull maxKeys d cell = false ∧ ∃ grown, d.push cell = .ok grown ∧
        packFrom maxKeys grown (position + 1) (some cell.key) done store rest =
          (.ok children, store'))) := by
  unfold packFrom at h
  split at h
  · cases h
  · next hsorted =>
    refine ⟨Bool.of_not_eq_true hsorted, ?_⟩
    split at h
    · next hfull =>
      split at h
      · cases h
      · next child flushed hflush =>
        split at h
        · cases h
        · next fresh hpush => exact Or.inl ⟨hfull, child, flushed, fresh, hflush, hpush, h⟩
    · next hroom =>
      split at h
      · cases h
      · next grown hpush => exact Or.inr ⟨Bool.of_not_eq_true hroom, grown, hpush, h⟩

/-- Cells that were packed are in order, also with the one that came before them. -/
theorem packFrom_ascending {maxKeys : Nat} {d : NodeDraft} {position : Nat}
    {previous : Option Bytes} {done children : List (Bytes × PageId)} {store store' : σ}
    {cells : List Cell}
    (h : packFrom maxKeys d position previous done store cells = (.ok children, store')) :
    Ascending cells ∧ ∀ p ∈ previous, ∀ c ∈ cells.head?, compare p c.key = .lt := by
  induction cells generalizing d position previous done store with
  | nil => exact ⟨List.Pairwise.nil, fun _ _ c hc => by contradiction⟩
  | cons cell rest ih =>
    obtain ⟨hsorted, hstep⟩ := packFrom_cons_eq_ok h
    have hrest : Ascending rest ∧ ∀ c ∈ rest.head?, compare cell.key c.key = .lt := by
      rcases hstep with ⟨-, _, _, _, -, -, hpack⟩ | ⟨-, _, -, hpack⟩
      · exact ⟨(ih hpack).1, (ih hpack).2 _ rfl⟩
      · exact ⟨(ih hpack).1, (ih hpack).2 _ rfl⟩
    refine ⟨hrest.1.cons hrest.2, ?_⟩
    rintro p rfl c hc
    rw [← Option.some.inj hc]
    exact compare_of_unsortedAfter hsorted

/-- What packing does at the end: it puts the draft that waits, but not an empty one behind
others. -/
theorem packFrom_nil_eq_ok {maxKeys : Nat} {d : NodeDraft} {position : Nat}
    {previous : Option Bytes} {done children : List (Bytes × PageId)} {store store' : σ}
    (h : packFrom maxKeys d position previous done store [] = (.ok children, store')) :
    (∃ child, flush d store = (.ok child, store') ∧ children = (child :: done).reverse) ∨
      (d.cells.toList = [] ∧ done ≠ [] ∧ store' = store ∧ children = done.reverse) := by
  unfold packFrom at h
  split at h
  · split at h
    · cases h
    · next child flushed hflush =>
      obtain ⟨hchildren, rfl⟩ := Prod.mk.inj h
      exact Or.inl ⟨child, hflush, (Except.ok.inj hchildren).symm⟩
  · next hempty =>
    obtain ⟨hchildren, rfl⟩ := Prod.mk.inj h
    simp only [NodeDraft.isEmpty, Bool.or_eq_true, Bool.not_eq_true', not_or, List.isEmpty_iff,
      Bool.not_eq_false, Array.isEmpty_iff] at hempty
    exact Or.inr ⟨congrArg Array.toList hempty.1, hempty.2, rfl, (Except.ok.inj hchildren).symm⟩

/-- No entries make one empty leaf. -/
theorem pack_nil_eq_ok {maxKeys : Nat} {children : List (Bytes × PageId)} {store store' : σ}
    (h : pack maxKeys .leaf [] store = (.ok children, store')) :
    ∃ child, flush { kind := .leaf } store = (.ok child, store') ∧ children = [child] := by
  rcases packFrom_nil_eq_ok h with ⟨child, hflush, hchildren⟩ | ⟨-, hdone, -, -⟩
  · exact ⟨child, hflush, hchildren⟩
  · exact absurd rfl hdone

/-- The cell that names a child. -/
def childCell (child : Bytes × PageId) : Cell := Cell.ofChild child.1 child.2

variable [LawfulStorage σ]

open LawfulStorage (Sound)

theorem flush_ok {d : NodeDraft} {store store' : σ} {child : Bytes × PageId}
    (hstore : Sound store) (hd : d.Sound) (h : flush d store = (.ok child, store')) :
    Puts store [child.2] store' ∧ Packed (Storage.source store') d.kind child d := by
  unfold flush at h
  split at h
  · cases h
  · next id flushed hput =>
    obtain ⟨hchild, rfl⟩ := Prod.mk.inj h
    obtain ⟨-, hne, hfetch, -⟩ := LawfulStorage.put_ok hstore hd hput
    rw [← Except.ok.inj hchild]
    exact ⟨Puts.put hd hput (Puts.done _), rfl, rfl, hne, hfetch⟩

/-- Cells that were cut into the groups of some drafts, each with its node in the source. No group
has more cells than a node may have, and none is empty unless there are no cells at all. -/
structure Groups (s : NodeSource) (maxKeys : Nat) (kind : NodeKind) (cells : List Cell)
    (packed : List ((Bytes × PageId) × NodeDraft)) : Prop where
  flat : packed.flatMap (·.2.cells.toList) = cells
  put : ∀ p ∈ packed, Packed s kind p.1 p.2
  size_le : ∀ p ∈ packed, p.2.size ≤ maxKeys
  nonempty : ∀ p ∈ packed, p.2.cells.toList = [] → cells = []

theorem Groups.single {s : NodeSource} {maxKeys : Nat} {child : Bytes × PageId} {d : NodeDraft}
    (h : Packed s d.kind child d) (hsize : d.size ≤ maxKeys) :
    Groups s maxKeys d.kind d.cells.toList [(child, d)] where
  flat := List.append_nil _
  put _ hp := List.mem_singleton.mp hp ▸ h
  size_le _ hp := List.mem_singleton.mp hp ▸ hsize
  nonempty _ hp := List.mem_singleton.mp hp ▸ id

/-- A group in front of others. -/
theorem Groups.cons {s : NodeSource} {maxKeys : Nat} {child : Bytes × PageId} {d : NodeDraft}
    {cells : List Cell} {packed : List ((Bytes × PageId) × NodeDraft)} (h : Packed s d.kind child d)
    (hsize : d.size ≤ maxKeys) (hne : d.cells.toList ≠ []) (hcells : cells ≠ [])
    (hrest : Groups s maxKeys d.kind cells packed) :
    Groups s maxKeys d.kind (d.cells.toList ++ cells) ((child, d) :: packed) where
  flat := by rw [List.flatMap_cons, hrest.flat]
  put p hp := by
    rcases List.mem_cons.mp hp with rfl | hp
    · exact h
    · exact hrest.put p hp
  size_le p hp := by
    rcases List.mem_cons.mp hp with rfl | hp
    · exact hsize
    · exact hrest.size_le p hp
  nonempty p hp hnil := by
    rcases List.mem_cons.mp hp with rfl | hp
    · exact absurd hnil hne
    · exact absurd (hrest.nonempty p hp hnil) hcells

/-- A draft that is full has cells. -/
theorem toList_ne_nil_of_isFull {maxKeys : Nat} (hmax : 0 < maxKeys) {d : NodeDraft} {cell : Cell}
    (h : isFull maxKeys d cell = true) : d.cells.toList ≠ [] := by
  intro hnil
  have hempty : d.cells = #[] := Array.toList_eq_nil_iff.mp hnil
  simp [isFull, NodeDraft.size, NodeDraft.isEmpty, hempty] at h
  omega

/-- A draft that takes one more cell has room for it under the bound. -/
theorem size_lt_of_not_isFull {maxKeys : Nat} {d : NodeDraft} {cell : Cell}
    (h : isFull maxKeys d cell = false) (hsize : d.size ≤ maxKeys) : d.size < maxKeys := by
  refine Nat.lt_of_le_of_ne hsize fun heq => ?_
  rw [isFull, decide_eq_true heq, Bool.true_or] at h
  contradiction

/-- Packing cuts the waiting cells and the list into groups and puts the node of each, one after the
other. -/
theorem packFrom_ok {maxKeys : Nat} (hmax : 0 < maxKeys) {d : NodeDraft} {position : Nat}
    {previous : Option Bytes} {done children : List (Bytes × PageId)} {store store' : σ}
    {cells : List Cell} (hstore : Sound store) (hd : d.Sound) (hsize : d.size ≤ maxKeys)
    (hcells : d.kind = .internal → ∀ c ∈ cells, c.value.length = 8)
    (h : packFrom maxKeys d position previous done store cells = (.ok children, store')) :
    ∃ packed, children = done.reverse ++ packed.map (·.1) ∧
      Puts store (packed.map (·.1.2)) store' ∧
      Groups (Storage.source store') maxKeys d.kind (d.cells.toList ++ cells) packed := by
  induction cells generalizing d position previous done store with
  | nil =>
    rw [List.append_nil]
    rcases packFrom_nil_eq_ok h with ⟨child, hflush, rfl⟩ | ⟨hnil, -, rfl, rfl⟩
    · obtain ⟨hput, hpacked⟩ := flush_ok hstore hd hflush
      exact ⟨[(child, d)], List.reverse_cons, hput, Groups.single hpacked hsize⟩
    · refine ⟨[], (List.append_nil _).symm, Puts.done _, hnil.symm, ?_, ?_, ?_⟩
      · exact fun p hp => by contradiction
      · exact fun p hp => by contradiction
      · exact fun _ _ _ => hnil
  | cons cell rest ih =>
    have hcell : d.kind = .internal → cell.value.length = 8 := fun hkind =>
      hcells hkind cell (List.mem_cons_self ..)
    have hrest : d.kind = .internal → ∀ c ∈ rest, c.value.length = 8 := fun hkind c hc =>
      hcells hkind c (List.mem_cons_of_mem _ hc)
    obtain ⟨-, ⟨hfull, child, flushed, fresh, hflush, hpush, hpack⟩ |
      ⟨hroom, grown, hpush, hpack⟩⟩ := packFrom_cons_eq_ok h
    · -- the waiting draft is put, and the cell begins the next one
      obtain ⟨hput, hpacked⟩ := flush_ok hstore hd hflush
      have hsound := (hput.sound_keeps hstore).1
      have hfresh := (NodeDraft.sound_empty d.kind).push hpush hcell
      obtain ⟨-, rfl⟩ := NodeDraft.push_eq_ok hpush
      obtain ⟨packed, hchildren, hputs, hgroups⟩ := ih hsound hfresh hmax hrest hpack
      refine ⟨(child, d) :: packed, ?_, hput.trans hputs, ?_⟩
      · rw [hchildren, List.reverse_cons, List.append_assoc]
        rfl
      · exact Groups.cons (hpacked.keep (hputs.sound_keeps hsound).2) hsize
          (toList_ne_nil_of_isFull hmax hfull) (List.cons_ne_nil _ _) hgroups
    · -- the cell joins the waiting draft
      have hgrown := hd.push hpush hcell
      have hsize' := size_lt_of_not_isFull hroom hsize
      obtain ⟨-, rfl⟩ := NodeDraft.push_eq_ok hpush
      have hbound : (d.cells.push cell).size ≤ maxKeys := by
        rw [Array.size_push]
        exact hsize'
      obtain ⟨packed, hchildren, hputs, hgroups⟩ := ih hstore hgrown hbound hrest hpack
      rw [Array.toList_push, List.append_assoc] at hgroups
      exact ⟨packed, hchildren, hputs, hgroups⟩

end BulkLoad

end RangeStore
