import RangeStore.Database.Basic
import RangeStore.Proofs.Database.Content
import RangeStore.Proofs.Schema.Draft
import RangeStore.Proofs.Tree.BulkLoad
import RangeStore.Proofs.Tree.Window
set_option autoImplicit false

/-! # Built databases

A database that was built has, below its root, a search tree of the entries of its tables and rows
(`Database.Built`), whatever the size of its nodes. So the row under a primary key is found in it
(`Database.Built.lookup_eq`). -/

namespace RangeStore

namespace Database

variable {σ : Type} [Storage σ]

/-- The tree below the root is a search tree, and holds what the tables and rows become. -/
structure Built (db : Database σ) (tables : List Table) (rows : List (String × Record))
    (tree : Tree) : Prop where
  rooted : tree.Rooted db.source db.root
  search : tree.Search
  sound : ∀ t ∈ db.tables.tables, t.Sound
  lists : Content.Lists db.tables tables
  holds : Content.Holds db.tables rows tree.entries

/-- The steps of building a database. -/
theorem build_eq_ok {store store' : σ} {settings : Settings} {tables : List Table}
    {rows : List (String × Record)} {db : Database σ}
    (h : build store settings tables rows = (.ok db, store')) :
    ∃ c entries root loaded, Content.ofRows tables rows = .ok (c, entries) ∧
      bulkLoad settings.maxNodeKeys entries store = (.ok root, loaded) ∧
      Storage.commitRoot loaded root = (.ok (), store') ∧ db = ⟨store', root, c, settings⟩ := by
  unfold build at h
  split at h
  · cases h
  · next c entries hentries =>
    split at h
    · cases h
    · next root loaded hloaded =>
      split at h
      · cases h
      · next committed hcommit =>
        obtain ⟨hdb, rfl⟩ := Prod.mk.inj h
        exact ⟨c, entries, root, loaded, hentries, hloaded, hcommit, (Except.ok.inj hdb).symm⟩

theorem build_built [LawfulStorage σ] {store store' : σ} {settings : Settings}
    {tables : List Table} {rows : List (String × Record)} {db : Database σ}
    (hstore : LawfulStorage.Sound store) (htables : ∀ t ∈ tables, ∃ d : Draft, d.build = .ok t)
    (h : build store settings tables rows = (.ok db, store')) :
    ∃ tree, Built db tables rows tree := by
  obtain ⟨c, entries, root, loaded, hrows, hload, hcommit, rfl⟩ := build_eq_ok h
  have hsound : ∀ t ∈ tables, t.Sound := by
    intro t ht
    obtain ⟨d, hd⟩ := htables t ht
    exact Draft.sound_of_build hd
  obtain ⟨hlists, hholds⟩ := Content.ofRows_eq_ok hsound hrows
  obtain ⟨hloaded, -, tree, hrooted, hsearch, rfl⟩ := bulkLoad_ok hstore hload
  exact ⟨tree, hrooted.keep (LawfulStorage.commitRoot_ok hloaded hcommit), hsearch,
    fun t ht => hsound t (hlists.perm.mem_iff.mp ht), hlists, hholds⟩

/-! ## Looking a row up -/

theorem keyValues_eq {t : Table} {key : Record} {columns : List Column} (h : key.Fits columns) :
    keyValues t key columns = .ok (key.tuple (columns.map (·.name))) := by
  induction columns with
  | nil => rfl
  | cons column columns ih =>
    obtain ⟨value, hvalue, htype⟩ := h column (List.mem_cons_self ..)
    rw [keyValues, hvalue]
    simp only [htype, if_true, ih (h.sublist fun other hother => List.mem_cons_of_mem _ hother)]
    rw [List.map_cons, Record.tuple_cons hvalue]

namespace Built

variable {db : Database σ} {tables : List Table} {rows : List (String × Record)} {tree : Tree}

/-- The entries of each row are in the tree. -/
theorem entry_mem (h : Built db tables rows tree) {row : String × Record} (hrow : row ∈ rows)
    {t : Table} (ht : db.tables.find? row.1 = some t) {l : KeyLayout} (hl : l ∈ KeyLayout.all t) :
    KeyLayout.entry t row.2 l ∈ tree.entries :=
  h.holds.perm.mem_iff.mpr (List.mem_append_right _ (List.mem_flatMap.mpr
    ⟨row, hrow, Content.entry_mem_cellsOf ht hl⟩))

/-- A row is found under every record that has its primary key, with its columns in the table's
order. -/
theorem lookup_of_tuple_eq (h : Built db tables rows tree) {row : String × Record}
    (hrow : row ∈ rows) {t : Table} (ht : db.tables.find? row.1 = some t)
    (hfits : row.2.Fits t.columns) {key : Record} (hkey : key.Fits t.primaryKey)
    (htuple : key.tuple t.keyNames = row.2.tuple t.keyNames) :
    db.rowLookup t key = .ok (some (row.2.restrict t.columnNames)) := by
  have hvalues := keyValues_eq (t := t) hkey
  rw [← Table.keyNames, htuple] at hvalues
  obtain ⟨cursor, hcursor, hentry⟩ :=
    h.rooted.seek_ge_of_mem h.search (h.entry_mem hrow ht (KeyLayout.primary_mem t))
  have hsought : (KeyLayout.entry t row.2 (KeyLayout.primary t)).key =
      Tuple.encodeKey t.keySpace (row.2.tuple t.keyNames) := rfl
  have hread : Row.ofEntry t (KeyLayout.entry t row.2 (KeyLayout.primary t)) =
      .ok (row.2.restrict t.columnNames) := Row.ofEntry_eq hfits t.keySpace
  rw [hsought] at hcursor
  simp only [rowLookup, lookup, hvalues, hcursor, hentry, hsought, if_true, hread]

/-- So it is found under its primary key. -/
theorem lookup_eq (h : Built db tables rows tree) {row : String × Record} (hrow : row ∈ rows)
    {t : Table} (ht : db.tables.find? row.1 = some t) (hfits : row.2.Fits t.columns) :
    db.rowLookup t (row.2.restrict t.keyNames) = .ok (some (row.2.restrict t.columnNames)) := by
  have hkeyHas : row.2.Has t.keyNames :=
    hfits.has.sublist fun _ => Table.mem_columnNames_of_mem_keyNames
  have hkeyFits : (row.2.restrict t.keyNames).Fits t.primaryKey := by
    intro column hcolumn
    rw [hkeyHas.find?_restrict (List.mem_map_of_mem hcolumn)]
    exact hfits column (List.mem_of_mem_take hcolumn)
  exact h.lookup_of_tuple_eq hrow ht hfits hkeyFits (hkeyHas.tuple_restrict fun _ hname => hname)

end Built

end Database

end RangeStore
