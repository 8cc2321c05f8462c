import RangeStore.Proofs.Database.InputOrder
set_option autoImplicit false

/-! # Looking rows up

A record that has a value of the right type in each column of a table's primary key is looked up
without an error: what is found is the one row of the table with these values, or nothing if no such
row was put in (`Database.get_rowsUnder`). The search lands on the first key that is not smaller
than the one that is sought; only a row of the table has this very key, since the key spaces of the
other tables, of the indexes and of the catalog are different
(`Database.Built.exists_row_of_key_eq`). -/

namespace RangeStore

namespace Database

variable {σ : Type} [Storage σ]

/-- The rows of a table that have the primary key of a record: in each of its columns the same
value. -/
def rowsUnder (t : Table) (key : Record) (rows : List (String × Record)) :
    List (String × Record) :=
  rows.filter fun row => row.1 == t.name &&
    t.primaryKey.all fun column => row.2.find? column.name == key.find? column.name

theorem mem_rowsUnder {t : Table} {key : Record} {rows : List (String × Record)}
    {row : String × Record} :
    row ∈ rowsUnder t key rows ↔ row ∈ rows ∧ row.1 = t.name ∧
      ∀ column ∈ t.primaryKey, row.2.find? column.name = key.find? column.name := by
  rw [rowsUnder, List.mem_filter, Bool.and_eq_true, List.all_eq_true]
  simp only [beq_iff_eq]

/-- Only the columns of the primary key are looked at. -/
theorem rowsUnder_congr {t : Table} {key other : Record} (rows : List (String × Record))
    (h : ∀ column ∈ t.primaryKey, other.find? column.name = key.find? column.name) :
    rowsUnder t other rows = rowsUnder t key rows := by
  have hsame : ∀ row : String × Record,
      (t.primaryKey.all fun column => row.2.find? column.name == other.find? column.name) =
        t.primaryKey.all fun column => row.2.find? column.name == key.find? column.name := by
    intro row
    rw [Bool.eq_iff_iff, List.all_eq_true, List.all_eq_true]
    exact forall₂_congr fun column hcolumn => by rw [h column hcolumn]
  unfold rowsUnder
  simp only [hsame]

namespace Built

variable {db : Database σ} {tables : List Table} {rows : List (String × Record)} {tree : Tree}
  {t : Table} {key : Record}

/-- Two rows of a database have no key in common. -/
theorem pairwise_cellsOf (h : Built db tables rows tree) :
    rows.Pairwise fun row row' => ∀ e ∈ Content.cellsOf db.tables row,
      ∀ e' ∈ Content.cellsOf db.tables row', e.key ≠ e'.key := by
  have hdiffer := h.search.ascending.keysDiffer.perm h.holds.perm
  exact (List.pairwise_flatMap.mp (List.pairwise_append.mp hdiffer).2.1).2

/-- A row with the primary key of a record is one of the table, and its tuple there is the
record's. -/
theorem fits_of_mem_rowsUnder (h : Built db tables rows tree) (ht : t ∈ db.tables.tables)
    {row : String × Record} (hrow : row ∈ rowsUnder t key rows) :
    db.tables.find? row.1 = some t ∧ row.2.Fits t.columns ∧
      key.tuple t.keyNames = row.2.tuple t.keyNames := by
  obtain ⟨hmem, hname, hagree⟩ := mem_rowsUnder.mp hrow
  have hfind : db.tables.find? row.1 = some t := hname ▸ h.lists.find?_name ht
  obtain ⟨u, hu, hfits⟩ := h.holds.placed row hmem
  obtain rfl := Option.some.inj (hfind.symm.trans hu)
  refine ⟨hfind, hfits, Record.tuple_congr fun name hname => ?_⟩
  obtain ⟨column, hcolumn, rfl⟩ := List.mem_map.mp hname
  exact (hagree column hcolumn).symm

/-- No two rows have the same primary key. -/
theorem rowsUnder_cases (h : Built db tables rows tree) (ht : t ∈ db.tables.tables)
    (key : Record) : rowsUnder t key rows = [] ∨ ∃ row, rowsUnder t key rows = [row] := by
  have hapart : (rowsUnder t key rows).Pairwise fun row row' =>
      ∀ e ∈ Content.cellsOf db.tables row, ∀ e' ∈ Content.cellsOf db.tables row', e.key ≠ e'.key :=
    h.pairwise_cellsOf.sublist List.filter_sublist
  have hrows := fun row (hrow : row ∈ rowsUnder t key rows) => h.fits_of_mem_rowsUnder ht hrow
  cases hunder : rowsUnder t key rows with
  | nil => exact Or.inl rfl
  | cons row rest =>
    cases rest with
    | nil => exact Or.inr ⟨row, rfl⟩
    | cons row' rest =>
      -- the entries of both rows under their primary key would have the same key
      rw [hunder] at hapart hrows
      obtain ⟨hfind, -, htuple⟩ := hrows row (List.mem_cons_self ..)
      obtain ⟨hfind', -, htuple'⟩ := hrows row' (List.mem_cons_of_mem _ (List.mem_cons_self ..))
      have hne := (List.pairwise_cons.mp hapart).1 row' (List.mem_cons_self ..) _
        (Content.entry_mem_cellsOf hfind (KeyLayout.primary_mem t)) _
        (Content.entry_mem_cellsOf hfind' (KeyLayout.primary_mem t))
      exact absurd (congrArg (Tuple.encodeKey t.keySpace) (htuple.symm.trans htuple')) hne

/-- An entry with the key that is sought is that of a row of the table with this primary key. -/
theorem exists_row_of_key_eq (h : Built db tables rows tree) (ht : t ∈ db.tables.tables)
    (hkey : key.Fits t.primaryKey) {e : Cell} (he : e ∈ tree.entries)
    (hsought : e.key = Tuple.encodeKey t.keySpace (key.tuple t.keyNames)) :
    ∃ row, row ∈ rowsUnder t key rows := by
  obtain ⟨row, hrow, hfind, hfits, rfl⟩ := h.holds.exists_row_of_keySpace h.lists h.sound ht
    (KeyLayout.primary_mem t) he hsought
  have hrowKey : row.2.Fits t.primaryKey := hfits.sublist fun column => List.mem_of_mem_take
  have htypes : (row.2.tuple t.keyNames).map Value.type = (key.tuple t.keyNames).map Value.type :=
    hrowKey.map_type_tuple.trans hkey.map_type_tuple.symm
  have htuple : row.2.tuple t.keyNames = key.tuple t.keyNames :=
    (Tuple.encodeKey_injective (Tuple.agree_of_types (htypes ▸ List.prefix_refl _)) hsought).2
  have hname : t.name = row.1 := by simpa using List.find?_some hfind
  refine ⟨row, mem_rowsUnder.mpr ⟨hrow, hname.symm, fun column hcolumn => ?_⟩⟩
  exact hrowKey.has.find?_eq hkey.has htuple _ (List.mem_map_of_mem hcolumn)

/-- Where no row has the primary key, nothing is found. -/
theorem lookup_eq_none (h : Built db tables rows tree) (ht : t ∈ db.tables.tables)
    (hkey : key.Fits t.primaryKey) (hnone : rowsUnder t key rows = []) :
    db.rowLookup t key = .ok none := by
  have hvalues := keyValues_eq (t := t) hkey
  rw [← Table.keyNames] at hvalues
  obtain ⟨cursor, hcursor, htracks⟩ :=
    h.rooted.seek (Tuple.encodeKey t.keySpace (key.tuple t.keyNames)) .ge
  cases hentry : cursor.entry? with
  | none => simp only [rowLookup, lookup, hvalues, hcursor, hentry]
  | some e =>
    have hne : e.key ≠ Tuple.encodeKey t.keySpace (key.tuple t.keyNames) := by
      intro hsought
      rw [htracks.entry?_eq] at hentry
      obtain ⟨i, -, hi⟩ := Option.bind_eq_some_iff.mp hentry
      obtain ⟨row, hrow⟩ := h.exists_row_of_key_eq ht hkey (List.mem_of_getElem? hi) hsought
      rw [hnone] at hrow
      contradiction
    simp only [rowLookup, lookup, hvalues, hcursor, hentry, if_neg hne]

/-- What is found is the first row with the primary key. -/
theorem lookup_eq_head? (h : Built db tables rows tree) (ht : t ∈ db.tables.tables)
    (hkey : key.Fits t.primaryKey) :
    db.rowLookup t key =
      .ok ((rowsUnder t key rows).head?.map fun row => row.2.restrict t.columnNames) := by
  cases hunder : rowsUnder t key rows with
  | nil => exact h.lookup_eq_none ht hkey hunder
  | cons row rest =>
    have hrow : row ∈ rowsUnder t key rows := hunder ▸ List.mem_cons_self ..
    obtain ⟨hfind, hfits, htuple⟩ := h.fits_of_mem_rowsUnder ht hrow
    exact h.lookup_of_tuple_eq (mem_rowsUnder.mp hrow).1 hfind hfits hkey htuple

end Built

/-- In a database that was built, let a record have a value of the right type in each column of a
table's primary key. If no row of the table has these values, then nothing is found under the
record; otherwise exactly one has them, and this row is found, with all columns in the table's
order. Whatever else the record holds, and in which order, makes no difference. -/
theorem get_rowsUnder [LawfulStorage σ] {store store' : σ} {settings : Settings}
    {tables : List Table} {rows : List (String × Record)} {db : Database σ} {t : Table}
    {key : Record} (hstore : LawfulStorage.Sound store)
    (htables : ∀ t ∈ tables, ∃ d : Draft, d.build = .ok t)
    (hbuild : build store settings tables rows = (.ok db, store')) (ht : t ∈ tables)
    (hkey : key.Fits t.primaryKey) :
    ((rowsUnder t key rows = [] ∧ db.get t.name key = .ok none) ∨
      ∃ row, rowsUnder t key rows = [row] ∧
        db.get t.name key = .ok (some (row.2.restrict t.columnNames))) ∧
    ∀ other : Record,
      (∀ column ∈ t.primaryKey, other.find? column.name = key.find? column.name) →
        db.get t.name other = db.get t.name key := by
  obtain ⟨tree, h⟩ := build_built hstore htables hbuild
  have hmem : t ∈ db.tables.tables := h.lists.perm.mem_iff.mpr ht
  have hget : ∀ record : Record, record.Fits t.primaryKey → db.get t.name record =
      .ok ((rowsUnder t record rows).head?.map fun row => row.2.restrict t.columnNames) := by
    intro record hrecord
    rw [Database.get, h.lists.find?_name hmem]
    exact h.lookup_eq_head? hmem hrecord
  constructor
  · rw [hget key hkey]
    rcases h.rowsUnder_cases hmem key with hnone | ⟨row, hone⟩
    · rw [hnone]
      exact Or.inl ⟨rfl, rfl⟩
    · rw [hone]
      exact Or.inr ⟨row, rfl, rfl⟩
  · intro other hsame
    have hother : other.Fits t.primaryKey := by
      intro column hcolumn
      rw [hsame column hcolumn]
      exact hkey column hcolumn
    rw [hget other hother, hget key hkey, rowsUnder_congr rows hsame]

/-- Among the three towns the number 2, with a column that towns do not have in front of it or
without, and a number that no town has. -/
theorem get_rowsUnder_towns :
    ∃ db store', build ({} : MemoryStore) { maxNodeKeys := 2 } [towns] townRows = (.ok db, store') ∧
      db.get towns.name ⟨["mayor", "id"], [.bytes [], .int 2]⟩ =
        .ok (some ⟨["id", "name"], [.int 2, .bytes [97]]⟩) ∧
      db.get towns.name ⟨["id"], [.int 2]⟩ =
        db.get towns.name ⟨["mayor", "id"], [.bytes [], .int 2]⟩ ∧
      db.get towns.name ⟨["id"], [.int 3]⟩ = .ok none := by
  have hdraft : Draft.build ⟨"towns", [⟨"id", .int64⟩, ⟨"name", .bytes⟩], 1, 100,
      [⟨"byName", ["name"]⟩]⟩ = .ok towns := rfl
  have htables : ∀ t ∈ [towns], ∃ d : Draft, d.build = .ok t :=
    fun t ht => ⟨_, List.mem_singleton.mp ht ▸ hdraft⟩
  have hmayor : Record.Fits ⟨["mayor", "id"], [.bytes [], .int 2]⟩ towns.primaryKey := by
    intro column hcolumn
    rw [List.mem_singleton.mp hcolumn]
    exact ⟨.int 2, rfl, rfl⟩
  have hthree : Record.Fits ⟨["id"], [.int 3]⟩ towns.primaryKey := by
    intro column hcolumn
    rw [List.mem_singleton.mp hcolumn]
    exact ⟨.int 3, rfl, rfl⟩
  have hbuilds : (match build ({} : MemoryStore) { maxNodeKeys := 2 } [towns] townRows with
      | (.ok _, _) => true
      | (.error _, _) => false) = true := by decide +kernel
  split at hbuilds
  · next db store' hbuild =>
    have htowns : towns ∈ [towns] := List.mem_singleton.mpr rfl
    obtain ⟨hfound, hother⟩ := get_rowsUnder trivial htables hbuild htowns hmayor
    obtain ⟨hmissed, -⟩ := get_rowsUnder trivial htables hbuild htowns hthree
    obtain ⟨row, hone, hrow⟩ := hfound.resolve_left fun hnone => absurd hnone.1 (by decide)
    have hnothing : rowsUnder towns ⟨["id"], [.int 3]⟩ townRows = [] := by decide
    obtain ⟨-, hnone⟩ := hmissed.resolve_right fun ⟨_, hsome, _⟩ => by
      rw [hnothing] at hsome
      contradiction
    have hsecond : rowsUnder towns ⟨["mayor", "id"], [.bytes [], .int 2]⟩ townRows =
        [("towns", ⟨["name", "id"], [.bytes [97], .int 2]⟩)] := by decide
    rw [hsecond] at hone
    obtain rfl := (List.cons.inj hone).1
    refine ⟨db, store', hbuild, hrow, hother _ fun column hcolumn => ?_, hnone⟩
    rw [List.mem_singleton.mp hcolumn]
    rfl
  · contradiction

end Database

end RangeStore
