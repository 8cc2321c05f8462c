import RangeStore.Proofs.Schema.Row
import RangeStore.Scan.KeyLayout
set_option autoImplicit false

/-! # Layouts of tables

Each layout of a sound table covers the primary key, has the declared types, and lies in a key space
of its own among those of the table (`KeyLayout.Of`). A row has one entry in each layout
(`KeyLayout.entries_eq`). What `resolve` gives is a layout of the table whose key begins with both
bounds (`KeyLayout.resolve_eq_ok`). -/

namespace RangeStore

/-- The columns have these types in the table, one each. -/
def Table.Declares (t : Table) (columns : List String) (types : List ColumnType) : Prop :=
  columns.map t.columnType? = types.map some

namespace KeyLayout

variable {t : Table} {l : KeyLayout}

theorem mem_all (h : l ∈ all t) :
    l = primary t ∨ ∃ i index, t.indexes[i]? = some index ∧ l = secondary t i index := by
  rcases List.mem_cons.mp h with rfl | h
  · exact Or.inl rfl
  · obtain ⟨⟨index, i⟩, hi, rfl⟩ := List.mem_map.mp h
    exact Or.inr ⟨i, index, List.mem_zipIdx_iff_getElem?.mp hi, rfl⟩

theorem primary_mem (t : Table) : primary t ∈ all t := List.mem_cons_self ..

theorem secondary_mem {i : Nat} {index : Index} (h : t.indexes[i]? = some index) :
    secondary t i index ∈ all t :=
  List.mem_cons_of_mem _ (List.mem_map.mpr ⟨(index, i), List.mem_zipIdx_iff_getElem?.mpr h, rfl⟩)

/-! ## Columns and types -/

theorem covers (ht : t.Sound) (hl : l ∈ all t) : t.Covers l.columns := by
  rcases mem_all hl with rfl | ⟨i, index, hi, rfl⟩
  · have hnodup := ht.nodup
    rw [Table.columnNames_eq] at hnodup
    exact ⟨(List.nodup_append.mp hnodup).1, fun _ => Table.mem_columnNames_of_mem_keyNames,
      fun _ h => h⟩
  · exact ht.covers index (List.mem_of_getElem? hi)

theorem columnType?_of_mem (hnodup : t.columnNames.Nodup) {column : Column}
    (h : column ∈ t.columns) : t.columnType? column.name = some column.type := by
  unfold Table.columnType?
  unfold Table.columnNames at hnodup
  generalize t.columns = columns at h hnodup
  induction columns with
  | nil => contradiction
  | cons first rest ih =>
    obtain ⟨hnew, hnodup⟩ := List.nodup_cons.mp hnodup
    rcases List.mem_cons.mp h with rfl | h
    · simp
    · have hne : (first.name == column.name) = false := by
        rw [beq_eq_false_iff_ne]
        intro heq
        exact hnew (List.mem_map.mpr ⟨column, h, heq.symm⟩)
      rw [List.find?_cons_of_neg (by simp [hne])]
      exact ih h hnodup

theorem types_eq (ht : t.Sound) (hl : l ∈ all t) : l.types = l.columns.filterMap t.columnType? := by
  rcases mem_all hl with rfl | ⟨i, index, hi, rfl⟩
  · have htypes : ∀ columns : List Column, (∀ column ∈ columns, column ∈ t.columns) →
        columns.map (·.type) = (columns.map (·.name)).filterMap t.columnType? := by
      intro columns hcolumns
      induction columns with
      | nil => rfl
      | cons column columns ih =>
        rw [List.map_cons, List.map_cons, List.filterMap_cons,
          columnType?_of_mem ht.nodup (hcolumns column (List.mem_cons_self ..)),
          ih fun other hother => hcolumns other (List.mem_cons_of_mem _ hother)]
    exact htypes t.primaryKey fun column => List.mem_of_mem_take
  · rfl

/-- A layout has one declared type for each of its columns. -/
theorem declares (ht : t.Sound) (hl : l ∈ all t) : t.Declares l.columns l.types := by
  rw [Table.Declares, types_eq ht hl]
  have hknown := (covers ht hl).known
  generalize l.columns = columns at hknown
  induction columns with
  | nil => rfl
  | cons name columns ih =>
    obtain ⟨column, hcolumn, rfl⟩ := List.mem_map.mp (hknown name (List.mem_cons_self ..))
    rw [List.map_cons, List.filterMap_cons, columnType?_of_mem ht.nodup hcolumn, List.map_cons,
      ih fun other hother => hknown other (List.mem_cons_of_mem _ hother)]

theorem length_types (ht : t.Sound) (hl : l ∈ all t) : l.types.length = l.columns.length := by
  have hlength := congrArg List.length (declares ht hl)
  rw [List.length_map, List.length_map] at hlength
  exact hlength.symm

/-! ## Key spaces -/

/-- The layouts have the key spaces from the table's own on, in order. -/
theorem toNat_keySpace (ht : t.Sound) {i : Nat} (hi : (all t)[i]? = some l) :
    l.keySpace.toNat = t.keySpace.toNat + i ∧ i ≤ t.indexes.length := by
  cases i with
  | zero =>
    obtain rfl := Option.some.inj hi
    exact ⟨rfl, Nat.zero_le _⟩
  | succ i =>
    rw [all, List.getElem?_cons_succ, List.getElem?_map, List.getElem?_zipIdx] at hi
    obtain ⟨⟨index, j⟩, hj, rfl⟩ := Option.map_eq_some_iff.mp hi
    obtain ⟨found, hfound, hpair⟩ := Option.map_eq_some_iff.mp hj
    obtain ⟨rfl, rfl⟩ := Prod.mk.inj hpair
    have hspace := ht.keySpace_eq i found hfound
    have hlt := (List.getElem?_eq_some_iff.mp hfound).1
    simp only [secondary]
    omega

/-- The key space of a layout is in the range of the table. -/
theorem keySpace_le (ht : t.Sound) (hl : l ∈ all t) :
    t.keySpace.toNat ≤ l.keySpace.toNat ∧ l.keySpace.toNat ≤ t.lastKeySpace.toNat := by
  obtain ⟨i, hi⟩ := List.getElem?_of_mem hl
  obtain ⟨hspace, hle⟩ := toNat_keySpace ht hi
  rw [ht.toNat_lastKeySpace]
  omega

/-- No two layouts of a table share a key space. -/
theorem pairwise_keySpace_ne (ht : t.Sound) :
    (all t).Pairwise fun l l' => l.keySpace ≠ l'.keySpace := by
  refine List.pairwise_iff_getElem.mpr fun i j hi hj hij heq => ?_
  have hspace := (toNat_keySpace ht (List.getElem?_eq_getElem hi)).1
  have hspace' := (toNat_keySpace ht (List.getElem?_eq_getElem hj)).1
  rw [heq] at hspace
  omega

theorem eq_of_keySpace_eq (ht : t.Sound) {l' : KeyLayout} (hl : l ∈ all t) (hl' : l' ∈ all t)
    (h : l.keySpace = l'.keySpace) : l = l' := by
  obtain ⟨i, hi⟩ := List.getElem?_of_mem hl
  obtain ⟨j, hj⟩ := List.getElem?_of_mem hl'
  have hspace := (toNat_keySpace ht hi).1
  have hspace' := (toNat_keySpace ht hj).1
  have hij : i = j := by
    rw [h] at hspace
    omega
  subst hij
  exact Option.some.inj (hi.symm.trans hj)

/-! ## Entries of rows -/

def key (l : KeyLayout) (r : Record) : Bytes := Tuple.encodeKey l.keySpace (r.tuple l.columns)

/-- Two rows have values of the same types in the columns of a layout. -/
theorem agree_tuple (ht : t.Sound) (hl : l ∈ all t) {r r' : Record} (hr : r.Fits t.columns)
    (hr' : r'.Fits t.columns) : Tuple.Agree (r.tuple l.columns) (r'.tuple l.columns) := by
  have hknown := (covers ht hl).known
  have htypes : (r.tuple l.columns).map Value.type = (r'.tuple l.columns).map Value.type :=
    (hr.map_type_tuple_of_known hknown).trans (hr'.map_type_tuple_of_known hknown).symm
  exact Tuple.agree_of_types (htypes ▸ List.prefix_refl _)

/-- The keys of two rows in a layout are ordered as their tuples are. -/
theorem compare_key (ht : t.Sound) (hl : l ∈ all t) {r r' : Record} (hr : r.Fits t.columns)
    (hr' : r'.Fits t.columns) :
    compare (l.key r) (l.key r') = compare (r.tuple l.columns) (r'.tuple l.columns) := by
  rw [key, key, Tuple.compare_encodeKey _ _ (agree_tuple ht hl hr hr'), Std.ReflOrd.compare_self,
    Ordering.eq_then]

/-- The keys of two rows in a layout are equal just if the rows agree on all its columns. -/
theorem key_eq_iff (ht : t.Sound) (hl : l ∈ all t) {r r' : Record} (hr : r.Fits t.columns)
    (hr' : r'.Fits t.columns) :
    l.key r = l.key r' ↔ ∀ name ∈ l.columns, r.find? name = r'.find? name := by
  have hknown := (covers ht hl).known
  constructor
  · intro h
    have htuple := (Tuple.encodeKey_injective (agree_tuple ht hl hr hr') h).2
    exact (hr.has.sublist hknown).find?_eq (hr'.has.sublist hknown) htuple
  · intro h
    exact congrArg (Tuple.encodeKey l.keySpace) (Record.tuple_congr h)

/-- So they are equal only if the rows have the same primary key. -/
theorem key_inj (ht : t.Sound) (hl : l ∈ all t) {r r' : Record} (hr : r.Fits t.columns)
    (hr' : r'.Fits t.columns) (h : l.key r = l.key r') :
    (primary t).key r = (primary t).key r' := by
  have hagree := (key_eq_iff ht hl hr hr').mp h
  exact (key_eq_iff ht (primary_mem t) hr hr').mpr fun name hname =>
    hagree name ((covers ht hl).key name hname)

def entry (t : Table) (r : Record) (l : KeyLayout) : Cell :=
  ⟨l.key r,
    match l.choice with
    | .primary => Tuple.encode (r.tuple t.otherNames)
    | .secondary _ => []⟩

/-- A row has one entry in each layout of its table. -/
theorem entries_eq (ht : t.Sound) {r : Record} (hfits : r.Fits t.columns) :
    Row.primaryEntry t (r.tuple t.columnNames) :: Row.indexEntries t (r.tuple t.columnNames) =
      (all t).map (entry t r) := by
  rw [Row.primaryEntry_tuple hfits, all, List.map_cons]
  refine congrArg (List.cons _) ?_
  rw [List.map_map, Row.indexEntries]
  have hindex : ∀ (indexes : List Index) (i : Nat), (∀ index ∈ indexes, index ∈ t.indexes) →
      (indexes.map fun index => (⟨Row.indexKey t index (r.tuple t.columnNames), []⟩ : Cell)) =
        (indexes.zipIdx i).map (entry t r ∘ fun p => secondary t p.2 p.1) := by
    intro indexes
    induction indexes with
    | nil => exact fun _ _ => rfl
    | cons index indexes ih =>
      intro i hmem
      have hknown := (ht.covers index (hmem index (List.mem_cons_self ..))).known
      rw [List.map_cons, List.zipIdx_cons, List.map_cons,
        ih (i + 1) fun other hother => hmem other (List.mem_cons_of_mem _ hother), Row.indexKey,
        Row.indexValues_tuple hfits hknown]
      rfl
  exact hindex t.indexes 0 fun _ h => h

/-! ## Choosing a layout -/

theorem named?_mem {name : String} (h : named? t name = some l) : l ∈ all t := by
  obtain ⟨i, -, hat⟩ := Option.bind_eq_some_iff.mp h
  obtain ⟨index, hindex, rfl⟩ := Option.map_eq_some_iff.mp hat
  exact secondary_mem hindex

theorem leadsWith_iff {columns : List String} :
    l.leadsWith columns = true ↔ columns <+: l.columns :=
  List.isPrefixOf_iff_prefix

theorem covering_eq_ok_iff {columns : List String} :
    covering t columns = .ok l ↔ (all t).find? (·.leadsWith columns) = some l := by
  rw [covering]
  cases (all t).find? (·.leadsWith columns) with
  | none => simp
  | some found => simp

theorem covering_mem {columns : List String} (h : covering t columns = .ok l) : l ∈ all t :=
  List.mem_of_find?_eq_some (covering_eq_ok_iff.mp h)

theorem checkTypes_eq_ok_iff {columns : List String} {values : List Value} {types : List ColumnType}
    (hcolumns : columns.length = values.length) (hvalues : values.length ≤ types.length) :
    checkTypes columns values types = .ok () ↔ values.map Value.type <+: types := by
  induction columns generalizing values types with
  | nil =>
    rw [List.eq_nil_of_length_eq_zero hcolumns.symm]
    exact iff_of_true rfl List.nil_prefix
  | cons column columns ih =>
    cases values with
    | nil => contradiction
    | cons value values =>
      cases types with
      | nil => contradiction
      | cons type types =>
        rw [checkTypes, List.map_cons, List.cons_prefix_cons]
        by_cases htype : value.type = type
        · rw [if_pos htype, ih (Nat.succ.inj hcolumns) (Nat.le_of_succ_le_succ hvalues)]
          exact (and_iff_right htype).symm
        · rw [if_neg htype]
          exact iff_of_false (fun h => by contradiction) fun h => htype h.1

/-- The bound has values of the right types for the first columns of the layout, and for these
only. -/
structure Admits (l : KeyLayout) (bound : Record) : Prop where
  columns : bound.columns <+: l.columns
  length_eq : bound.columns.length = bound.values.length
  types : bound.values.map Value.type <+: l.types

theorem checkBound_eq_ok_iff {bound : Record} (hlen : l.types.length = l.columns.length) :
    l.checkBound t bound = .ok () ↔ l.Admits bound := by
  rw [checkBound]
  by_cases h : l.leadsWith bound.columns ∧ bound.columns.length = bound.values.length
  · have hcolumns := leadsWith_iff.mp h.1
    have hle := hcolumns.length_le
    rw [if_pos h, checkTypes_eq_ok_iff h.2 (by omega)]
    exact ⟨fun htypes => ⟨hcolumns, h.2, htypes⟩, fun hadmits => hadmits.types⟩
  · rw [if_neg h]
    exact iff_of_false (fun herror => by contradiction) fun hadmits =>
      h ⟨leadsWith_iff.mpr hadmits.columns, hadmits.length_eq⟩

/-- What is resolved has the name that was asked for, or covers the start bound; and it passes the
checks of both bounds. -/
theorem resolve_steps {index : Option String} {start stop : Record}
    (h : resolve t index start stop = .ok l) :
    (match index with
      | some name => named? t name = some l
      | none => covering t start.columns = .ok l) ∧
    l.checkBound t start = .ok () ∧ l.checkBound t stop = .ok () := by
  have hchecked : ∀ {layout : KeyLayout},
      (do layout.checkBound t start; layout.checkBound t stop; Except.ok layout) = .ok l →
      layout = l ∧ l.checkBound t start = .ok () ∧ l.checkBound t stop = .ok () := by
    intro layout hok
    obtain ⟨⟨⟩, hstart, hok⟩ := exists_of_bind_eq_ok hok
    obtain ⟨⟨⟩, hstop, hok⟩ := exists_of_bind_eq_ok hok
    obtain rfl := Except.ok.inj hok
    exact ⟨rfl, hstart, hstop⟩
  unfold resolve at h
  cases index with
  | none =>
    obtain ⟨layout, hlayout, hrest⟩ := exists_of_bind_eq_ok h
    obtain ⟨rfl, hbounds⟩ := hchecked hrest
    exact ⟨hlayout, hbounds⟩
  | some name =>
    dsimp only at h
    split at h
    · next layout hlayout =>
      obtain ⟨rfl, hbounds⟩ := hchecked h
      exact ⟨hlayout, hbounds⟩
    · contradiction

theorem resolve_eq_ok (ht : t.Sound) {index : Option String} {start stop : Record}
    (h : resolve t index start stop = .ok l) : l ∈ all t ∧ l.Admits start ∧ l.Admits stop := by
  obtain ⟨hchosen, hstart, hstop⟩ := resolve_steps h
  have hmem : l ∈ all t := by
    cases index with
    | none => exact covering_mem hchosen
    | some name => exact named?_mem hchosen
  have hlen := length_types ht hmem
  exact ⟨hmem, (checkBound_eq_ok_iff hlen).mp hstart, (checkBound_eq_ok_iff hlen).mp hstop⟩

end KeyLayout

end RangeStore
