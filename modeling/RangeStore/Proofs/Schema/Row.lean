import RangeStore.Proofs.Schema.Sound
import RangeStore.Proofs.Tuple.Record
import RangeStore.Proofs.Tuple.RoundTrip
import RangeStore.Schema.Row
set_option autoImplicit false

/-! # Entries of rows

A record that is a row of a table has a value of the right type in each column (`Record.Fits`). Its
entries are made of the tuples that it gives, whatever the order of its columns, and from them the
row is read back in the table's order (`Row.ofEntry_eq`), and the primary key from the key of an
index (`Row.keyOfIndexKey_eq`). -/

namespace RangeStore

/-- The record has a value of the right type in each of the columns. -/
def Record.Fits (r : Record) (columns : List Column) : Prop :=
  ∀ column ∈ columns, ∃ value, r.find? column.name = some (some value) ∧ value.type = column.type

namespace Record.Fits

variable {r : Record} {columns : List Column}

theorem has (h : r.Fits columns) : r.Has (columns.map (·.name)) := by
  intro name hname
  obtain ⟨column, hcolumn, rfl⟩ := List.mem_map.mp hname
  obtain ⟨value, hvalue, -⟩ := h column hcolumn
  exact ⟨value, hvalue⟩

theorem sublist {others : List Column} (h : r.Fits columns)
    (hsub : ∀ column ∈ others, column ∈ columns) : r.Fits others :=
  fun column hcolumn => h column (hsub column hcolumn)

theorem map_type_tuple (h : r.Fits columns) :
    (r.tuple (columns.map (·.name))).map Value.type = columns.map (·.type) := by
  induction columns with
  | nil => rfl
  | cons column columns ih =>
    obtain ⟨value, hvalue, htype⟩ := h column (List.mem_cons_self ..)
    rw [List.map_cons, tuple_cons hvalue, List.map_cons, List.map_cons, htype,
      ih (h.sublist fun other hother => List.mem_cons_of_mem _ hother)]

/-- The types that a table declares for some of its columns are those of the values in them. -/
theorem map_type_tuple_of_known {t : Table} (h : r.Fits t.columns) {names : List String}
    (hknown : ∀ name ∈ names, name ∈ t.columnNames) :
    (r.tuple names).map Value.type = names.filterMap t.columnType? := by
  induction names with
  | nil => rfl
  | cons name names ih =>
    obtain ⟨column, hcolumn⟩ : ∃ column, t.columns.find? (·.name == name) = some column := by
      obtain ⟨column, hmem, hname⟩ := List.mem_map.mp (hknown name (List.mem_cons_self ..))
      exact Option.isSome_iff_exists.mp (List.find?_isSome.mpr ⟨column, hmem, beq_iff_eq.mpr hname⟩)
    have hname : column.name = name := by simpa using List.find?_some hcolumn
    obtain ⟨value, hvalue, htype⟩ := h column (List.mem_of_find?_eq_some hcolumn)
    have hdeclared : t.columnType? name = some column.type := by
      rw [Table.columnType?, hcolumn]
      rfl
    rw [hname] at hvalue
    rw [tuple_cons hvalue, List.map_cons, htype, List.filterMap_cons, hdeclared,
      ih fun other hother => hknown other (List.mem_cons_of_mem _ hother)]

/-- A row with its columns in the table's order gives what the record gives. -/
theorem tuple_restrict {t : Table} (h : r.Fits t.columns) {names : List String}
    (hknown : ∀ name ∈ names, name ∈ t.columnNames) :
    (r.restrict t.columnNames).tuple names = r.tuple names := h.has.tuple_restrict hknown

end Record.Fits

namespace Row

variable {t : Table} {r : Record}

/-! ## Projecting -/

theorem columnValues_eq_ok {columns : List Column} {values : List Value}
    (h : columnValues r columns = .ok values) :
    r.Fits columns ∧ values = r.tuple (columns.map (·.name)) := by
  induction columns generalizing values with
  | nil => exact ⟨fun column hcolumn => absurd hcolumn List.not_mem_nil, (Except.ok.inj h).symm⟩
  | cons column columns ih =>
    unfold columnValues at h
    split at h
    · contradiction
    · next value hvalue =>
      split at h
      · contradiction
      · next others hothers =>
        obtain ⟨hfits, rfl⟩ := ih hothers
        have hfirst : r.find? column.name = some (some value) ∧ value.type = column.type := by
          unfold columnValue at hvalue
          split at hvalue
          · contradiction
          · contradiction
          · next found hfound =>
            split at hvalue
            · next htype =>
              obtain rfl := Except.ok.inj hvalue
              exact ⟨hfound, htype⟩
            · contradiction
        refine ⟨fun other hother => ?_, ?_⟩
        · rcases List.mem_cons.mp hother with rfl | hother
          · exact ⟨value, hfirst⟩
          · exact hfits other hother
        · rw [List.map_cons, Record.tuple_cons hfirst.1, Except.ok.inj h]

/-- A record that a table takes fits its columns, and what is taken are its values there. -/
theorem project_eq_ok {values : List Value} (h : project t r = .ok values) :
    r.Fits t.columns ∧ values = r.tuple t.columnNames := by
  unfold project at h
  split at h
  · contradiction
  · exact columnValues_eq_ok h

/-! ## Writing -/

theorem primaryEntry_tuple (hfits : r.Fits t.columns) :
    primaryEntry t (r.tuple t.columnNames) =
      ⟨Tuple.encodeKey t.keySpace (r.tuple t.keyNames), Tuple.encode (r.tuple t.otherNames)⟩ := by
  have hsplit : (r.tuple t.columnNames).take t.keyCount = r.tuple t.keyNames ∧
      (r.tuple t.columnNames).drop t.keyCount = r.tuple t.otherNames := by
    rw [Table.keyNames_eq, Table.otherNames_eq]
    exact hfits.has.take_drop_tuple t.keyCount
  rw [primaryEntry, hsplit.1, hsplit.2]

/-- The values of a row in the columns of an index are those of the record. -/
theorem indexValues_tuple (hfits : r.Fits t.columns) {index : Index}
    (hknown : ∀ name ∈ index.columns, name ∈ t.columnNames) :
    indexValues t index (r.tuple t.columnNames) = r.tuple index.columns := by
  have hvalue : ∀ name ∈ t.columnNames,
      ((t.columnIndex? name).bind fun i => (r.tuple t.columnNames)[i]?) = (r.find? name).join := by
    intro name hname
    obtain ⟨i, hi⟩ := Record.findIdx?_of_mem hname
    have hget := hfits.has.getElem?_tuple_findIdx? hi
    rw [Table.columnNames, List.findIdx?_map] at hi
    rw [Table.columnIndex?, show t.columns.findIdx? (·.name == name) = some i from hi]
    exact hget
  unfold indexValues
  generalize index.columns = names at hknown ⊢
  induction names with
  | nil => rfl
  | cons name names ih =>
    rw [List.filterMap_cons, hvalue name (hknown name (List.mem_cons_self ..)),
      ih fun other hother => hknown other (List.mem_cons_of_mem _ hother)]
    rfl

/-! ## Reading -/

/-- From its primary entry a row is read back with the columns in the table's order. -/
theorem ofEntry_eq (hfits : r.Fits t.columns) (space : UInt32) :
    ofEntry t ⟨Tuple.encodeKey space (r.tuple t.keyNames), Tuple.encode (r.tuple t.otherNames)⟩ =
      .ok (r.restrict t.columnNames) := by
  have hkeyFits : r.Fits t.primaryKey := hfits.sublist fun column => List.mem_of_mem_take
  have hotherFits : r.Fits t.otherColumns := hfits.sublist fun column => List.mem_of_mem_drop
  have hkeys : Tuple.decode (t.primaryKey.map (·.type)) (Tuple.encode (r.tuple t.keyNames)) =
      .ok (r.tuple t.keyNames) := by
    rw [← hkeyFits.map_type_tuple]
    exact Tuple.decode_encode _
  have hothers : Tuple.decode (t.otherColumns.map (·.type)) (Tuple.encode (r.tuple t.otherNames)) =
      .ok (r.tuple t.otherNames) := by
    rw [← hotherFits.map_type_tuple]
    exact Tuple.decode_encode _
  simp only [ofEntry, Tuple.splitKey_encodeKey, hkeys, hothers]
  rw [← Record.tuple_append, ← Table.columnNames_eq]
  exact congrArg Except.ok (Record.ofPairs_zip hfits.has.length_tuple.symm)

/-- From the columns and values of a record those are picked that it gives. -/
theorem pick_eq {names : List String} (h : r.Has names) :
    pick r.columns r.values names = .ok (names.zip (r.tuple names)) := by
  induction names with
  | nil => rfl
  | cons name names ih =>
    obtain ⟨value, hvalue⟩ := h name (List.mem_cons_self ..)
    have hother := ih h.tail
    rw [Record.tuple_cons hvalue, List.zip_cons_cons, pick]
    cases hi : r.columns.findIdx? (· == name) with
    | none =>
      rw [Record.find?, hi] at hvalue
      contradiction
    | some i =>
      rw [Record.find?, hi] at hvalue
      simp only [Option.some.inj hvalue, hother]

theorem pick_tuple {columns names : List String} (h : r.Has columns)
    (hsub : ∀ name ∈ names, name ∈ columns) :
    pick columns (r.tuple columns) names = .ok (names.zip (r.tuple names)) := by
  have hpick : pick columns (r.tuple columns) names =
      .ok (names.zip ((r.restrict columns).tuple names)) := pick_eq (h.restrict.sublist hsub)
  rwa [h.tuple_restrict hsub] at hpick

/-- From the key of an index that covers the primary key, the primary key is read. -/
theorem keyOfIndexKey_eq (hfits : r.Fits t.columns) {columns : List String}
    (hcovers : t.Covers columns) (space : UInt32) :
    keyOfIndexKey t columns (columns.filterMap t.columnType?)
      (Tuple.encodeKey space (r.tuple columns)) = .ok (r.restrict t.keyNames) := by
  have hcolumns : r.Has columns := hfits.has.sublist hcovers.known
  have hvalues := Tuple.decode_encode (r.tuple columns)
  rw [hfits.map_type_tuple_of_known hcovers.known] at hvalues
  have hpick := pick_tuple hcolumns hcovers.key
  rw [Table.keyNames] at hpick
  simp only [keyOfIndexKey, Tuple.splitKey_encodeKey, hvalues, hpick]
  exact congrArg Except.ok (Record.ofPairs_zip (hcolumns.sublist hcovers.key).length_tuple.symm)

end Row

end RangeStore
