import Mathlib.Data.List.Perm.Basic
import RangeStore.Proofs.Schema.Draft
import RangeStore.Proofs.Tuple.RoundTrip
import RangeStore.Schema.Catalog
set_option autoImplicit false

/-! # Tables in the catalog

The entry of a table is read back as the table (`Catalog.readTable_entry`). Each reader takes what
the writer of the same thing has written and leaves what stands behind it, so the readers are
followed one after the other. What is read is a draft, whose indexes already list the columns of the
primary key; it is made into the table that was written. -/

namespace RangeStore

namespace Catalog

open RangeStore.Tuple

/-! ## Numbers and names -/

/-- A number of things that can be written. -/
def countLimit : Nat := 0x8000000000000000

variable {n : Nat} (rest : Bytes)

theorem readInt_count (h : n < countLimit) :
    readInt (encodeValue (count n) ++ rest) = .ok (n, rest) := by
  have hnumber : (Int64.ofNat n).toInt = n := Int64.toInt_ofNat_of_lt h
  have hread : decodeInt (encodeValue (count n) ++ rest) = .ok (Int64.ofNat n, rest) :=
    decodeInt_big _ rest
  rw [readInt, hread, ← hnumber]

theorem readCount_count (h : n < countLimit) :
    readCount (encodeValue (count n) ++ rest) = .ok (n, rest) := by
  have hpos : ¬ (n : Int) < 0 := Int.not_lt.mpr (Int.natCast_nonneg n)
  simp only [readCount, readInt_count rest h, bind, Except.bind, if_neg hpos, Int.toNat_natCast]

theorem readName_ofText (name : String) :
    readName (encodeValue (.ofText name) ++ rest) = .ok (name, rest) := by
  have hread : decodeBytes (encodeValue (.ofText name) ++ rest) = .ok (Text.utf8 name, rest) := by
    rw [Value.ofText, encodeValue, List.append_assoc]
    exact decodeBytes_flatMap_escape _ rest
  simp only [readName, hread, Text.text?_utf8]

/-- Things that are read one by one are read all. -/
theorem readMany_flatMap {α β : Type} {read : Bytes → Except CatalogError (α × Bytes)}
    {write : β → Bytes} {f : β → α} (things : List β)
    (h : ∀ b ∈ things, ∀ rest, read (write b ++ rest) = .ok (f b, rest)) :
    readMany read things.length (things.flatMap write ++ rest) = .ok (things.map f, rest) := by
  induction things with
  | nil => rfl
  | cons b things ih =>
    have hothers := ih fun c hc => h c (List.mem_cons_of_mem _ hc)
    rw [List.flatMap_cons, List.append_assoc, List.length_cons, readMany,
      h b (List.mem_cons_self ..)]
    simp only [bind, Except.bind, hothers, List.map_cons]

/-! ## Columns and indexes -/

theorem readColumn_columnValues (c : Column) :
    readColumn (encode (columnValues c) ++ rest) = .ok (c, rest) := by
  have htag : c.type.tag.toNat < countLimit := Nat.lt_of_lt_of_le c.type.tag.toNat_lt (by decide)
  have hname := readName_ofText (encodeValue (count c.type.tag.toNat) ++ rest) c.name
  simp only [columnValues, encode_cons, encode_nil, List.append_nil, List.append_assoc, readColumn,
    hname, readInt_count rest htag, bind, Except.bind, Int.toNat_natCast, ColumnType.ofTag?_tag]

/-- What an index is read back as. -/
def redraftIndex (i : Index) : IndexDraft := ⟨i.name, i.columns⟩

theorem readIndex_indexValues {i : Index} (h : i.columns.length < countLimit) :
    readIndex (encode (indexValues i) ++ rest) = .ok (redraftIndex i, rest) := by
  have hcolumns : readMany readName i.columns.length (encode (i.columns.map .ofText) ++ rest) =
      .ok (i.columns, rest) := by
    rw [encode, List.flatMap_map]
    have hall := readMany_flatMap (f := id) rest i.columns
      fun name _ rest => readName_ofText rest name
    rwa [List.map_id] at hall
  have hcount := readCount_count (encode (i.columns.map .ofText) ++ rest) h
  have hname := readName_ofText
    (encodeValue (count i.columns.length) ++ (encode (i.columns.map .ofText) ++ rest)) i.name
  simp only [indexValues, encode_cons, List.append_assoc, readIndex, hname, hcount, hcolumns, bind,
    Except.bind, redraftIndex]

/-! ## Tables -/

/-- The numbers of things in a table can be written. -/
structure Countable (t : Table) : Prop where
  keyCount_lt : t.keyCount < countLimit
  columns_lt : t.columns.length < countLimit
  indexes_lt : t.indexes.length < countLimit
  indexColumns_lt : ∀ i ∈ t.indexes, i.columns.length < countLimit

theorem length_le_flatMap {α β : Type} {f : α → List β} {l : List α} (h : ∀ a ∈ l, f a ≠ []) :
    l.length ≤ (l.flatMap f).length := by
  induction l with
  | nil => exact Nat.le_refl _
  | cons a l ih =>
    have hfirst := List.length_pos_iff.mpr (h a (List.mem_cons_self ..))
    have hrest := ih fun b hb => h b (List.mem_cons_of_mem _ hb)
    rw [List.flatMap_cons, List.length_append, List.length_cons]
    omega

theorem length_le_encode (values : List Value) : values.length ≤ (encode values).length :=
  length_le_flatMap fun v _ => encodeValue_ne_nil v

/-- Each column takes at least one byte, so a table whose entry is not too long has not too many. -/
theorem length_columns_le (t : Table) : t.columns.length ≤ (entry t).value.length := by
  have hvalues : (tableValues t).length ≤ (entry t).value.length := length_le_encode _
  have hcolumns : t.columns.length ≤ (t.columns.flatMap columnValues).length :=
    length_le_flatMap fun _ _ => List.cons_ne_nil _ _
  simp only [tableValues, List.length_append] at hvalues
  omega

/-- There are no more indexes than key spaces. -/
theorem length_indexes_lt {t : Table} (h : t.Sound) : t.indexes.length < countLimit := by
  cases hlast : t.indexes.getLast? with
  | none =>
    rw [List.getLast?_eq_none_iff.mp hlast]
    decide
  | some index =>
    rw [List.getLast?_eq_getElem?] at hlast
    have hspace := h.keySpace_eq _ index hlast
    have hlt := index.keySpace.toNat_lt
    unfold countLimit
    omega

/-- An index has no more columns than its table. -/
theorem length_indexColumns_le {t : Table} (h : t.Sound) {i : Index} (hi : i ∈ t.indexes) :
    i.columns.length ≤ t.columns.length := by
  have hcovers := h.covers i hi
  have hle := (List.subperm_of_subset hcovers.nodup hcovers.known).length_le
  rwa [Table.columnNames, List.length_map] at hle

/-- The numbers of things in a sound table can be written if the number of its columns can. -/
theorem countable_of_sound {t : Table} (h : t.Sound) (hcolumns : t.columns.length < countLimit) :
    Countable t where
  keyCount_lt := Nat.lt_of_le_of_lt h.keyCount_le hcolumns
  columns_lt := hcolumns
  indexes_lt := length_indexes_lt h
  indexColumns_lt := fun _ hi => Nat.lt_of_le_of_lt (length_indexColumns_le h hi) hcolumns

/-- What a table is read back as. -/
def redraft (t : Table) : Draft :=
  ⟨t.name, t.columns, t.keyCount, t.keySpace, t.indexes.map redraftIndex⟩

theorem encode_flatMap {α : Type} (things : List α) (values : α → List Value) :
    encode (things.flatMap values) = things.flatMap fun a => encode (values a) :=
  List.flatMap_assoc ..

theorem readDraft_tableValues {t : Table} (h : Countable t) :
    readDraft t.name (encode (tableValues t)) = .ok (redraft t, []) := by
  have hspace : t.keySpace.toNat < countLimit :=
    Nat.lt_of_lt_of_le t.keySpace.toNat_lt (by decide)
  have hrange : ¬ ((t.keySpace.toNat : Int) < 0 ∨ UInt32.size ≤ t.keySpace.toNat) := by
    have hlt := t.keySpace.toNat_lt_size
    omega
  -- nothing stands behind the indexes, and the indexes stand behind the columns
  have hindexes := readMany_flatMap (f := redraftIndex) [] t.indexes fun i hi rest =>
    readIndex_indexValues rest (h.indexColumns_lt i hi)
  rw [List.append_nil] at hindexes
  have hcolumns := readMany_flatMap (f := id) (encodeValue (count t.indexes.length) ++
    t.indexes.flatMap fun i => encode (indexValues i)) t.columns fun c _ rest =>
      readColumn_columnValues rest c
  rw [List.map_id] at hcolumns
  simp only [tableValues, List.cons_append, List.nil_append, List.append_assoc, encode_cons,
    encode_append, encode_flatMap, readDraft, readInt_count _ hspace,
    readCount_count _ h.keyCount_lt, readCount_count _ h.columns_lt, readCount_count _ h.indexes_lt,
    hcolumns, hindexes, bind, Except.bind, if_neg hrange, Int.toNat_natCast, UInt32.ofNat_toNat,
    redraft]

/-- The indexes of a table are numbered again from what is read back. -/
theorem numbered_redraftIndex (primaryKey : List String) (next : Nat) (drafts : List IndexDraft) :
    Draft.numbered primaryKey next ((Draft.numbered primaryKey next drafts).map redraftIndex) =
      Draft.numbered primaryKey next drafts := by
  induction drafts generalizing next with
  | nil => rfl
  | cons draft rest ih =>
    rw [Draft.numbered_cons, List.map_cons, Draft.numbered_cons, redraftIndex,
      Draft.completed_completed, ih]

/-- What is read back of a table that was made from a draft is a sound draft again. -/
theorem sound_redraft {d : Draft} {t : Table} (h : d.build = .ok t) : (redraft t).Sound := by
  have ht := Draft.sound_of_build h
  have hnames := Draft.nodup_indexNames_of_build h
  obtain ⟨hd, rfl⟩ := Draft.build_eq_ok_iff.mp h
  refine { hd with
    indexes := fun index hmem => ?_
    indexNames_nodup := ?_
    last_lt := ?_ }
  · obtain ⟨made, hmade, rfl⟩ := List.mem_map.mp hmem
    obtain ⟨hnodup, hknown, hkey⟩ := ht.covers made hmade
    obtain ⟨i, hi⟩ := List.getElem?_of_mem hmade
    obtain ⟨asked, hasked, rfl⟩ := Option.map_eq_some_iff.mp
      ((Draft.getElem?_numbered ..).symm.trans hi)
    have hdraft := hd.indexes asked (List.mem_of_getElem? hasked)
    exact ⟨hdraft.name_ne, fun hnil => hdraft.columns_ne (List.append_eq_nil_iff.mp hnil).1, hknown,
      hnodup⟩
  · rw [Draft.indexNames, redraft, List.map_map]
    exact hnames
  · have hlast := hd.last_lt
    have hlength : (redraft d.table).indexes.length = d.indexes.length := by
      rw [redraft, List.length_map, Draft.table, Draft.length_numbered]
    rwa [hlength]

/-- The table that was made from a draft is made again from what is read back. -/
theorem build_redraft {d : Draft} {t : Table} (h : d.build = .ok t) :
    (redraft t).build = .ok t := by
  refine Draft.build_eq_ok_iff.mpr ⟨sound_redraft h, ?_⟩
  obtain ⟨-, rfl⟩ := Draft.build_eq_ok_iff.mp h
  have hindexes := numbered_redraftIndex (d.columnNames.take d.keyCount) (d.keySpace.toNat + 1)
    d.indexes
  exact congrArg (Table.mk d.name d.columns d.keyCount d.keySpace) hindexes.symm

/-- An entry of the catalog is read back as its table. -/
theorem readTable_entry {d : Draft} {t : Table} (hbuild : d.build = .ok t) (h : Countable t) :
    readTable (entry t) = .ok t := by
  have hname := readName_ofText [] t.name
  rw [List.append_nil] at hname
  simp only [readTable, entry, splitKey_encodeKey, ne_eq, not_true_eq_false, if_false, encode_cons,
    encode_nil, List.append_nil, hname, readDraft_tableValues h, build_redraft hbuild, bind,
    Except.bind]

end Catalog

end RangeStore
