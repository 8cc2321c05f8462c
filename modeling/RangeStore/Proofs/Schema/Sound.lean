import RangeStore.Schema.Draft
set_option autoImplicit false

/-! # Sound tables

What is relied on wherever a table is used (`Table.Sound`): the names of its columns are different,
each index lists known columns, none twice, and all of the primary key, and the key spaces follow
each other from the table's own on. -/

namespace RangeStore

theorem exists_of_bind_eq_ok {ε α β : Type} {x : Except ε α} {f : α → Except ε β} {b : β}
    (h : (x >>= f) = .ok b) : ∃ a, x = .ok a ∧ f a = .ok b := by
  cases x with
  | error e => contradiction
  | ok a => exact ⟨a, rfl, h⟩

theorem error_of_bind_eq_error {ε α β : Type} {x : Except ε α} {f : α → Except ε β} {e : ε}
    (h : (x >>= f) = .error e) : x = .error e ∨ ∃ a, x = .ok a ∧ f a = .error e := by
  cases x with
  | error e' =>
    obtain rfl : e' = e := Except.error.inj h
    exact Or.inl rfl
  | ok a => exact Or.inr ⟨a, rfl, h⟩

namespace Table

def columnNames (t : Table) : List String := t.columns.map (·.name)

def keyNames (t : Table) : List String := t.primaryKey.map (·.name)

def otherNames (t : Table) : List String := t.otherColumns.map (·.name)

/-- The columns of an index are some of the table's, none twice, and all of the primary key. -/
structure Covers (t : Table) (columns : List String) : Prop where
  nodup : columns.Nodup
  known : ∀ name ∈ columns, name ∈ t.columnNames
  key : ∀ name ∈ t.keyNames, name ∈ columns

/-- What a draft is checked for. -/
structure Sound (t : Table) : Prop where
  nodup : t.columnNames.Nodup
  keyCount_pos : 0 < t.keyCount
  keyCount_le : t.keyCount ≤ t.columns.length
  first_le : firstKeySpace ≤ t.keySpace
  covers : ∀ index ∈ t.indexes, t.Covers index.columns
  keySpace_eq : ∀ (i : Nat) (index : Index), t.indexes[i]? = some index →
    index.keySpace.toNat = t.keySpace.toNat + 1 + i

theorem keyNames_eq (t : Table) : t.keyNames = t.columnNames.take t.keyCount := by
  unfold keyNames primaryKey columnNames
  rw [List.map_take]

theorem otherNames_eq (t : Table) : t.otherNames = t.columnNames.drop t.keyCount := by
  unfold otherNames otherColumns columnNames
  rw [List.map_drop]

theorem columnNames_eq (t : Table) : t.columnNames = t.keyNames ++ t.otherNames := by
  rw [keyNames_eq, otherNames_eq, List.take_append_drop]

theorem mem_columnNames_of_mem_keyNames {t : Table} {name : String} (h : name ∈ t.keyNames) :
    name ∈ t.columnNames := by
  rw [columnNames_eq]
  exact List.mem_append_left _ h

/-- The last key space is that of the last index. -/
theorem Sound.toNat_lastKeySpace {t : Table} (ht : t.Sound) :
    t.lastKeySpace.toNat = t.keySpace.toNat + t.indexes.length := by
  unfold lastKeySpace
  split
  · next hnone =>
    rw [List.getLast?_eq_none_iff.mp hnone]
    rfl
  · next index hlast =>
    rw [List.getLast?_eq_getElem?] at hlast
    have hlt := (List.getElem?_eq_some_iff.mp hlast).1
    have hspace := ht.keySpace_eq _ index hlast
    omega

end Table

end RangeStore
