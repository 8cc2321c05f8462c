import RangeStore.Proofs.Scan.Misses
set_option autoImplicit false

/-! # What is read from entries

The readers of entries, said by what they accept. A row is read from an entry just if this is the
entry that the table writes for the row (`KeyLayout.Owns.holds_iff`), and a primary key from the key
of an index just if it is that of a tuple with these values in its columns
(`KeyLayout.Owns.leadsTo_iff`); for both the key has to lie in the key space of the layout, which
the readers do not look at. Where nothing is read the error is that of the first part that cannot be
decoded (`Row.ofEntry_eq_error_iff`, `KeyLayout.keyFault_iff`). -/

namespace RangeStore

/-! ## Rows -/

namespace Row

/-- The row has a value of its type in each column of the table, in their order, and the entry is
the one that the table writes for it. -/
structure Holds (t : Table) (entry : Cell) (row : Record) : Prop where
  columns : row.columns = t.columnNames
  types : row.values.map Value.type = t.columns.map (·.type)
  entry_eq : entry = primaryEntry t row.values

/-- What keeps an entry from being read as a row: its key, or behind a key that is read its
value. -/
inductive Garbled (t : Table) (entry : Cell) : DecodeError → Prop
  | key {e : DecodeError} (h : Tuple.KeyFault (t.primaryKey.map (·.type)) entry.key e) :
    Garbled t entry e
  | value {keys : List Value} {space : UInt32} {e : DecodeError}
    (htypes : keys.map Value.type = t.primaryKey.map (·.type))
    (hkey : entry.key = Tuple.encodeKey space keys)
    (h : Tuple.decode (t.otherColumns.map (·.type)) entry.value = .error e) : Garbled t entry e

variable {t : Table} {entry : Cell}

theorem map_type_columns (t : Table) :
    t.primaryKey.map (·.type) ++ t.otherColumns.map (·.type) = t.columns.map (·.type) := by
  rw [← List.map_append, Table.primaryKey, Table.otherColumns, List.take_append_drop]

/-- The values of a row are those of its key and behind them those of its value. -/
theorem ofEntry_eq_readKey (t : Table) (entry : Cell) :
    ofEntry t entry =
      match Tuple.readKey (t.primaryKey.map (·.type)) entry.key with
      | .error e => .error e
      | .ok keys =>
        match Tuple.decode (t.otherColumns.map (·.type)) entry.value with
        | .error e => .error e
        | .ok others => .ok ⟨t.columnNames, keys ++ others⟩ := by
  unfold ofEntry Tuple.readKey
  cases Tuple.splitKey entry.key with
  | error e => rfl
  | ok p =>
    dsimp only
    cases hkeys : Tuple.decode (t.primaryKey.map (·.type)) p.2 with
    | error e => rfl
    | ok keys =>
      dsimp only
      cases hothers : Tuple.decode (t.otherColumns.map (·.type)) entry.value with
      | error e => rfl
      | ok others =>
        have hlength : t.columnNames.length = (keys ++ others).length := by
          have htypes := map_type_columns t
          rw [← (Tuple.eq_of_decode hkeys).1, ← (Tuple.eq_of_decode hothers).1,
            ← List.map_append] at htypes
          rw [Table.columnNames, List.length_map, ← List.length_map Value.type, htypes,
            List.length_map]
        exact congrArg Except.ok (Record.ofPairs_zip hlength)

/-- A row is read from the entry that the table would write for it in some key space. -/
theorem ofEntry_eq_ok_iff (ht : t.Sound) {row : Record} :
    ofEntry t entry = .ok row ↔ ∃ space, Holds { t with keySpace := space } entry row := by
  have htypes := map_type_columns t
  have hkeyLength : (t.primaryKey.map (·.type)).length = t.keyCount := by
    rw [List.length_map, Table.primaryKey, List.length_take, Nat.min_eq_left ht.keyCount_le]
  rw [ofEntry_eq_readKey]
  constructor
  · intro h
    split at h
    · contradiction
    · next keys hkeys =>
      split at h
      · contradiction
      · next others hothers =>
        obtain rfl := Except.ok.inj h
        obtain ⟨hkeyTypes, space, hkey⟩ := Tuple.readKey_eq_ok_iff.mp hkeys
        obtain ⟨hotherTypes, hvalue⟩ := Tuple.eq_of_decode hothers
        rw [← hkeyTypes, List.length_map] at hkeyLength
        refine ⟨space, rfl, ?_, ?_⟩
        · rw [List.map_append, hkeyTypes, hotherTypes, htypes]
        · rw [primaryEntry, List.take_left' hkeyLength, List.drop_left' hkeyLength, ← hkey, hvalue]
  · rintro ⟨space, hcolumns, hrow, rfl⟩
    obtain ⟨columns, values⟩ := row
    obtain rfl : columns = t.columnNames := hcolumns
    have hcut : (values.take t.keyCount).map Value.type = t.primaryKey.map (·.type) ∧
        (values.drop t.keyCount).map Value.type = t.otherColumns.map (·.type) := by
      have hrow : values.map Value.type = t.columns.map (·.type) := hrow
      rw [List.map_take, List.map_drop, hrow, ← List.map_take, ← List.map_drop]
      exact ⟨rfl, rfl⟩
    have hkeys : Tuple.readKey (t.primaryKey.map (·.type))
        (Tuple.encodeKey space (values.take t.keyCount)) = .ok (values.take t.keyCount) :=
      Tuple.readKey_eq_ok_iff.mpr ⟨hcut.1, space, rfl⟩
    have hothers := Tuple.decode_encode (values.drop t.keyCount)
    rw [hcut.2] at hothers
    simp only [primaryEntry, hkeys, hothers, List.take_append_drop]

theorem ofEntry_eq_error_iff {e : DecodeError} :
    ofEntry t entry = .error e ↔ Garbled t entry e := by
  rw [ofEntry_eq_readKey]
  constructor
  · intro h
    split at h
    · next hkey =>
      obtain rfl := Except.error.inj h
      exact .key (Tuple.readKey_eq_error_iff.mp hkey)
    · next keys hkeys =>
      split at h
      · next hothers =>
        obtain rfl := Except.error.inj h
        obtain ⟨htypes, space, hkey⟩ := Tuple.readKey_eq_ok_iff.mp hkeys
        exact .value htypes hkey hothers
      · contradiction
  · rintro (hkey | ⟨htypes, hkey, hvalue⟩)
    · rw [Tuple.readKey_eq_error_iff.mpr hkey]
    · rw [Tuple.readKey_eq_ok_iff.mpr ⟨htypes, _, hkey⟩]
      simp only [hvalue]

end Row

/-! ## Keys of indexes -/

namespace KeyLayout

/-- The key is one of the layout, and its values in the columns of the table's primary key are those
of `pk`. -/
def LeadsTo (l : KeyLayout) (t : Table) (key : Bytes) (pk : Record) : Prop :=
  ∃ values, values.map Value.type = l.types ∧ key = Tuple.encodeKey l.keySpace values ∧
    pk = (Record.mk l.columns values).restrict t.keyNames

variable {t : Table} {l : KeyLayout}

theorem keyOfIndexKey_eq_readKey (ht : t.Sound) (hl : l ∈ all t) (key : Bytes) :
    Row.keyOfIndexKey t l.columns l.types key =
      (Tuple.readKey l.types key).map fun values =>
        (Record.mk l.columns values).restrict t.keyNames := by
  rw [keyOfIndexKey_eq_record ht hl]
  unfold record Tuple.readKey
  cases Tuple.splitKey key with
  | error e => rfl
  | ok p =>
    dsimp only
    cases Tuple.decode l.types p.2 <;> rfl

/-- If the key is that of a tuple at all, then in the key space of the layout. -/
def Owns (l : KeyLayout) (key : Bytes) : Prop :=
  ∀ (space : UInt32) (values : List Value), key = Tuple.encodeKey space values → space = l.keySpace

theorem Owns.leadsTo_iff {key : Bytes} (howns : l.Owns key) (ht : t.Sound) (hl : l ∈ all t)
    {pk : Record} :
    Row.keyOfIndexKey t l.columns l.types key = .ok pk ↔ l.LeadsTo t key pk := by
  rw [keyOfIndexKey_eq_readKey ht hl]
  constructor
  · intro h
    cases hvalues : Tuple.readKey l.types key with
    | error e =>
      rw [hvalues] at h
      contradiction
    | ok values =>
      rw [hvalues] at h
      obtain ⟨htypes, space, hkey⟩ := Tuple.readKey_eq_ok_iff.mp hvalues
      obtain rfl := howns space values hkey
      exact ⟨values, htypes, hkey, (Except.ok.inj h).symm⟩
  · rintro ⟨values, htypes, hkey, rfl⟩
    rw [Tuple.readKey_eq_ok_iff.mpr ⟨htypes, l.keySpace, hkey⟩]
    rfl

theorem keyFault_iff (ht : t.Sound) (hl : l ∈ all t) {key : Bytes} {e : DecodeError} :
    Row.keyOfIndexKey t l.columns l.types key = .error e ↔ Tuple.KeyFault l.types key e := by
  rw [keyOfIndexKey_eq_readKey ht hl, ← Tuple.readKey_eq_error_iff]
  cases Tuple.readKey l.types key with
  | error e' =>
    exact ⟨fun h => congrArg Except.error (Except.error.inj h),
      fun h => congrArg Except.error (Except.error.inj h)⟩
  | ok values => exact iff_of_false nofun nofun

theorem Owns.holds_iff {entry : Cell} (howns : (primary t).Owns entry.key) (ht : t.Sound)
    {row : Record} : Row.ofEntry t entry = .ok row ↔ Row.Holds t entry row := by
  rw [Row.ofEntry_eq_ok_iff ht]
  constructor
  · rintro ⟨space, h⟩
    obtain rfl := howns space _ (congrArg Cell.key h.entry_eq)
    exact h
  · intro h
    exact ⟨t.keySpace, h⟩

end KeyLayout

end RangeStore
