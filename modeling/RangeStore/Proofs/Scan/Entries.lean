import RangeStore.Proofs.Scan.KeyLayout
import RangeStore.Proofs.Schema.Draft
import RangeStore.Scan.Scanner
set_option autoImplicit false

/-! # Rows and their entries

What a table takes as a row can be told from the entries that it writes for it
(`Row.entries_readable`). From the entry under the primary key the whole row is read, from the key
in an index the primary key, both with the columns in the table's order; and the key in an index
tells two rows apart just as the columns of the index do. Between the record, the entry and what is
read there are three orders of the columns, so everything is said in terms of the tuple that a
record gives for a list of columns. -/

namespace RangeStore

/-- A scan of the primary key gives the row of the entry it stands on, whatever it is to replace. -/
theorem Scanner.read_of_ofEntry {sc : Scanner} {e : Cell} {row : Record}
    (hentry : sc.entry? = some e) (hchoice : sc.layout.choice = .primary)
    (hread : Row.ofEntry sc.table e = .ok row) (lookup : RowLookup) (out : Record) :
    sc.read lookup out = (.ok true, row) := by
  simp only [read, hentry, hchoice, hread]

namespace Row

variable {t : Table} {r r' : Record} {values values' : List Value}

/-- From the entry of a row under its primary key the row is read. -/
theorem ofEntry_primaryEntry (h : project t r = .ok values) :
    ofEntry t (primaryEntry t values) = .ok ⟨t.columnNames, values⟩ := by
  obtain ⟨hfits, rfl⟩ := project_eq_ok h
  rw [primaryEntry_tuple hfits]
  exact ofEntry_eq hfits t.keySpace

/-- The values of a row in the columns of its primary key are the first ones. -/
theorem tuple_keyNames (h : project t r = .ok values) :
    r.tuple t.keyNames = values.take t.keyCount := by
  obtain ⟨hfits, rfl⟩ := project_eq_ok h
  rw [Table.keyNames_eq]
  exact (hfits.has.take_drop_tuple t.keyCount).1.symm

/-- The key of a row in an index is the one that it has in the layout of the index. -/
theorem indexKey_eq (ht : t.Sound) {i : Nat} {index : Index} (hi : t.indexes[i]? = some index)
    (h : project t r = .ok values) :
    indexKey t index values = (KeyLayout.secondary t i index).key r := by
  obtain ⟨hfits, rfl⟩ := project_eq_ok h
  have hcovers := ht.covers index (List.mem_of_getElem? hi)
  rw [indexKey, indexValues_tuple hfits hcovers.known]
  rfl

/-- From the key of a row in an index its primary key is read. -/
theorem keyOfIndexKey_indexKey (ht : t.Sound) {i : Nat} {index : Index}
    (hi : t.indexes[i]? = some index) (h : project t r = .ok values) :
    keyOfIndexKey t (KeyLayout.secondary t i index).columns (KeyLayout.secondary t i index).types
      (indexKey t index values) = .ok ⟨t.keyNames, values.take t.keyCount⟩ := by
  have hcovers := ht.covers index (List.mem_of_getElem? hi)
  rw [indexKey_eq ht hi h, ← tuple_keyNames h]
  exact keyOfIndexKey_eq (project_eq_ok h).1 hcovers index.keySpace

/-- Rows of a table survive their entries. Let a table take a record as a row, with its columns in
any order. From the entry under the primary key a scan reads the values of the row in all columns,
in the table's order, whatever it is to replace. In the layout of each index the key of the row
gives just the columns of the primary key, in their order, with the values of the row; and the keys
of two rows there are equal just if the rows agree on all columns of the index. -/
theorem entries_readable {d : Draft} (hbuild : d.build = .ok t) (h : project t r = .ok values)
    (h' : project t r' = .ok values') :
    (ofEntry t (primaryEntry t values) = .ok ⟨t.columnNames, values⟩ ∧
      ∀ sc : Scanner, sc.table = t → sc.layout.choice = .primary →
        sc.entry? = some (primaryEntry t values) → ∀ (lookup : RowLookup) (out : Record),
          sc.read lookup out = (.ok true, ⟨t.columnNames, values⟩)) ∧
    ∀ (i : Nat) (index : Index), t.indexes[i]? = some index →
      ∃ l, KeyLayout.atPosition? t i = some l ∧ l.columns = index.columns ∧
        keyOfIndexKey t l.columns l.types (indexKey t index values) =
          .ok ⟨t.keyNames, values.take t.keyCount⟩ ∧
        (indexKey t index values = indexKey t index values' ↔
          ∀ name ∈ index.columns, r.find? name = r'.find? name) := by
  have ht := Draft.sound_of_build hbuild
  have hrow := ofEntry_primaryEntry h
  refine ⟨⟨hrow, ?_⟩, ?_⟩
  · intro sc htable hchoice hentry
    exact Scanner.read_of_ofEntry hentry hchoice (htable ▸ hrow)
  · intro i index hi
    refine ⟨KeyLayout.secondary t i index, ?_, rfl, keyOfIndexKey_indexKey ht hi h, ?_⟩
    · rw [KeyLayout.atPosition?, hi]
      rfl
    · rw [indexKey_eq ht hi h, indexKey_eq ht hi h']
      exact KeyLayout.key_eq_iff ht (KeyLayout.secondary_mem hi) (project_eq_ok h).1
        (project_eq_ok h').1

/-! ## A table of market stalls -/

/-- The columns of the primary key are the last two of the index, the other way around. -/
def byOwner : Index := ⟨"byOwner", ["owner", "number", "hall"], 101⟩

def stalls : Table :=
  ⟨"stalls", [⟨"hall", .bytes⟩, ⟨"number", .int64⟩, ⟨"owner", .bytes⟩, ⟨"fee", .int64⟩], 2, 100,
    [byOwner]⟩

/-- A stall with its columns in an order of their own, and the same stall with another fee. -/
theorem entries_readable_stalls :
    project stalls ⟨["fee", "owner", "number", "hall"],
      [.int 9, .bytes [7], .int (-1), .bytes [0]]⟩ =
        .ok [.bytes [0], .int (-1), .bytes [7], .int 9] ∧
    ofEntry stalls (primaryEntry stalls [.bytes [0], .int (-1), .bytes [7], .int 9]) =
      .ok ⟨["hall", "number", "owner", "fee"], [.bytes [0], .int (-1), .bytes [7], .int 9]⟩ ∧
    keyOfIndexKey stalls ["owner", "number", "hall"] [.bytes, .int64, .bytes]
      (indexKey stalls byOwner [.bytes [0], .int (-1), .bytes [7], .int 9]) =
      .ok ⟨["hall", "number"], [.bytes [0], .int (-1)]⟩ ∧
    indexKey stalls byOwner [.bytes [0], .int (-1), .bytes [7], .int 9] =
      indexKey stalls byOwner [.bytes [0], .int (-1), .bytes [7], .int 4] := by
  have hdraft : Draft.build ⟨"stalls", stalls.columns, 2, 100, [⟨"byOwner", ["owner", "number"]⟩]⟩ =
      .ok stalls := rfl
  have hproject : project stalls ⟨["fee", "owner", "number", "hall"],
      [.int 9, .bytes [7], .int (-1), .bytes [0]]⟩ =
        .ok [.bytes [0], .int (-1), .bytes [7], .int 9] := rfl
  have hproject' : project stalls ⟨["owner", "number", "hall", "fee"],
      [.bytes [7], .int (-1), .bytes [0], .int 4]⟩ =
        .ok [.bytes [0], .int (-1), .bytes [7], .int 4] := rfl
  obtain ⟨⟨hrow, -⟩, hindexes⟩ := entries_readable hdraft hproject hproject'
  obtain ⟨l, hl, -, hkey, hsame⟩ := hindexes 0 byOwner rfl
  obtain rfl : KeyLayout.secondary stalls 0 byOwner = l := Option.some.inj hl
  exact ⟨hproject, hrow, hkey, hsame.mpr (by decide)⟩

end Row

end RangeStore
