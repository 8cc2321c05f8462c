import RangeStore.Schema.Draft
import RangeStore.Tree.Cursor
import RangeStore.Tuple.Code
set_option autoImplicit false

/-! # The catalog

The tables of a store, in the order of their names. Each has an entry in the tree, in a key space
of its own: the key is the table's name, the value a tuple,

    key space, size of the primary key, number of columns, (name, type)*, number of indexes,
    (name, number of columns, column*)*

The key spaces of the indexes are not written, for they follow from the table's. -/

namespace RangeStore

/-- Tables by name. -/
structure Catalog where
  /-- The tables, in ascending order of their names. -/
  tables : List Table
deriving DecidableEq, Inhabited

namespace Catalog

def empty : Catalog := ⟨[]⟩

def find? (c : Catalog) (name : String) : Option Table := c.tables.find? (·.name == name)

/-- Puts a table at its place among others; one of the same name is replaced. -/
def place (t : Table) : List Table → List Table
  | [] => [t]
  | u :: rest =>
    match compare t.name u.name with
    | .lt => t :: u :: rest
    | .eq => t :: rest
    | .gt => u :: place t rest

def insert (c : Catalog) (t : Table) : Catalog := ⟨place t c.tables⟩

/-- The names of the tables, in ascending order. -/
def names (c : Catalog) : List String := c.tables.map (·.name)

def keySpace : UInt32 := 1

/-! ## Writing a table -/

/-- A number of things as a value. -/
def count (n : Nat) : Value := .int (Int64.ofNat n)

/-- A column in the tuple of its table. -/
def columnValues (c : Column) : List Value :=
  [.ofText c.name, count c.type.tag.toNat]

/-- An index in the tuple of its table. -/
def indexValues (i : Index) : List Value :=
  .ofText i.name :: count i.columns.length :: i.columns.map .ofText

def tableValues (t : Table) : List Value :=
  [count t.keySpace.toNat, count t.keyCount, count t.columns.length] ++
    t.columns.flatMap columnValues ++ [count t.indexes.length] ++ t.indexes.flatMap indexValues

def entry (t : Table) : Cell :=
  ⟨Tuple.encodeKey keySpace [.ofText t.name], Tuple.encode (tableValues t)⟩

end Catalog

/-! ## Reading a table -/

/-- Why an entry of the catalog describes no table, or the catalog cannot be read. -/
inductive CatalogError where
  /-- The key lies in another key space. -/
  | notInCatalog
  | keySpaceOutOfRange
  | negativeCount
  /-- A name is not well-formed UTF-8. -/
  | illegibleName
  | unknownType
  | decode (error : DecodeError)
  | schema (error : SchemaError)
  | store (error : StoreError)
deriving DecidableEq

namespace CatalogError

def message : CatalogError → String
  | notInCatalog => "malformed catalog entry: not a catalog key"
  | keySpaceOutOfRange => "malformed catalog entry: prefix out of range"
  | negativeCount => "malformed catalog entry: negative count"
  | illegibleName => "malformed catalog entry: name is not UTF-8"
  | unknownType => "malformed catalog entry: unknown column type"
  | decode e => "codec error: " ++ e.message
  | schema e => "invalid table definition: " ++ e.message
  | store e => "store error: " ++ e.message

def causes : CatalogError → List String
  | decode e => [e.message]
  | schema e => [e.message]
  | store e => e.message :: e.causes
  | _ => []

end CatalogError

namespace Catalog

/-- Reads a number; gives it and the bytes behind it. -/
def readInt (bytes : Bytes) : Except CatalogError (Int × Bytes) :=
  match Tuple.decodeInt bytes with
  | .error e => .error (.decode e)
  | .ok (n, rest) => .ok (n.toInt, rest)

/-- Reads a number of things. -/
def readCount (bytes : Bytes) : Except CatalogError (Nat × Bytes) := do
  let (n, rest) ← readInt bytes
  if n < 0 then .error .negativeCount else .ok (n.toNat, rest)

def readName (bytes : Bytes) : Except CatalogError (String × Bytes) :=
  match Tuple.decodeBytes bytes with
  | .error e => .error (.decode e)
  | .ok (name, rest) =>
    match Text.text? name with
    | none => .error .illegibleName
    | some s => .ok (s, rest)

def readColumn (bytes : Bytes) : Except CatalogError (Column × Bytes) := do
  let (name, bytes) ← readName bytes
  let (tag, bytes) ← readInt bytes
  match ColumnType.ofTag? tag.toNat with
  | none => .error .unknownType
  | some type => .ok (⟨name, type⟩, bytes)

/-- Reads things one after the other, as many as `n`. -/
def readMany {α : Type} (read : Bytes → Except CatalogError (α × Bytes)) :
    (n : Nat) → Bytes → Except CatalogError (List α × Bytes)
  | 0, bytes => .ok ([], bytes)
  | n + 1, bytes => do
    let (first, bytes) ← read bytes
    let (others, bytes) ← readMany read n bytes
    .ok (first :: others, bytes)

def readIndex (bytes : Bytes) : Except CatalogError (IndexDraft × Bytes) := do
  let (name, bytes) ← readName bytes
  let (n, bytes) ← readCount bytes
  let (columns, bytes) ← readMany readName n bytes
  .ok (⟨name, columns⟩, bytes)

/-- Reads what is said of a table of the given name. -/
def readDraft (name : String) (bytes : Bytes) : Except CatalogError (Draft × Bytes) := do
  let (space, bytes) ← readInt bytes
  if space < 0 ∨ UInt32.size ≤ space.toNat then .error .keySpaceOutOfRange
  else
    let (keyCount, bytes) ← readCount bytes
    let (columnCount, bytes) ← readCount bytes
    let (columns, bytes) ← readMany readColumn columnCount bytes
    let (indexCount, bytes) ← readCount bytes
    let (indexes, bytes) ← readMany readIndex indexCount bytes
    .ok (⟨name, columns, keyCount, UInt32.ofNat space.toNat, indexes⟩, bytes)

/-- The table that an entry describes. Its name is what the key begins with. -/
def readTable (entry : Cell) : Except CatalogError Table :=
  match Tuple.splitKey entry.key with
  | .error e => .error (.decode e)
  | .ok (space, body) =>
    if space ≠ keySpace then .error .notInCatalog
    else do
      let (name, _) ← readName body
      match ← readDraft name entry.value with
      | (_, byte :: rest) => .error (.decode (.trailingBytes (byte :: rest).length))
      | (draft, []) =>
        match draft.build with
        | .error e => .error (.schema e)
        | .ok table => .ok table

/-! ## Reading the catalog -/

/-- What the keys of all entries of the catalog begin with. -/
def keyStart : Bytes := Bytes.big 4 keySpace.toNat

/-- Reads the tables from a cursor on. -/
def loadFrom (s : NodeSource) : (bound : Nat) → Cursor → Catalog → Except CatalogError Catalog
  | 0, _, _ => .error (.store .endless)
  | bound + 1, cursor, found =>
    match cursor.entry? with
    | none => .ok found
    | some entry =>
      if keyStart.isPrefixOf entry.key then
        match readTable entry with
        | .error e => .error e
        | .ok table =>
          match cursor.next s with
          | (.error e, _) => .error (.store e)
          | (.ok (), cursor) => loadFrom s bound cursor (found.insert table)
      else .ok found

def load (s : NodeSource) (root : PageId) : Except CatalogError Catalog :=
  match Cursor.seek s root keyStart .ge with
  | .error e => .error (.store e)
  | .ok cursor => loadFrom s (cursor.walkBound s) cursor empty

end Catalog

end RangeStore
