import RangeStore.Proofs.Scan.Rows
import RangeStore.Proofs.Schema.Draft
import RangeStore.Proofs.Tuple.Canonical
set_option autoImplicit false

/-! # Index entries that lead to no row

The scan of an index reads the primary key from each of its entries and looks up the row there.
Nothing is said here of the tree but that it is a search tree: its entries may be anything, and so
may what is looked up. An entry that cannot be read ends the scan with an error. One that leads to
no row is passed over or ends it too, as the policy has it. So the rows are those that are found up
to the first fault, and the fault itself comes last (`Rows.nth_index`). -/

namespace RangeStore

/-! ## What an index key leads to -/

namespace KeyLayout

/-- The record of the values in a key. -/
def record (l : KeyLayout) (key : Bytes) : Except DecodeError Record :=
  match Tuple.splitKey key with
  | .error e => .error e
  | .ok (_, body) =>
    match Tuple.decode l.types body with
    | .error e => .error e
    | .ok values => .ok ⟨l.columns, values⟩

variable (l : KeyLayout) (t : Table) (find : Table → Record → Option Record) (policy : MissPolicy)

/-- The row under the primary key that an index key holds. -/
def rowUnder? (key : Bytes) : Option Record :=
  match l.record key with
  | .error _ => none
  | .ok r => find t (r.restrict t.keyNames)

/-- What is wrong with an index key: its values cannot be read, or the policy is to fail and there
is no row under its primary key. -/
def fault? (key : Bytes) : Option ScanError :=
  match l.record key with
  | .error e => some (.decode e)
  | .ok r =>
    match policy, find t (r.restrict t.keyNames) with
    | .fail, none => some (.danglingIndexEntry t.name l.name (r.restrict t.keyNames).shown)
    | _, _ => none

/-- The rows under index keys up to the first fault, and the fault. -/
def itemsUnder (keys : List Bytes) : List (Except ScanError Record) :=
  ((keys.takeWhile fun key => (l.fault? t find policy key).isNone).filterMap
      (l.rowUnder? t find)).map .ok ++
    ((keys.findSome? (l.fault? t find policy)).map .error).toList

variable {l t find policy}

/-- The values that are read from a key are those of all its columns. -/
theorem has_of_record (ht : t.Sound) (hl : l ∈ all t) {key : Bytes} {r : Record}
    (h : l.record key = .ok r) : r.columns = l.columns ∧ r.Has l.columns := by
  unfold record at h
  split at h
  · contradiction
  · split at h
    · contradiction
    · next values hvalues =>
      obtain rfl := Except.ok.inj h
      obtain ⟨htypes, -⟩ := Tuple.eq_of_decode hvalues
      refine ⟨rfl, Record.has_of_length ?_⟩
      rw [← length_types ht hl, ← htypes, List.length_map]

/-- The primary key in an index key is the part of its record in the columns of the primary key. -/
theorem keyOfIndexKey_eq_record (ht : t.Sound) (hl : l ∈ all t) (key : Bytes) :
    Row.keyOfIndexKey t l.columns l.types key =
      (l.record key).map fun r => r.restrict t.keyNames := by
  cases hsplit : Tuple.splitKey key with
  | error e => simp only [Row.keyOfIndexKey, record, hsplit, Except.map]
  | ok p =>
    cases hvalues : Tuple.decode l.types p.2 with
    | error e => simp only [Row.keyOfIndexKey, record, hsplit, hvalues, Except.map]
    | ok values =>
      have hrecord : l.record key = .ok ⟨l.columns, values⟩ := by
        simp only [record, hsplit, hvalues]
      have hkey := (has_of_record ht hl hrecord).2.sublist (covers ht hl).key
      have hpick := Row.pick_eq hkey
      rw [Table.keyNames] at hpick
      simp only [Row.keyOfIndexKey, hrecord, hsplit, hvalues, hpick, Except.map]
      exact congrArg Except.ok (Record.ofPairs_zip hkey.length_tuple.symm)

end KeyLayout

/-! ## The scan of an index -/

namespace Scanner

variable {t : Table} {l : KeyLayout} {request : ScanRequest} {policy : MissPolicy} {cursor : Cursor}

/-- Where the scan of an index stands on an entry, the entry adds its fault to the rows, or else the
row that it leads to. -/
theorem item?_of_index (ht : t.Sound) (hl : l ∈ KeyLayout.all t) (hindex : l.choice ≠ .primary)
    (find : Table → Record → Option Record) {c : Cursor} {e : Cell}
    (hentry : Scanner.entry? ((request.scanner t l policy cursor).at c) = some e) :
    ((request.scanner t l policy cursor).at c).item? (fun t key => .ok (find t key)) =
      match l.fault? t find policy e.key with
      | some error => some (.error error)
      | none => (l.rowUnder? t find e.key).map .ok := by
  have hkey := KeyLayout.keyOfIndexKey_eq_record ht hl e.key
  have hlayout : ((request.scanner t l policy cursor).at c).layout = l := rfl
  have htable : ((request.scanner t l policy cursor).at c).table = t := rfl
  have hpolicy : ((request.scanner t l policy cursor).at c).missPolicy = policy := rfl
  unfold item? read
  rw [hentry, hlayout, htable, hpolicy]
  cases hchoice : l.choice with
  | primary => exact absurd hchoice hindex
  | secondary position =>
    simp only [hkey, KeyLayout.fault?, KeyLayout.rowUnder?]
    cases l.record e.key with
    | error error => rfl
    | ok r =>
      cases hfound : find t (r.restrict t.keyNames) with
      | some row =>
        simp only [Except.map, hfound]
        cases policy <;> rfl
      | none =>
        simp only [Except.map, hfound]
        cases policy <;> rfl

end Scanner

namespace Rows

variable {s : NodeSource} {root : PageId}

/-- After the end or an error no call gives anything. -/
theorem nth_of_finished (lookup : RowLookup) {r : Rows} (h : r.finished = true) (n : Nat) :
    nth s lookup n r = none := by
  have hnext : r.next s lookup = (none, r) := by rw [next, if_pos h]
  induction n with
  | zero => rw [nth, hnext]
  | succ n ih => rw [nth, hnext, ih]

/-- Where there is no tree, no call gives anything. -/
theorem nth_of_cursor_none (lookup : RowLookup) {sc : Scanner} (h : sc.cursor = .none) (n : Nat) :
    nth s lookup n { scanner := sc } = none := by
  have hvalid : sc.valid = false := by
    rw [Scanner.valid, Scanner.entry?, h]
    rfl
  have hnext : next s lookup { scanner := sc } = (none, ⟨sc, true, true⟩) := by
    rw [next, if_neg Bool.false_ne_true, Cursor.walkBound, advance]
    simp only [Bool.false_eq_true, if_false, hvalid]
  cases n with
  | zero => rw [nth, hnext]
  | succ n => rw [nth, hnext, nth_of_finished lookup rfl]

/-- The scan of an index, in a search tree with any entries or where there is no tree: the keys
between its bounds give the rows that are found under them, in the direction of the scan, and
nothing where no row is found; the first key that cannot be read gives an error, and so does the
first under which no row is found, if the policy is to fail. After the error or the last row every
call gives nothing. -/
theorem nth_index {tables : Catalog} {policy : MissPolicy} {name : String} {request : ScanRequest}
    {sc : Scanner} {entries : List Cell}
    (htables : ∀ t ∈ tables.tables, ∃ d : Draft, d.build = .ok t)
    (htree : (root = 0 ∧ entries = []) ∨
      ∃ tree : Tree, tree.Rooted s root ∧ tree.Search ∧ tree.entries = entries)
    (hscan : Scanner.ofRequest s root tables policy name request = .ok sc)
    (hindex : sc.layout.choice ≠ .primary) (find : Table → Record → Option Record) (n : Nat) :
    nth s (fun t key => .ok (find t key)) n { scanner := sc } =
      (sc.layout.itemsUnder sc.table find policy
        ((request.select sc.layout entries).map (·.key)))[n]? := by
  have hsound : ∀ t ∈ tables.tables, t.Sound := fun t ht =>
    (htables t ht).elim fun _ => Draft.sound_of_build
  obtain ⟨t, l, cursor, hfind, hsuits, hseek, rfl⟩ := Scanner.ofRequest_eq_ok hsound hscan
  rcases htree with ⟨rfl, rfl⟩ | ⟨tree, hrooted, hsearch, rfl⟩
  · have hcursor : cursor = .none := (Except.ok.inj hseek).symm
    have hnothing : request.select l [] = [] := List.perm_nil.mp (Direction.arrange_perm _ _)
    rw [nth_of_cursor_none _ hcursor]
    show none = (l.itemsUnder t find policy ((request.select l []).map (·.key)))[n]?
    rw [hnothing]
    rfl
  · have ht : t.Sound := hsound t (List.mem_of_find?_eq_some hfind)
    have hadds : Adds tree (request.scanner t l policy cursor) (fun t key => .ok (find t key)) _ :=
      fun _ _ hrange _ hc =>
        Scanner.item?_of_index ht hsuits.layout hindex find (Scanner.entry?_at hc hrange)
    obtain ⟨i, htracks, hcoming⟩ :=
      Scanner.exists_coming_eq_select hrooted hsearch hsuits.directions hseek t policy
    have hahead : Ahead tree (request.scanner t l policy cursor)
      { scanner := request.scanner t l policy cursor } _ := .first htracks
    have hitems := items_map (l.fault? t find policy) (l.rowUnder? t find)
      ((request.select l tree.entries).map (·.key))
    rw [List.map_map] at hitems
    rw [nth_eq hrooted hadds (.ahead hahead), hcoming]
    exact congrArg (fun items : List (Except ScanError Record) => items[n]?) hitems

/-! ### A leaf of an index of boats -/

/-- A table of boats with an index of their names. -/
def boats : Table :=
  ⟨"boats", [⟨"id", .int64⟩, ⟨"name", .bytes⟩], 1, 100, [⟨"byName", ["name", "id"], 101⟩]⟩

def boatsByName : KeyLayout := .secondary boats 0 ⟨"byName", ["name", "id"], 101⟩

/-- Two boats of a name, and after them two of another. The last key has a byte too many. -/
def boatLeaf : Node :=
  NodeDraft.finish
    { kind := .leaf
      cells := #[⟨Tuple.encodeKey 101 [.bytes [97], .int 1], []⟩,
        ⟨Tuple.encodeKey 101 [.bytes [97], .int 2], []⟩,
        ⟨Tuple.encodeKey 101 [.bytes [98], .int 3], []⟩,
        ⟨Tuple.encodeKey 101 [.bytes [98], .int 4] ++ [0x00], []⟩] }

/-- The index of boats on page 1. -/
def boatStore : MemoryStore where
  nodes := #[boatLeaf]
  root := 1

/-- There is no boat 2. -/
def boatUnder (_ : Table) (key : Record) : Option Record :=
  if key.values = [.int 2] then none else some key

/-- All boats, by their names. -/
def boatsUp : ScanRequest where
  start := ⟨.ge, .empty⟩
  stop := ⟨.le, .empty⟩
  index := some "byName"

theorem boatLeaf_rooted : (Tree.leaf boatLeaf).Rooted boatStore.source 1 where
  fetch := rfl
  held := rfl
  root_ne_zero := by decide
  full := Or.inr rfl

theorem boatLeaf_search : (Tree.leaf boatLeaf).Search where
  ascending := by unfold Ascending; decide
  separated := trivial

/-- Where the boat that is missing is passed over, the scan gives two boats and then the fault of
the last key; otherwise it ends with the missing boat. -/
theorem nth_index_boats :
    ∃ sc sc',
      Scanner.ofRequest boatStore.source 1 ⟨[boats]⟩ .skip "boats" boatsUp = .ok sc ∧
      Scanner.ofRequest boatStore.source 1 ⟨[boats]⟩ .fail "boats" boatsUp = .ok sc' ∧
      ∀ n, nth boatStore.source (fun t key => .ok (boatUnder t key)) n { scanner := sc } =
          [.ok ⟨["id"], [.int 1]⟩, .ok ⟨["id"], [.int 3]⟩,
            .error (.decode (.trailingBytes 1))][n]? ∧
        nth boatStore.source (fun t key => .ok (boatUnder t key)) n { scanner := sc' } =
          [.ok ⟨["id"], [.int 1]⟩,
            .error (.danglingIndexEntry "boats" "byName" "\x7bid: 2\x7d")][n]? := by
  have htables : ∀ t ∈ (⟨[boats]⟩ : Catalog).tables, ∃ d : Draft, d.build = .ok t := by
    intro t ht
    obtain rfl := List.mem_singleton.mp ht
    exact ⟨⟨"boats", boats.columns, 1, 100, [⟨"byName", ["name"]⟩]⟩, rfl⟩
  have htree : ∃ tree : Tree, tree.Rooted boatStore.source 1 ∧ tree.Search ∧
      tree.entries = boatLeaf.cells.toList := ⟨_, boatLeaf_rooted, boatLeaf_search, rfl⟩
  have hskip : boatsByName.itemsUnder boats boatUnder .skip
      ((boatsUp.select boatsByName boatLeaf.cells.toList).map (·.key)) =
        [.ok ⟨["id"], [.int 1]⟩, .ok ⟨["id"], [.int 3]⟩,
          .error (.decode (.trailingBytes 1))] := rfl
  have hfail : boatsByName.itemsUnder boats boatUnder .fail
      ((boatsUp.select boatsByName boatLeaf.cells.toList).map (·.key)) =
        [.ok ⟨["id"], [.int 1]⟩,
          .error (.danglingIndexEntry "boats" "byName" "\x7bid: 2\x7d")] := rfl
  have hruns : (match
        Scanner.ofRequest boatStore.source 1 ⟨[boats]⟩ .skip "boats" boatsUp,
        Scanner.ofRequest boatStore.source 1 ⟨[boats]⟩ .fail "boats" boatsUp with
      | .ok _, .ok _ => true
      | _, _ => false) = true := by decide +kernel
  split at hruns
  · next sc sc' h h' =>
    have hskips := nth_index htables (Or.inr htree) h
    have hfails := nth_index htables (Or.inr htree) h'
    obtain ⟨t, l, cursor, ht, -, hl, -, rfl⟩ := Scanner.ofRequest_steps h
    obtain ⟨t', l', cursor', ht', -, hl', -, rfl⟩ := Scanner.ofRequest_steps h'
    obtain rfl : boats = t := Option.some.inj ht
    obtain rfl : boats = t' := Option.some.inj ht'
    obtain rfl : boatsByName = l := Except.ok.inj hl
    obtain rfl : boatsByName = l' := Except.ok.inj hl'
    refine ⟨_, _, h, h', fun n => ⟨?_, ?_⟩⟩
    · rw [← hskip]
      exact hskips nofun boatUnder n
    · rw [← hfail]
      exact hfails nofun boatUnder n
  · contradiction

end Rows

end RangeStore
