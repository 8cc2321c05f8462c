import RangeStore.Proofs.Database.Build
import RangeStore.Proofs.Scan.Range
import RangeStore.Proofs.Scan.Rows
set_option autoImplicit false

/-! # Scans of built databases

A scan of a database that was built gives exactly the rows of its table that both bounds accept,
each once and whole, in the order of the scanned key: `Database.collect_scan`.

The entries of the tree between the bounds are one for each such row (`Built.select_perm`), the rows
are read from them without fail (`Built.read_eq`), and the keys of the entries are ordered as the
tuples of the rows are. -/

namespace RangeStore

open Std

/-- A list without repetitions of which only one member can be accepted. -/
theorem filter_eq_of_unique {α : Type} {p : α → Bool} {l : List α} {a : α} (hnodup : l.Nodup)
    (ha : a ∈ l) (hp : ∀ b ∈ l, b ≠ a → p b = false) :
    l.filter p = if p a then [a] else [] := by
  induction l with
  | nil => contradiction
  | cons b l ih =>
    obtain ⟨hnew, hnodup⟩ := List.nodup_cons.mp hnodup
    rcases List.mem_cons.mp ha with rfl | hmem
    · have hrest : l.filter p = [] := List.filter_eq_nil_iff.mpr fun c hc => by
        rw [hp c (List.mem_cons_of_mem _ hc) fun heq => hnew (heq ▸ hc)]
        exact Bool.false_ne_true
      rw [List.filter_cons, hrest]
    · have hb : p b = false := hp b (List.mem_cons_self ..) fun heq => hnew (heq ▸ hmem)
      rw [List.filter_cons, hb, if_neg Bool.false_ne_true,
        ih hnodup hmem fun c hc => hp c (List.mem_cons_of_mem _ hc)]

theorem flatMap_eq_map_filter {α β : Type} {f : α → List β} {accepts : α → Bool} {g : α → β}
    {l : List α} (h : ∀ a ∈ l, f a = if accepts a then [g a] else []) :
    l.flatMap f = (l.filter accepts).map g := by
  induction l with
  | nil => rfl
  | cons a l ih =>
    rw [List.flatMap_cons, h a (List.mem_cons_self ..),
      ih fun b hb => h b (List.mem_cons_of_mem _ hb), List.filter_cons]
    split <;> rfl

/-- The cursor in a leaf that holds an entry and nothing else. -/
def Cursor.lone (e : Cell) : Cursor := ⟨[⟨⟨.leaf, #[e], .zero⟩, 0⟩]⟩

namespace Database

variable {σ : Type} [Storage σ]

/-- The rows of a table that both bounds of a request accept in a layout. -/
def accepted (t : Table) (l : KeyLayout) (request : ScanRequest) (rows : List (String × Record)) :
    List (String × Record) :=
  rows.filter fun row => row.1 == t.name && request.admits l row.2

namespace Built

variable {db : Database σ} {tables : List Table} {rows : List (String × Record)} {tree : Tree}
  {t : Table} {l : KeyLayout} {request : ScanRequest}

/-- Of the entries of a row at most the one in the scanned layout lies between the bounds. -/
theorem filter_cellsOf (h : Built db tables rows tree) (ht : t ∈ db.tables.tables)
    (hsuits : request.Suits t l) {row : String × Record} (hrow : row ∈ rows) :
    (Content.cellsOf db.tables row).filter (fun e => request.inRange l e.key) =
      if row.1 == t.name && request.admits l row.2 then [KeyLayout.entry t row.2 l] else [] := by
  obtain ⟨u, hu, hfits⟩ := h.holds.placed row hrow
  have humem := List.mem_of_find?_eq_some hu
  have huname : u.name = row.1 := by simpa using List.find?_some hu
  have hother : ∀ l' ∈ KeyLayout.all u, ¬ (u = t ∧ l' = l) →
      request.inRange l (KeyLayout.entry u row.2 l').key = false := by
    intro l' hl' hne
    refine hsuits.inRange_other (fun heq => hne ?_) _
    exact h.lists.eq_of_keySpace_eq h.sound humem ht hl' hsuits.layout heq
  rw [Content.cellsOf, hu]
  show (List.map (KeyLayout.entry u row.2) (KeyLayout.all u)).filter _ = _
  by_cases htu : u = t
  · -- of the layouts of the table only the scanned one has an entry in range
    subst htu
    have hnodup : (KeyLayout.all u).Nodup :=
      (KeyLayout.pairwise_keySpace_ne (h.sound u humem)).imp fun hne heq =>
        hne (congrArg KeyLayout.keySpace heq)
    have honly := filter_eq_of_unique
      (p := (fun e : Cell => request.inRange l e.key) ∘ KeyLayout.entry u row.2) hnodup
      hsuits.layout fun l' hl' hne => hother l' hl' fun hboth => hne hboth.2
    rw [Function.comp_apply, hsuits.inRange_entry (h.sound u humem) hfits] at honly
    rw [List.filter_map, honly, huname, beq_self_eq_true, Bool.true_and]
    split <;> rfl
  · -- the row is one of another table, whose layouts have key spaces of their own
    have hname : (row.1 == t.name) = false := by
      refine beq_eq_false_iff_ne.mpr fun heq => htu ?_
      have hfound := h.lists.find?_name ht
      rw [← heq, hu] at hfound
      exact Option.some.inj hfound
    rw [hname, Bool.false_and, if_neg Bool.false_ne_true]
    refine List.filter_eq_nil_iff.mpr fun e he => ?_
    obtain ⟨l', hl', rfl⟩ := List.mem_map.mp he
    rw [hother l' hl' fun hboth => htu hboth.1]
    exact Bool.false_ne_true

/-- The entries between the bounds are one for each accepted row. -/
theorem select_perm (h : Built db tables rows tree) (ht : t ∈ db.tables.tables)
    (hsuits : request.Suits t l) :
    (request.select l tree.entries).Perm
      ((accepted t l request rows).map fun row => KeyLayout.entry t row.2 l) := by
  have hcatalog : (Content.catalogEntries db.tables).filter (fun e => request.inRange l e.key) =
      [] := by
    refine List.filter_eq_nil_iff.mpr fun e he => ?_
    obtain ⟨values, hkey⟩ := Content.exists_of_mem_catalogEntries he
    rw [hkey, hsuits.inRange_other (Content.catalog_keySpace_ne (h.sound t ht) hsuits.layout)]
    exact Bool.false_ne_true
  have hrows : (rows.flatMap (Content.cellsOf db.tables)).filter
      (fun e => request.inRange l e.key) =
        (accepted t l request rows).map fun row => KeyLayout.entry t row.2 l := by
    rw [List.filter_flatMap]
    exact flatMap_eq_map_filter fun row hrow => h.filter_cellsOf ht hsuits hrow
  calc request.select l tree.entries
      |>.Perm (tree.entries.filter fun e => request.inRange l e.key) :=
        request.start.comparison.direction.arrange_perm _
    _ |>.Perm ((Content.catalogEntries db.tables ++
        rows.flatMap (Content.cellsOf db.tables)).filter fun e => request.inRange l e.key) :=
        h.holds.perm.filter _
    _ = (accepted t l request rows).map fun row => KeyLayout.entry t row.2 l := by
      rw [List.filter_append, hcatalog, hrows, List.nil_append]

theorem accepted_fits (h : Built db tables rows tree) (ht : t ∈ db.tables.tables)
    {row : String × Record} (hrow : row ∈ accepted t l request rows) :
    row ∈ rows ∧ db.tables.find? row.1 = some t ∧ row.2.Fits t.columns := by
  obtain ⟨hmem, haccepted⟩ := List.mem_filter.mp hrow
  have hname : row.1 = t.name := beq_iff_eq.mp (Bool.and_eq_true_iff.mp haccepted).1
  have hfind : db.tables.find? row.1 = some t := hname ▸ h.lists.find?_name ht
  obtain ⟨u, hu, hfits⟩ := h.holds.placed row hmem
  obtain rfl := Option.some.inj (hfind.symm.trans hu)
  exact ⟨hmem, hfind, hfits⟩

/-- From the entry of a row the scan reads the row, in an index by looking it up. -/
theorem read_eq (h : Built db tables rows tree) (ht : t ∈ db.tables.tables)
    (hl : l ∈ KeyLayout.all t) {row : String × Record} (hrow : row ∈ accepted t l request rows)
    {sc : Scanner} (htable : sc.table = t) (hlayout : sc.layout = l)
    (hentry : sc.entry? = some (KeyLayout.entry t row.2 l)) :
    sc.read db.rowLookup .empty = (.ok true, row.2.restrict t.columnNames) := by
  obtain ⟨hmem, hfind, hfits⟩ := h.accepted_fits ht hrow
  unfold Scanner.read
  rw [hentry, htable, hlayout]
  rcases KeyLayout.mem_all hl with rfl | ⟨i, index, hi, rfl⟩
  · -- the entry is the row
    have hread : Row.ofEntry t (KeyLayout.entry t row.2 (KeyLayout.primary t)) =
        .ok (row.2.restrict t.columnNames) := Row.ofEntry_eq hfits t.keySpace
    have hchoice : (KeyLayout.primary t).choice = .primary := rfl
    simp only [hchoice, hread]
  · -- the entry has the primary key, under which the row is found
    have hcovers := KeyLayout.covers (h.sound t ht) hl
    have hkey : Row.keyOfIndexKey t (KeyLayout.secondary t i index).columns
        (KeyLayout.secondary t i index).types
        (KeyLayout.entry t row.2 (KeyLayout.secondary t i index)).key =
          .ok (row.2.restrict t.keyNames) := Row.keyOfIndexKey_eq hfits hcovers index.keySpace
    simp only [hkey, h.lookup_eq hmem hfind hfits]
    rfl

/-- An entry between the bounds belongs to an accepted row. -/
theorem exists_row (h : Built db tables rows tree) (ht : t ∈ db.tables.tables)
    (hsuits : request.Suits t l) {e : Cell} (he : e ∈ request.select l tree.entries) :
    ∃ row ∈ accepted t l request rows, KeyLayout.entry t row.2 l = e :=
  List.mem_map.mp ((h.select_perm ht hsuits).mem_iff.mp he)

/-- Two accepted rows are ordered as their entries are. -/
theorem compare_restrict (h : Built db tables rows tree) (ht : t ∈ db.tables.tables)
    (hl : l ∈ KeyLayout.all t) {row row' : String × Record}
    (hrow : row ∈ accepted t l request rows) (hrow' : row' ∈ accepted t l request rows) :
    compare ((row.2.restrict t.columnNames).tuple l.columns)
        ((row'.2.restrict t.columnNames).tuple l.columns) =
      compare (KeyLayout.entry t row.2 l).key (KeyLayout.entry t row'.2 l).key := by
  obtain ⟨-, -, hfits⟩ := h.accepted_fits ht hrow
  obtain ⟨-, -, hfits'⟩ := h.accepted_fits ht hrow'
  have hknown := (KeyLayout.covers (h.sound t ht) hl).known
  rw [hfits.tuple_restrict hknown, hfits'.tuple_restrict hknown]
  exact (KeyLayout.compare_key (h.sound t ht) hl hfits hfits').symm

end Built

/-! ## All rows of a scan -/

/-- The row that a scan reads from an entry, wherever the entry is. -/
def rowAt (db : Database σ) (sc : Scanner) (e : Cell) : Record :=
  ((sc.at (Cursor.lone e)).read db.rowLookup .empty).2

namespace Built

variable {db : Database σ} {tables : List Table} {rows : List (String × Record)} {tree : Tree}
  {t : Table} {l : KeyLayout} {request : ScanRequest} {policy : MissPolicy} {cursor : Cursor}

theorem rowAt_entry (h : Built db tables rows tree) (ht : t ∈ db.tables.tables)
    (hsuits : request.Suits t l) {row : String × Record} (hrow : row ∈ accepted t l request rows) :
    db.rowAt (request.scanner t l policy cursor) (KeyLayout.entry t row.2 l) =
      row.2.restrict t.columnNames := by
  have hrange : request.inRange l (KeyLayout.entry t row.2 l).key = true := by
    obtain ⟨-, -, hfits⟩ := h.accepted_fits ht hrow
    rw [hsuits.inRange_entry (h.sound t ht) hfits]
    exact (Bool.and_eq_true_iff.mp (List.mem_filter.mp hrow).2).2
  have hentry : Scanner.entry? ((request.scanner t l policy cursor).at
      (Cursor.lone (KeyLayout.entry t row.2 l))) = some (KeyLayout.entry t row.2 l) :=
    Scanner.entry?_at rfl hrange
  rw [rowAt, h.read_eq ht hsuits.layout hrow rfl rfl hentry]

/-- What a scan that begins where the search for the start bound has landed collects: the rows of
all entries between the bounds. -/
theorem collect_eq (h : Built db tables rows tree) (ht : t ∈ db.tables.tables)
    (hsuits : request.Suits t l)
    (htracks : tree.Tracks cursor
      (tree.landing (Scanner.boundKey l request.start) request.start.comparison)) :
    ∃ last, Rows.collect db.source db.rowLookup
        { scanner := request.scanner t l policy cursor } =
      ((request.select l tree.entries).map (db.rowAt (request.scanner t l policy cursor)),
        none, last) := by
  have hread : ∀ e ∈ tree.entries,
      (request.scanner t l policy cursor).inRange e.key = true → ∀ c : Cursor, c.entry? = some e →
        ((request.scanner t l policy cursor).at c).read db.rowLookup .empty =
          (.ok true, db.rowAt (request.scanner t l policy cursor) e) := by
    intro e he hrange c hc
    obtain ⟨row, hrow, rfl⟩ := h.exists_row ht hsuits (ScanRequest.mem_select.mpr ⟨he, hrange⟩)
    rw [h.rowAt_entry ht hsuits hrow]
    exact h.read_eq ht hsuits.layout hrow rfl rfl (Scanner.entry?_at hc hrange)
  obtain ⟨last, hcollect⟩ := Rows.collect_eq h.rooted hread htracks
  have hwindow := h.rooted.takeWhile_onward h.search hsuits.directions
    (Scanner.boundKey l request.start) (Scanner.boundKey l request.stop)
  refine ⟨last, hcollect.trans ?_⟩
  exact congrArg (fun entries : List Cell =>
    (entries.map (db.rowAt (request.scanner t l policy cursor)), none, last)) hwindow

/-- The entries between the bounds, read one after the other, are the accepted rows. -/
theorem map_rowAt_perm (h : Built db tables rows tree) (ht : t ∈ db.tables.tables)
    (hsuits : request.Suits t l) :
    ((request.select l tree.entries).map (db.rowAt (request.scanner t l policy cursor))).Perm
      ((accepted t l request rows).map fun row => row.2.restrict t.columnNames) := by
  have hrows : ((accepted t l request rows).map fun row => KeyLayout.entry t row.2 l).map
      (db.rowAt (request.scanner t l policy cursor)) =
        (accepted t l request rows).map fun row => row.2.restrict t.columnNames := by
    rw [List.map_map]
    exact List.map_congr_left fun row hrow => h.rowAt_entry ht hsuits hrow
  exact hrows ▸ (h.select_perm ht hsuits).map _

/-- And they come in the order of their tuples, since the tree is sorted. -/
theorem pairwise_rowAt (h : Built db tables rows tree) (ht : t ∈ db.tables.tables)
    (hsuits : request.Suits t l) :
    ((request.select l tree.entries).map
      (db.rowAt (request.scanner t l policy cursor))).Pairwise fun r r' =>
        compare (r.tuple l.columns) (r'.tuple l.columns) =
          request.start.comparison.direction.ordering := by
  have hascending : Ascending (tree.entries.filter fun e => request.inRange l e.key) :=
    h.search.ascending.sublist List.filter_sublist
  refine List.pairwise_map.mpr
    ((hascending.pairwise_arrange request.start.comparison.direction).imp_of_mem ?_)
  intro e e' he he' horder
  obtain ⟨row, hrow, rfl⟩ := h.exists_row ht hsuits he
  obtain ⟨row', hrow', rfl⟩ := h.exists_row ht hsuits he'
  rw [h.rowAt_entry ht hsuits hrow, h.rowAt_entry ht hsuits hrow',
    h.compare_restrict ht hsuits.layout hrow hrow', horder]

end Built

/-- A scan that was started on a built database gives, without an error, exactly the rows of the
table that both bounds accept, each as often as it was put in, with all columns in the table's
order, and sorted by the columns of the scanned key in the direction of the start bound. -/
theorem collect_scan [LawfulStorage σ] {store store' : σ} {settings : Settings}
    {tables : List Table} {rows : List (String × Record)} {db : Database σ} {t : Table}
    {request : ScanRequest} {scanner : Scanner} (hstore : LawfulStorage.Sound store)
    (htables : ∀ t ∈ tables, ∃ d : Draft, d.build = .ok t)
    (hbuild : build store settings tables rows = (.ok db, store')) (ht : t ∈ tables)
    (hscan : db.scan t.name request = .ok scanner) :
    scanner.layout ∈ KeyLayout.all t ∧
      ∃ found last,
        Rows.collect db.source db.rowLookup { scanner := scanner } = (found, none, last) ∧
        found.Perm ((accepted t scanner.layout request rows).map
          fun row => row.2.restrict t.columnNames) ∧
        (∀ r ∈ found, r.columns = t.columnNames ∧
          r.values.map Value.type = t.columns.map (·.type)) ∧
        found.Pairwise fun r r' =>
          compare (r.tuple scanner.layout.columns) (r'.tuple scanner.layout.columns) =
            request.start.comparison.direction.ordering := by
  obtain ⟨tree, hbuilt⟩ := build_built hstore htables hbuild
  obtain ⟨u, l, cursor, hfind, hsuits, hseek, rfl⟩ := Scanner.ofRequest_eq_ok hbuilt.sound hscan
  have hmem : t ∈ db.tables.tables := hbuilt.lists.perm.mem_iff.mpr ht
  obtain rfl : t = u := Option.some.inj ((hbuilt.lists.find?_name hmem).symm.trans hfind)
  obtain ⟨landed, hlanded, htracks⟩ := hbuilt.rooted.seek (Scanner.boundKey l request.start)
    request.start.comparison
  obtain rfl : landed = cursor := Except.ok.inj (hlanded.symm.trans hseek)
  obtain ⟨last, hcollect⟩ := hbuilt.collect_eq hmem hsuits htracks
  refine ⟨hsuits.layout, _, last, hcollect, hbuilt.map_rowAt_perm hmem hsuits, ?_,
    hbuilt.pairwise_rowAt hmem hsuits⟩
  intro r hr
  obtain ⟨row, hrow, rfl⟩ := List.mem_map.mp ((hbuilt.map_rowAt_perm hmem hsuits).mem_iff.mp hr)
  exact ⟨rfl, (hbuilt.accepted_fits hmem hrow).2.2.map_type_tuple⟩

/-! ## A small database -/

def townsByName : Index := ⟨"byName", ["name", "id"], 101⟩

def towns : Table := ⟨"towns", [⟨"id", .int64⟩, ⟨"name", .bytes⟩], 1, 100, [townsByName]⟩

/-- Three towns, one of them with its columns the other way around. -/
def townRows : List (String × Record) :=
  [("towns", ⟨["id", "name"], [.int 1, .bytes [98]]⟩),
   ("towns", ⟨["name", "id"], [.bytes [97], .int 2]⟩),
   ("towns", ⟨["id", "name"], [.int (-3), .bytes [98]]⟩)]

/-- The towns of one name, the last one first. -/
def townsDown : ScanRequest where
  start := ⟨.le, ⟨["name"], [.bytes [98]]⟩⟩
  stop := ⟨.ge, ⟨["name"], [.bytes [98]]⟩⟩
  index := some "byName"

/-- With two cells in a node the tree of three towns has several levels, and the scan reads each row
through the index. -/
theorem collect_scan_towns :
    ∃ db store' scanner,
      build ({} : MemoryStore) { maxNodeKeys := 2 } [towns] townRows = (.ok db, store') ∧
      db.scan towns.name townsDown = .ok scanner ∧
      ∃ found last,
        Rows.collect db.source db.rowLookup { scanner := scanner } = (found, none, last) ∧
        found.Perm [⟨["id", "name"], [.int 1, .bytes [98]]⟩,
          ⟨["id", "name"], [.int (-3), .bytes [98]]⟩] ∧
        found.Pairwise fun r r' =>
          compare (r.tuple ["name", "id"]) (r'.tuple ["name", "id"]) = .gt := by
  have hdraft : Draft.build ⟨"towns", [⟨"id", .int64⟩, ⟨"name", .bytes⟩], 1, 100,
      [⟨"byName", ["name"]⟩]⟩ = .ok towns := rfl
  have hruns : (match build ({} : MemoryStore) { maxNodeKeys := 2 } [towns] townRows with
      | (.ok db, _) =>
        match db.scan towns.name townsDown with
        | .ok scanner => decide (scanner.layout = KeyLayout.secondary towns 0 townsByName)
        | .error _ => false
      | (.error _, _) => false) = true := by decide +kernel
  split at hruns
  · next db store' hbuild =>
    split at hruns
    · next scanner hscan =>
      obtain ⟨-, found, last, hcollect, hperm, -, hsorted⟩ := collect_scan (t := towns) trivial
        (fun t ht => ⟨_, List.mem_singleton.mp ht ▸ hdraft⟩) hbuild (List.mem_singleton.mpr rfl)
        hscan
      rw [of_decide_eq_true hruns] at hperm hsorted
      have hfound : (accepted towns (KeyLayout.secondary towns 0 townsByName) townsDown
          townRows).map (fun row => row.2.restrict towns.columnNames) =
            [⟨["id", "name"], [.int 1, .bytes [98]]⟩,
              ⟨["id", "name"], [.int (-3), .bytes [98]]⟩] := by decide +kernel
      exact ⟨db, store', scanner, hbuild, hscan, found, last, hcollect, hfound ▸ hperm, hsorted⟩
    · contradiction
  · contradiction

end Database

end RangeStore
