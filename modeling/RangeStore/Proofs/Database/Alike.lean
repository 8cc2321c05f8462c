import RangeStore.Proofs.Database.Scan
set_option autoImplicit false

/-! # Databases that answer alike

What a database answers depends on its tables and on the tree below its root, but not on the store
that keeps the tree: two built databases with the same tables and the same tree give the same rows
for every look-up (`Built.get_eq`) and every scan (`Built.rows_eq`). A search in either store finds
its way to the same index of the tree, and the entry there is the tree's. -/

namespace RangeStore

/-- Two stores have the same nodes under the same ids. -/
def NodeSource.SameNodes (s s' : NodeSource) : Prop :=
  ∀ {id : PageId} {n : Node}, s.fetch id = .ok n ↔ s'.fetch id = .ok n

/-- A search for a key finds the same entry in all stores that keep the tree. -/
theorem Tree.Rooted.entry?_seek {s s' : NodeSource} {root root' : PageId} {t : Tree}
    (h : t.Rooted s root) (h' : t.Rooted s' root') (key : Bytes) (c : Comparison) :
    ∃ cursor cursor', Cursor.seek s root key c = .ok cursor ∧
      Cursor.seek s' root' key c = .ok cursor' ∧ cursor.entry? = cursor'.entry? := by
  obtain ⟨cursor, hcursor, htracks⟩ := h.seek key c
  obtain ⟨cursor', hcursor', htracks'⟩ := h'.seek key c
  exact ⟨cursor, cursor', hcursor, hcursor', htracks.entry?_eq.trans htracks'.entry?_eq.symm⟩

namespace Database

/-- All rows of a scan, and the error that has ended them early. -/
def rows {σ : Type} [Storage σ] (db : Database σ) (table : String) (request : ScanRequest) :
    Except ScanError (List Record × Option ScanError) :=
  match db.scan table request with
  | .error e => .error e
  | .ok scanner =>
    match Rows.collect db.source db.rowLookup { scanner := scanner } with
    | (found, failure, _) => .ok (found, failure)

/-- Two databases have the same root, the same nodes and the same tables, and answer every look-up
and every scan alike. -/
structure Alike {σ τ : Type} [Storage σ] [Storage τ] (db : Database σ) (other : Database τ) :
    Prop where
  root_eq : db.root = other.root
  sameNodes : db.source.SameNodes other.source
  tables_eq : db.tables = other.tables
  get_eq : ∀ table key, db.get table key = other.get table key
  rows_eq : ∀ table request, db.rows table request = other.rows table request

namespace Built

variable {σ τ : Type} [Storage σ] [Storage τ] {db : Database σ} {other : Database τ}
  {tables : List Table} {content : List (String × Record)} {tree : Tree}

theorem rowLookup_eq (h : Built db tables content tree) (h' : Built other tables content tree) :
    db.rowLookup = other.rowLookup := by
  funext t key
  unfold rowLookup lookup
  cases keyValues t key t.primaryKey with
  | error e => rfl
  | ok values =>
    obtain ⟨cursor, cursor', hcursor, hcursor', hentry⟩ :=
      h.rooted.entry?_seek h'.rooted (Tuple.encodeKey t.keySpace values) .ge
    simp only [hcursor, hcursor', hentry]

/-- Every look-up gives the same. -/
theorem get_eq (h : Built db tables content tree) (h' : Built other tables content tree)
    (htables : db.tables = other.tables) (table : String) (key : Record) :
    db.get table key = other.get table key := by
  unfold Database.get
  rw [htables, h.rowLookup_eq h']

/-- A scan of a table begins where the search for the start bound lands, if the request is
well-formed. -/
theorem scan_eq (h : Built db tables content tree) (table : String) (request : ScanRequest) :
    (∃ e, Scanner.prepare db.tables table request = .error e ∧ db.scan table request = .error e) ∨
    ∃ t l cursor, Scanner.prepare db.tables table request = .ok (t, l) ∧
      t ∈ db.tables.tables ∧ request.Suits t l ∧
      tree.Tracks cursor
        (tree.landing (Scanner.boundKey l request.start) request.start.comparison) ∧
      db.scan table request = .ok (request.scanner t l db.settings.missPolicy cursor) := by
  cases hprepare : Scanner.prepare db.tables table request with
  | error e => exact Or.inl ⟨e, rfl, by rw [scan, Scanner.ofRequest, hprepare]⟩
  | ok pair =>
    obtain ⟨t, l⟩ := pair
    obtain ⟨cursor, hcursor, htracks⟩ :=
      h.rooted.seek (Scanner.boundKey l request.start) request.start.comparison
    have hscan : db.scan table request =
        .ok (request.scanner t l db.settings.missPolicy cursor) := by
      simp only [scan, Scanner.ofRequest, hprepare, hcursor]
      rfl
    obtain ⟨u, l', cursor', hfind, hsuits, -, heq⟩ := Scanner.ofRequest_eq_ok h.sound hscan
    obtain ⟨rfl, rfl, -⟩ := Scanner.mk.inj heq
    exact Or.inr ⟨t, l, cursor, rfl, List.mem_of_find?_eq_some hfind, hsuits, htracks, hscan⟩

/-- Every scan gives the same. -/
theorem rows_eq (h : Built db tables content tree) (h' : Built other tables content tree)
    (htables : db.tables = other.tables) (table : String) (request : ScanRequest) :
    db.rows table request = other.rows table request := by
  unfold rows
  have hother := h'.scan_eq table request
  rw [← htables] at hother
  rcases h.scan_eq table request with
    ⟨e, hprepare, hscan⟩ | ⟨t, l, cursor, hprepare, ht, hsuits, htracks, hscan⟩
  · rcases hother with ⟨e', hprepare', hscan'⟩ | ⟨t', l', cursor', hprepare', -⟩
    · obtain rfl := Except.error.inj (hprepare.symm.trans hprepare')
      rw [hscan, hscan']
    · rw [hprepare] at hprepare'
      contradiction
  · rcases hother with ⟨e', hprepare', -⟩ | ⟨t', l', cursor', hprepare', ht', -, htracks', hscan'⟩
    · rw [hprepare] at hprepare'
      contradiction
    · -- both scanners follow the same entries of the tree to their end
      obtain ⟨rfl, rfl⟩ := Prod.mk.inj (Except.ok.inj (hprepare.symm.trans hprepare'))
      obtain ⟨last, hcollect⟩ : ∃ last, Rows.collect db.source db.rowLookup
          { scanner := request.scanner t l db.settings.missPolicy cursor } = (_, none, last) :=
        h.collect_eq ht hsuits htracks
      obtain ⟨last', hcollect'⟩ : ∃ last, Rows.collect other.source other.rowLookup
          { scanner := request.scanner t l other.settings.missPolicy cursor' } = (_, none, last) :=
        h'.collect_eq (htables ▸ ht) hsuits htracks'
      rw [hscan, hscan']
      simp only [hcollect, hcollect']
      -- both read the same row from each entry between the bounds
      refine congrArg (fun found => Except.ok (found, none)) (List.map_congr_left fun e he => ?_)
      obtain ⟨row, hrow, rfl⟩ := h.exists_row ht hsuits he
      rw [h.rowAt_entry ht hsuits hrow, h'.rowAt_entry (htables ▸ ht) hsuits hrow]

/-- Built databases that keep the same tree are alike, if all their nodes are the same. -/
theorem alike (h : Built db tables content tree) (h' : Built other tables content tree)
    (htables : db.tables = other.tables) (hroot : db.root = other.root)
    (hnodes : db.source.SameNodes other.source) : Alike db other where
  root_eq := hroot
  sameNodes := hnodes
  tables_eq := htables
  get_eq := h.get_eq h' htables
  rows_eq := h.rows_eq h' htables

end Built

end Database

end RangeStore
