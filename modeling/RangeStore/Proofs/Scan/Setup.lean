import Mathlib.Data.List.Nodup
import RangeStore.Proofs.Scan.KeyLayout
import RangeStore.Proofs.Scan.Outages
import RangeStore.Proofs.Schema.Draft
import RangeStore.Proofs.Tree.Damage
import RangeStore.Proofs.Tree.Ending
import RangeStore.Proofs.Tree.Image
import RangeStore.Storage.Memory
set_option autoImplicit false

/-! # Which scans start

A request is judged by the catalog alone (`ScanRequest.WellFormed`): its table exists, its bounds
have opposite directions, a key of the table is chosen by name or by the start bound
(`KeyLayout.Chosen`), and both bounds have values of the declared types for the first columns of
this key (`KeyLayout.Matches`). These are exactly the requests that are prepared
(`Scanner.prepare_eq_ok_iff`), and all others are refused with an error of the schema, before
anything is fetched.

What is prepared then only depends on the store. Where pages are read and no way down has an end,
the seek ends, with a cursor or with an error that the store has given. So a scan starts, or fails
for the store, exactly if its request is well-formed (`Scanner.ofRequest_iff_wellFormed`), also when
single fetches fail. -/

namespace RangeStore

/-- The errors that are about tables and requests, not about what is stored. -/
inductive ScanError.OfSchema : ScanError → Prop
  | tableNotFound (name : String) : OfSchema (.tableNotFound name)
  | unindexedQuery (table : String) (columns : List String) :
      OfSchema (.unindexedQuery table columns)
  | indexNotFound (table index : String) : OfSchema (.indexNotFound table index)
  | badRange (start stop : Comparison) : OfSchema (.badRange start stop)
  | typeMismatch (column : String) (expected actual : ColumnType) :
      OfSchema (.typeMismatch column expected actual)

/-! ## Well-formed requests -/

namespace KeyLayout

/-- The key that a scan runs over, by the name of an index if there is one, and otherwise by the
columns of the start bound: the primary key if it begins with them, or the first index that does. -/
inductive Chosen (t : Table) : Option String → List String → KeyLayout → Prop
  | named {columns : List String} {i : Nat} {index : Index} (h : t.indexes[i]? = some index) :
      Chosen t (some index.name) columns (secondary t i index)
  | primary {columns : List String} (h : columns <+: t.keyNames) :
      Chosen t none columns (primary t)
  | first {columns : List String} {i : Nat} {index : Index} (hprimary : ¬ columns <+: t.keyNames)
      (h : t.indexes[i]? = some index) (hcolumns : columns <+: index.columns)
      (hbefore : ∀ (j : Nat) (other : Index), j < i → t.indexes[j]? = some other →
        ¬ columns <+: other.columns) :
      Chosen t none columns (secondary t i index)

/-- The bound lists the first columns of the key, and has as many values, each of the type that is
declared for its column. -/
structure Matches (t : Table) (l : KeyLayout) (bound : Record) : Prop where
  columns : bound.columns <+: l.columns
  length_eq : bound.columns.length = bound.values.length
  types : bound.values.map (fun value => some value.type) = bound.columns.map t.columnType?

end KeyLayout

/-- What a request asks for can be scanned: the table, and over this key. -/
structure ScanRequest.WellFormed (request : ScanRequest) (tables : Catalog) (table : String)
    (t : Table) (l : KeyLayout) : Prop where
  found : tables.find? table = some t
  opposite : request.start.comparison.direction ≠ request.stop.comparison.direction
  chosen : KeyLayout.Chosen t request.index request.start.key.columns l
  start : l.Matches t request.start.key
  stop : l.Matches t request.stop.key

/-! ## Choosing a key -/

namespace KeyLayout

variable {t : Table} {l : KeyLayout} {columns : List String}

/-- The first of the indexes that begins with the columns. -/
theorem find?_secondary_eq_some_iff :
    (t.indexes.zipIdx.map fun p => secondary t p.2 p.1).find? (·.leadsWith columns) = some l ↔
      ∃ i index, t.indexes[i]? = some index ∧ columns <+: index.columns ∧
        (∀ (j : Nat) (other : Index), j < i → t.indexes[j]? = some other →
          ¬ columns <+: other.columns) ∧
        l = secondary t i index := by
  rw [List.find?_eq_some_iff_getElem]
  simp only [List.length_map, List.length_zipIdx, List.getElem_map, List.getElem_zipIdx,
    Nat.zero_add, Bool.not_eq_true', Bool.eq_false_iff, ne_eq, leadsWith_iff]
  constructor
  · rintro ⟨hleads, i, hi, rfl, hbefore⟩
    refine ⟨i, _, List.getElem?_eq_getElem hi, hleads, fun j other hj hother => ?_, rfl⟩
    obtain ⟨-, rfl⟩ := List.getElem?_eq_some_iff.mp hother
    exact hbefore j hj
  · rintro ⟨i, index, hindex, hleads, hbefore, rfl⟩
    obtain ⟨hi, rfl⟩ := List.getElem?_eq_some_iff.mp hindex
    exact ⟨hleads, i, hi, rfl, fun j hj => hbefore j _ hj (List.getElem?_eq_getElem (by omega))⟩

/-- The layouts are gone through from the primary key on. -/
theorem covering_iff_chosen : covering t columns = .ok l ↔ Chosen t none columns l := by
  have hprimary : (primary t).leadsWith columns = true ↔ columns <+: t.keyNames := leadsWith_iff
  rw [covering_eq_ok_iff, all, List.find?_cons_eq_some, find?_secondary_eq_some_iff,
    Bool.not_eq_true', Bool.eq_false_iff, ne_eq, hprimary]
  constructor
  · rintro (⟨h, rfl⟩ | ⟨hprimary, i, index, hindex, hcolumns, hbefore, rfl⟩)
    · exact .primary h
    · exact .first hprimary hindex hcolumns hbefore
  · intro h
    cases h with
    | primary h => exact Or.inl ⟨h, rfl⟩
    | first hprimary hindex hcolumns hbefore =>
      exact Or.inr ⟨hprimary, _, _, hindex, hcolumns, hbefore, rfl⟩

/-- The index of a name is found, for there is no other of this name. -/
theorem named?_iff_chosen (hnames : (t.indexes.map (·.name)).Nodup) {name : String} :
    named? t name = some l ↔ Chosen t (some name) columns l := by
  constructor
  · intro h
    obtain ⟨i, hi, hat⟩ := Option.bind_eq_some_iff.mp h
    obtain ⟨index, hindex, rfl⟩ := Option.map_eq_some_iff.mp hat
    obtain ⟨hlt, hname, -⟩ := List.findIdx?_eq_some_iff_getElem.mp hi
    obtain ⟨hlt', rfl⟩ := List.getElem?_eq_some_iff.mp hindex
    exact eq_of_beq hname ▸ .named hindex
  · intro h
    cases h with
    | @named _ i index hindex =>
      obtain ⟨hlt, rfl⟩ := List.getElem?_eq_some_iff.mp hindex
      have hposition : t.indexPosition? t.indexes[i].name = some i := by
        refine List.findIdx?_eq_some_iff_getElem.mpr ⟨hlt, beq_self_eq_true _, fun j hj heq => ?_⟩
        -- an earlier index of this name would be the same one
        have hj' : j < (t.indexes.map (·.name)).length := by rw [List.length_map]; omega
        have hi' : i < (t.indexes.map (·.name)).length := by rwa [List.length_map]
        have hsame : (t.indexes.map (·.name))[j] = (t.indexes.map (·.name))[i] := by
          rw [List.getElem_map, List.getElem_map]
          exact eq_of_beq heq
        exact absurd ((List.Nodup.getElem_inj_iff hnames).mp hsame) (Nat.ne_of_lt hj)
      rw [named?, hposition, Option.bind_some, atPosition?, hindex]
      rfl

/-! ## Bounds -/

/-- The types that are listed in the layout are those that are declared for its columns. -/
theorem admits_iff_matches (ht : t.Sound) (hl : l ∈ all t) {bound : Record} :
    l.Admits bound ↔ l.Matches t bound := by
  have hsome : Function.Injective (List.map (some : ColumnType → Option ColumnType)) :=
    List.map_injective_iff.mpr fun _ _ => Option.some.inj
  have htypes (hcolumns : bound.columns <+: l.columns)
      (hlength : bound.columns.length = bound.values.length) :
      bound.values.map Value.type <+: l.types ↔
        bound.values.map (fun value => some value.type) = bound.columns.map t.columnType? := by
    -- both sides say what stands in the first columns of the layout
    have hfirst : (l.types.take bound.values.length).map some =
        bound.columns.map t.columnType? := by
      calc (l.types.take bound.values.length).map some
          = (l.types.map some).take bound.values.length := List.map_take
        _ = (l.columns.map t.columnType?).take bound.values.length := by rw [← declares ht hl]
        _ = (l.columns.take bound.values.length).map t.columnType? := List.map_take.symm
        _ = bound.columns.map t.columnType? := by
            rw [← hlength, ← List.prefix_iff_eq_take.mp hcolumns]
    have hvalues : bound.values.map (fun value => some value.type) =
        (bound.values.map Value.type).map some := by
      rw [List.map_map]
      rfl
    rw [List.prefix_iff_eq_take, List.length_map, hvalues, ← hfirst, hsome.eq_iff]
  constructor
  · intro h
    exact ⟨h.columns, h.length_eq, (htypes h.columns h.length_eq).mp h.types⟩
  · intro h
    exact ⟨h.columns, h.length_eq, (htypes h.columns h.length_eq).mpr h.types⟩

theorem checkBound_iff_matches (ht : t.Sound) (hl : l ∈ all t) {bound : Record} :
    l.checkBound t bound = .ok () ↔ l.Matches t bound :=
  (checkBound_eq_ok_iff (length_types ht hl)).trans (admits_iff_matches ht hl)

/-! ## Resolving a request -/

theorem Chosen.mem {index : Option String} (h : Chosen t index columns l) : l ∈ all t := by
  cases h with
  | named h => exact secondary_mem h
  | primary => exact primary_mem t
  | first _ h => exact secondary_mem h

theorem resolve_eq_ok_iff (ht : t.Sound) (hnames : (t.indexes.map (·.name)).Nodup)
    {index : Option String} {start stop : Record} :
    resolve t index start stop = .ok l ↔
      Chosen t index start.columns l ∧ l.Matches t start ∧ l.Matches t stop := by
  constructor
  · intro h
    obtain ⟨hchosen, hstart, hstop⟩ := resolve_steps h
    have hchosen' : Chosen t index start.columns l := by
      cases index with
      | none => exact covering_iff_chosen.mp hchosen
      | some name => exact (named?_iff_chosen hnames).mp hchosen
    have hl := hchosen'.mem
    exact ⟨hchosen', (checkBound_iff_matches ht hl).mp hstart,
      (checkBound_iff_matches ht hl).mp hstop⟩
  · rintro ⟨hchosen, hstart, hstop⟩
    have hl := hchosen.mem
    have hstart' := (checkBound_iff_matches ht hl).mpr hstart
    have hstop' := (checkBound_iff_matches ht hl).mpr hstop
    unfold resolve
    cases index with
    | none =>
      rw [covering_iff_chosen.mpr hchosen]
      simp only [bind, Except.bind, hstart', hstop']
    | some name =>
      simp only [(named?_iff_chosen hnames).mpr hchosen]
      simp only [bind, Except.bind, hstart', hstop']

/-! ## What is refused -/

theorem ofSchema_of_covering {e : ScanError} (h : covering t columns = .error e) : e.OfSchema := by
  unfold covering at h
  split at h
  · contradiction
  · obtain rfl := Except.error.inj h
    exact .unindexedQuery _ _

theorem ofSchema_of_checkTypes {values : List Value} {types : List ColumnType} {e : ScanError}
    (h : checkTypes columns values types = .error e) : e.OfSchema := by
  induction columns generalizing values types with
  | nil => contradiction
  | cons column columns ih =>
    unfold checkTypes at h
    split at h
    · split at h
      · next hcons _ =>
        obtain ⟨rfl, rfl⟩ := List.cons.inj hcons
        exact ih h
      · obtain rfl := Except.error.inj h
        exact .typeMismatch _ _ _
    · contradiction

theorem ofSchema_of_checkBound {bound : Record} {e : ScanError}
    (h : l.checkBound t bound = .error e) : e.OfSchema := by
  unfold checkBound at h
  split at h
  · exact ofSchema_of_checkTypes h
  · obtain rfl := Except.error.inj h
    exact .unindexedQuery _ _

theorem ofSchema_of_resolve {index : Option String} {start stop : Record} {e : ScanError}
    (h : resolve t index start stop = .error e) : e.OfSchema := by
  have hchecked : ∀ {layout : KeyLayout},
      (do layout.checkBound t start; layout.checkBound t stop; Except.ok layout) = .error e →
      e.OfSchema := by
    intro layout herror
    rcases error_of_bind_eq_error herror with hstart | ⟨⟨⟩, -, herror⟩
    · exact ofSchema_of_checkBound hstart
    · rcases error_of_bind_eq_error herror with hstop | ⟨⟨⟩, -, herror⟩
      · exact ofSchema_of_checkBound hstop
      · contradiction
  unfold resolve at h
  cases index with
  | none =>
    rcases error_of_bind_eq_error h with hlayout | ⟨layout, -, hrest⟩
    · exact ofSchema_of_covering hlayout
    · exact hchecked hrest
  | some name =>
    dsimp only at h
    split at h
    · exact hchecked h
    · obtain rfl := Except.error.inj h
      exact .indexNotFound _ _

end KeyLayout

namespace Scanner

variable {tables : Catalog} {table : String} {request : ScanRequest} {t : Table} {l : KeyLayout}

theorem ofSchema_of_prepare {e : ScanError} (h : prepare tables table request = .error e) :
    e.OfSchema := by
  unfold prepare at h
  split at h
  · obtain rfl := Except.error.inj h
    exact .tableNotFound _
  · split at h
    · obtain rfl := Except.error.inj h
      exact .badRange _ _
    · split at h
      · next hresolve =>
        obtain rfl := Except.error.inj h
        exact KeyLayout.ofSchema_of_resolve hresolve
      · contradiction

/-- The requests that are prepared are the well-formed ones. -/
theorem prepare_eq_ok_iff (htables : ∀ t ∈ tables.tables, ∃ d : Draft, d.build = .ok t) :
    prepare tables table request = .ok (t, l) ↔ request.WellFormed tables table t l := by
  have hbuilt (hfound : tables.find? table = some t) :
      t.Sound ∧ (t.indexes.map (·.name)).Nodup := by
    obtain ⟨d, hd⟩ := htables t (List.mem_of_find?_eq_some hfound)
    exact ⟨Draft.sound_of_build hd, Draft.nodup_indexNames_of_build hd⟩
  constructor
  · intro h
    unfold prepare at h
    split at h
    · contradiction
    · next found hfound =>
      split at h
      · contradiction
      · next hopposite =>
        split at h
        · contradiction
        · next layout hresolve =>
          obtain ⟨rfl, rfl⟩ := Prod.mk.inj (Except.ok.inj h)
          obtain ⟨ht, hnames⟩ := hbuilt hfound
          obtain ⟨hchosen, hstart, hstop⟩ := (KeyLayout.resolve_eq_ok_iff ht hnames).mp hresolve
          exact ⟨hfound, hopposite, hchosen, hstart, hstop⟩
  · intro h
    obtain ⟨ht, hnames⟩ := hbuilt h.found
    have hresolve := (KeyLayout.resolve_eq_ok_iff ht hnames).mpr ⟨h.chosen, h.start, h.stop⟩
    simp only [prepare, h.found, if_neg h.opposite, hresolve]

end Scanner

/-! ## Stores -/

/-- An error that a store answers with. Two are none: they stand for a way down without end and for
a position out of its range. -/
def StoreError.Proper (e : StoreError) : Prop := e ≠ .endless ∧ e ≠ .outOfRange

/-- The failing fetches fail with an error of the store. -/
def Outages.Proper (w : Outages) : Prop := ∀ (k : Nat) (e : StoreError), w k = some e → e.Proper

/-- The nodes are read from pages, no way down from the root has a cycle, and fetches fail with
errors of the store. -/
structure NodeSource.Regular (s : NodeSource) (root : PageId) : Prop where
  readsPages : s.ReadsPages
  acyclic : s.Acyclic root
  proper : ∀ (id : PageId) (e : StoreError), s.fetch id = .error e → e.Proper

/-- A seek gives a cursor, or the error of a fetch or of an empty node. -/
theorem NodeSource.Regular.seek {s : NodeSource} {root : PageId} (h : s.Regular root) (key : Bytes)
    (comparison : Comparison) :
    (∃ c, Cursor.seek s root key comparison = .ok c) ∨
      ∃ e, e.Proper ∧ Cursor.seek s root key comparison = .error e := by
  have hendless : s.NeverEndless := fun id hid => (h.proper id .endless hid).1 rfl
  rcases Cursor.seek_outcome h.readsPages root key comparison with ⟨c, hc, -⟩ | ⟨e, he, htrouble⟩
  · exact Or.inl ⟨c, hc⟩
  · refine Or.inr ⟨e, ?_, he⟩
    cases htrouble with
    | fetch hfetch => exact h.proper _ e hfetch
    | emptyNode id => exact ⟨by simp, by simp⟩
    | endless => exact absurd he (Cursor.seek_ends hendless h.acyclic key comparison)

/-- What memory answers for an id without a node is an error of the store. -/
theorem MemoryStore.regular {m : MemoryStore} {root : PageId} (hpages : ∀ n ∈ m.nodes, n.OfPage)
    (hacyclic : m.source.Acyclic root) : m.source.Regular root := by
  refine ⟨fun hfetch => ?_, hacyclic, fun id e herror => ?_⟩
  · exact hpages _ (Array.mem_of_getElem? (fetch_eq_ok hfetch).2)
  · have hnone : e = .pageNotFound id := by
      have hfetch : m.fetch id = .error e := herror
      unfold fetch at hfetch
      split at hfetch
      · exact (Except.error.inj hfetch).symm
      · split at hfetch
        · exact (Except.error.inj hfetch).symm
        · contradiction
    rw [hnone]
    exact ⟨by simp, by simp⟩

/-- The nodes of the tree of two leaves are read from their pages. -/
theorem Tree.regular_forkStore : forkStore.source.Regular 3 := by
  have hleft : NodeDraft.Sound
      { kind := .leaf, cells := #[⟨[0x61], []⟩, ⟨[0x63], []⟩], used := 24 } :=
    ⟨rfl, by decide, fun h => by contradiction⟩
  have hright : NodeDraft.Sound { kind := .leaf, cells := #[⟨[0x65], []⟩], used := 17 } :=
    ⟨rfl, by decide, fun h => by contradiction⟩
  have htop : NodeDraft.Sound
      { kind := .internal, cells := #[.ofChild [0x61] 1, .ofChild [0x65] 2], used := 40 } :=
    ⟨rfl, by decide, fun _ => by decide⟩
  refine MemoryStore.regular (fun n hn => ?_) fork_rooted.toStored.acyclic
  have hnodes : n = leafOf [[0x61], [0x63]] ∨ n = leafOf [[0x65]] ∨
      n = forkOf [0x61] [0x65] := by
    simpa [forkStore] using hn
  rcases hnodes with rfl | rfl | rfl
  · exact ⟨_, hleft.ofPage_finish⟩
  · exact ⟨_, hright.ofPage_finish⟩
  · exact ⟨_, htop.ofPage_finish⟩

namespace Scanner

variable {tables : Catalog} {table : String} {request : ScanRequest} {t : Table} {l : KeyLayout}
  {s : NodeSource} {root : PageId} {policy : MissPolicy}

/-- The result of a scan that has been started: a scanner, or an error of the store. -/
def Started (result : Except ScanError Scanner) : Prop :=
  (∃ scanner, result = .ok scanner) ∨ ∃ e : StoreError, e.Proper ∧ result = .error (.store e)

theorem not_started_of_ofSchema {e : ScanError} (h : e.OfSchema) :
    ¬ Started (.error e) := by
  rintro (⟨scanner, hscanner⟩ | ⟨e', -, he'⟩)
  · contradiction
  · cases Except.error.inj he'
    cases h

/-- Nothing is fetched for a request that is not prepared. -/
theorem ofRequest_of_prepare_error {e : ScanError} (h : prepare tables table request = .error e)
    (s : NodeSource) (root : PageId) (policy : MissPolicy) :
    ofRequest s root tables policy table request = .error e ∧
      Fetching.scanner s root tables policy table request = .done (.error e) := by
  simp only [ofRequest, Fetching.scanner, h, and_self]

/-- For one that is prepared, the result is that of a seek. -/
theorem started_of_prepare (h : prepare tables table request = .ok (t, l)) (hs : s.Regular root)
    (policy : MissPolicy) : Started (ofRequest s root tables policy table request) := by
  simp only [ofRequest, h]
  rcases hs.seek (boundKey l request.start) request.start.comparison with
    ⟨c, hc⟩ | ⟨e, hproper, he⟩
  · simp only [hc]
    exact Or.inl ⟨_, rfl⟩
  · simp only [he]
    exact Or.inr ⟨e, hproper, rfl⟩

/-- The scanner keeps what was prepared. -/
theorem table_eq_of_ofRequest (h : prepare tables table request = .ok (t, l)) {scanner : Scanner}
    (hscanner : ofRequest s root tables policy table request = .ok scanner) :
    scanner.table = t ∧ scanner.layout = l := by
  simp only [ofRequest, h] at hscanner
  split at hscanner
  · contradiction
  · obtain rfl := Except.ok.inj hscanner
    exact ⟨rfl, rfl⟩

/-- Under outages it is that result, or the error of a fetch that has failed. -/
theorem started_runUnder {w : Outages} (hw : w.Proper)
    (h : Started (ofRequest s root tables policy table request)) (k : Nat) :
    Started ((Fetching.scanner s root tables policy table request).runUnder s w k).1 := by
  have houtcome := (Fetching.stops_scanner s root tables policy table request).outcome w k
  rw [Fetching.run_scanner] at houtcome
  generalize (Fetching.scanner s root tables policy table request).runUnder s w k = out at houtcome
  cases houtcome with
  | whole => exact h
  | @cut result e last _ _ hfail hcut => exact Or.inr ⟨e, hw last e hfail, hcut⟩

/-- Scans start for the well-formed requests and for no others. Over every store whose nodes are
read from pages and have no cycle below the root, a scan gives a scanner or an error of the store
exactly if its request is well-formed, also when single fetches fail. A request that is not
well-formed is refused with the same error of the schema over all stores, and nothing is fetched for
it. A well-formed request is for one table and one layout; the layout has one declared type for each
of its columns and lists all of the primary key. -/
theorem ofRequest_iff_wellFormed (tables : Catalog)
    (htables : ∀ t ∈ tables.tables, ∃ d : Draft, d.build = .ok t) (table : String)
    (request : ScanRequest) :
    (∀ (s : NodeSource) (root : PageId) (policy : MissPolicy), s.Regular root →
      (Started (ofRequest s root tables policy table request) ↔
        ∃ t l, request.WellFormed tables table t l) ∧
      ∀ (w : Outages) (k : Nat), w.Proper →
        (Started ((Fetching.scanner s root tables policy table request).runUnder s w k).1 ↔
          ∃ t l, request.WellFormed tables table t l)) ∧
    ((¬ ∃ t l, request.WellFormed tables table t l) →
      ∃ e : ScanError, e.OfSchema ∧ ∀ (s : NodeSource) (root : PageId) (policy : MissPolicy),
        ofRequest s root tables policy table request = .error e ∧
        ∀ (w : Outages) (k : Nat),
          (Fetching.scanner s root tables policy table request).runUnder s w k = (.error e, k)) ∧
    ∀ t l, request.WellFormed tables table t l →
      t.Declares l.columns l.types ∧ (∀ name ∈ t.keyNames, name ∈ l.columns) ∧
      ∀ (s : NodeSource) (root : PageId) (policy : MissPolicy) (scanner : Scanner),
        ofRequest s root tables policy table request = .ok scanner →
          scanner.table = t ∧ scanner.layout = l := by
  have hrefused (hnot : ¬ ∃ t l, request.WellFormed tables table t l) :
      ∃ e, e.OfSchema ∧ prepare tables table request = .error e := by
    cases hprepare : prepare tables table request with
    | error e => exact ⟨e, ofSchema_of_prepare hprepare, rfl⟩
    | ok prepared => exact absurd ⟨_, _, (prepare_eq_ok_iff htables).mp hprepare⟩ hnot
  refine ⟨fun s root policy hs => ?_, fun hnot => ?_, fun t l h => ?_⟩
  · have hstarted (h : ∃ t l, request.WellFormed tables table t l) :
        Started (ofRequest s root tables policy table request) := by
      obtain ⟨t, l, h⟩ := h
      exact started_of_prepare ((prepare_eq_ok_iff htables).mpr h) hs policy
    refine ⟨⟨fun h => ?_, hstarted⟩,
      fun w k hw => ⟨fun h => ?_, fun h => started_runUnder hw (hstarted h) k⟩⟩
    · by_contra hnot
      obtain ⟨e, he, hprepare⟩ := hrefused hnot
      rw [(ofRequest_of_prepare_error hprepare s root policy).1] at h
      exact not_started_of_ofSchema he h
    · by_contra hnot
      obtain ⟨e, he, hprepare⟩ := hrefused hnot
      rw [(ofRequest_of_prepare_error hprepare s root policy).2] at h
      exact not_started_of_ofSchema he h
  · obtain ⟨e, he, hprepare⟩ := hrefused hnot
    refine ⟨e, he, fun s root policy => ?_⟩
    obtain ⟨hresult, hdone⟩ := ofRequest_of_prepare_error hprepare s root policy
    exact ⟨hresult, fun w k => by rw [hdone]; rfl⟩
  · obtain ⟨d, hd⟩ := htables t (List.mem_of_find?_eq_some h.found)
    have ht := Draft.sound_of_build hd
    have hl := h.chosen.mem
    have hprepare := (prepare_eq_ok_iff htables).mpr h
    exact ⟨KeyLayout.declares ht hl, (KeyLayout.covers ht hl).key, fun _ _ _ _ =>
      table_eq_of_ofRequest hprepare⟩

/-! ### Moorings by their numbers -/

/-- The moorings from a number on, up to a bound. -/
def mooringsFrom (stop : Record) : ScanRequest where
  start := ⟨.ge, ⟨["number"], [.int 5]⟩⟩
  stop := ⟨.lt, stop⟩

/-- The start bound chooses the second index. The stop bound may list one column more, but not one
without a value. -/
theorem ofRequest_iff_wellFormed_moorings :
    ∃ tables : Catalog, tables.tables = [(Draft.mooringsDraft 100).table] ∧
      Tree.forkStore.source.Regular 3 ∧
      (∃ l, l.name = "byNumber" ∧
        Started (ofRequest Tree.forkStore.source 3 tables .skip "moorings"
          (mooringsFrom ⟨["number", "depth"], [.int 9, .int 2]⟩)) ∧
        ∃ scanner, ofRequest Tree.forkStore.source 3 tables .skip "moorings"
          (mooringsFrom ⟨["number", "depth"], [.int 9, .int 2]⟩) = .ok scanner ∧
            scanner.layout = l) ∧
      ∃ e : ScanError, e.OfSchema ∧ ∀ (s : NodeSource) (root : PageId),
        ofRequest s root tables .skip "moorings" (mooringsFrom ⟨["number", "depth"], [.int 9]⟩) =
          .error e := by
  let t := (Draft.mooringsDraft 100).table
  have htables : ∀ u ∈ (⟨[t]⟩ : Catalog).tables, ∃ d : Draft, d.build = .ok u := by
    intro u hu
    rw [List.mem_singleton.mp hu]
    exact ⟨Draft.mooringsDraft 100, rfl⟩
  refine ⟨⟨[t]⟩, rfl, Tree.regular_forkStore, ?_, ?_⟩
  · obtain ⟨hstarted, -, hlayout⟩ := ofRequest_iff_wellFormed ⟨[t]⟩ htables "moorings"
      (mooringsFrom ⟨["number", "depth"], [.int 9, .int 2]⟩)
    have hprepare : prepare ⟨[t]⟩ "moorings"
        (mooringsFrom ⟨["number", "depth"], [.int 9, .int 2]⟩) =
          .ok (t, KeyLayout.secondary t 1 ⟨"byNumber", ["number", "depth", "quay"], 102⟩) := rfl
    have hformed := (prepare_eq_ok_iff htables).mp hprepare
    -- in this store no seek fails
    obtain ⟨scanner, hscanner⟩ : ∃ scanner,
        ofRequest Tree.forkStore.source 3 ⟨[t]⟩ .skip "moorings"
          (mooringsFrom ⟨["number", "depth"], [.int 9, .int 2]⟩) = .ok scanner := by
      obtain ⟨cursor, hcursor, -⟩ := Tree.fork_rooted.seek
        (boundKey (KeyLayout.secondary t 1 ⟨"byNumber", ["number", "depth", "quay"], 102⟩)
          (mooringsFrom ⟨["number", "depth"], [.int 9, .int 2]⟩).start)
        (mooringsFrom ⟨["number", "depth"], [.int 9, .int 2]⟩).start.comparison
      exact ⟨_, by simp only [ofRequest, hprepare, hcursor]; rfl⟩
    exact ⟨_, rfl, (hstarted _ 3 .skip Tree.regular_forkStore).1.mpr ⟨_, _, hformed⟩, scanner,
      hscanner, ((hlayout _ _ hformed).2.2 _ 3 .skip scanner hscanner).2⟩
  · obtain ⟨-, hrefused, -⟩ := ofRequest_iff_wellFormed ⟨[t]⟩ htables "moorings"
      (mooringsFrom ⟨["number", "depth"], [.int 9]⟩)
    have hprepare : prepare ⟨[t]⟩ "moorings" (mooringsFrom ⟨["number", "depth"], [.int 9]⟩) =
        .error (.unindexedQuery "moorings" ["number", "depth"]) := rfl
    have hnot : ¬ ∃ u l, ScanRequest.WellFormed
        (mooringsFrom ⟨["number", "depth"], [.int 9]⟩) ⟨[t]⟩ "moorings" u l := by
      rintro ⟨u, l, hformed⟩
      have hok := (prepare_eq_ok_iff htables).mpr hformed
      rw [hprepare] at hok
      contradiction
    obtain ⟨e, he, hsame⟩ := hrefused hnot
    exact ⟨e, he, fun s root => (hsame s root .skip).1⟩

end Scanner

end RangeStore
