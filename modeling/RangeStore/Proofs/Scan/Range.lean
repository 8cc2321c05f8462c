import RangeStore.Proofs.Scan.KeyLayout
import RangeStore.Proofs.Tree.Window
import RangeStore.Proofs.Tuple.Bound
import RangeStore.Scan.Scanner
set_option autoImplicit false

/-! # Ranges of scans

Whether an entry lies between the bounds of a scan can be told from the row it belongs to: in the
layout of the scan the row's first columns have to stand in the bounds' comparisons to their values
(`ScanRequest.Suits.inRange_entry`), and in any other key space no entry lies between the bounds,
since one bound leaves out the key spaces above and the other those below
(`ScanRequest.Suits.inRange_other`). -/

namespace RangeStore

/-- The bound accepts a row in a layout: the row's values in the first columns, as many as the bound
has values, stand in the comparison to these. -/
def Bound.admits (b : Bound) (l : KeyLayout) (r : Record) : Bool :=
  b.comparison.accepts (compare (r.tuple (l.columns.take b.key.values.length)) b.key.values)

/-- Whether a key lies between two bounds in a layout. -/
def ScanRequest.inRange (request : ScanRequest) (l : KeyLayout) (key : Bytes) : Bool :=
  request.start.comparison.holds key (Scanner.boundKey l request.start) &&
    request.stop.comparison.holds key (Scanner.boundKey l request.stop)

/-- Both bounds accept a row in a layout. -/
def ScanRequest.admits (request : ScanRequest) (l : KeyLayout) (r : Record) : Bool :=
  request.start.admits l r && request.stop.admits l r

/-- The entries between the bounds, in the direction of the scan. -/
def ScanRequest.select (request : ScanRequest) (l : KeyLayout) (entries : List Cell) : List Cell :=
  request.start.comparison.direction.arrange (entries.filter fun e => request.inRange l e.key)

theorem ScanRequest.mem_select {request : ScanRequest} {l : KeyLayout} {entries : List Cell}
    {e : Cell} : e ∈ request.select l entries ↔ e ∈ entries ∧ request.inRange l e.key = true := by
  rw [select, (request.start.comparison.direction.arrange_perm _).mem_iff, List.mem_filter]

/-- The request can be answered in a layout of a table: its bounds have values for the first columns
and lie on opposite sides. -/
structure ScanRequest.Suits (request : ScanRequest) (t : Table) (l : KeyLayout) : Prop where
  layout : l ∈ KeyLayout.all t
  directions : request.start.comparison.direction ≠ request.stop.comparison.direction
  start : l.Admits request.start.key
  stop : l.Admits request.stop.key

/-- The scan of a layout that a request asks for, with its cursor. -/
def ScanRequest.scanner (request : ScanRequest) (t : Table) (l : KeyLayout) (policy : MissPolicy)
    (cursor : Cursor) : Scanner :=
  ⟨t, l, request.start.comparison, request.stop.comparison, Scanner.boundKey l request.start,
    Scanner.boundKey l request.stop, policy, cursor⟩

/-- What starting a scan does when it succeeds: there is the table, the bounds lie on opposite sides
and resolve to a layout, and the cursor comes from a search for the start bound. -/
theorem Scanner.ofRequest_steps {s : NodeSource} {root : PageId} {tables : Catalog}
    {policy : MissPolicy} {name : String} {request : ScanRequest} {sc : Scanner}
    (h : ofRequest s root tables policy name request = .ok sc) :
    ∃ t l cursor, tables.find? name = some t ∧
      request.start.comparison.direction ≠ request.stop.comparison.direction ∧
      KeyLayout.resolve t request.index request.start.key request.stop.key = .ok l ∧
      Cursor.seek s root (boundKey l request.start) request.start.comparison = .ok cursor ∧
      sc = request.scanner t l policy cursor := by
  unfold ofRequest prepare at h
  cases ht : tables.find? name with
  | none =>
    simp only [ht] at h
    contradiction
  | some t =>
    simp only [ht] at h
    by_cases hdir : request.start.comparison.direction = request.stop.comparison.direction
    · simp only [if_pos hdir] at h
      contradiction
    · simp only [if_neg hdir] at h
      cases hl : KeyLayout.resolve t request.index request.start.key request.stop.key with
      | error e =>
        simp only [hl] at h
        contradiction
      | ok l =>
        simp only [hl] at h
        split at h
        · contradiction
        · next cursor hcursor =>
          exact ⟨t, l, cursor, rfl, hdir, hl, hcursor, (Except.ok.inj h).symm⟩

/-- If the tables are sound, the request then suits one of the table's layouts. -/
theorem Scanner.ofRequest_eq_ok {s : NodeSource} {root : PageId} {tables : Catalog}
    {policy : MissPolicy} {name : String} {request : ScanRequest} {sc : Scanner}
    (hsound : ∀ t ∈ tables.tables, t.Sound)
    (h : ofRequest s root tables policy name request = .ok sc) :
    ∃ t l cursor, tables.find? name = some t ∧ request.Suits t l ∧
      Cursor.seek s root (boundKey l request.start) request.start.comparison = .ok cursor ∧
      sc = request.scanner t l policy cursor := by
  obtain ⟨t, l, cursor, ht, hdir, hl, hcursor, hsc⟩ := ofRequest_steps h
  obtain ⟨hlayout, hstart, hstop⟩ :=
    KeyLayout.resolve_eq_ok (hsound t (List.mem_of_find?_eq_some ht)) hl
  exact ⟨t, l, cursor, ht, ⟨hlayout, hdir, hstart, hstop⟩, hcursor, hsc⟩

namespace KeyLayout

variable {t : Table} {l : KeyLayout}

/-- A bound of a scan accepts the key of a row if it accepts the row. -/
theorem holds_boundKey (ht : t.Sound) (hl : l ∈ all t) {b : Bound} (hb : l.Admits b.key)
    {r : Record} (hr : r.Fits t.columns) :
    b.comparison.holds (l.key r) (Scanner.boundKey l b) = b.admits l r := by
  have hcovers := covers ht hl
  have htypes : (r.tuple l.columns).map Value.type = l.types := by
    rw [types_eq ht hl, hr.map_type_tuple_of_known hcovers.known]
  have hprefix : b.key.values.map Value.type <+: (r.tuple l.columns).map Value.type :=
    htypes.symm ▸ hb.types
  have hholds := Tuple.holds_encodeBound l.keySpace (r.tuple l.columns) b.key.values b.comparison
    hprefix
  rw [htypes] at hholds
  rw [Bound.admits, ← ((hr.has.sublist hcovers.known).take_drop_tuple b.key.values.length).1]
  exact hholds

end KeyLayout

namespace ScanRequest.Suits

variable {request : ScanRequest} {t : Table} {l : KeyLayout}

/-- The key of a row lies between the bounds if they accept the row. -/
theorem inRange_entry (h : request.Suits t l) (ht : t.Sound) {r : Record} (hr : r.Fits t.columns) :
    request.inRange l (KeyLayout.entry t r l).key = request.admits l r := by
  rw [admits, ← KeyLayout.holds_boundKey ht h.layout h.start hr,
    ← KeyLayout.holds_boundKey ht h.layout h.stop hr]
  rfl

/-- Nothing of another key space lies between the bounds: it would have to be greater and smaller
than the scan's. -/
theorem inRange_other (h : request.Suits t l) {space : UInt32} (hspace : space ≠ l.keySpace)
    (values : List Value) : request.inRange l (Tuple.encodeKey space values) = false := by
  -- outside the key space of a bound only the number of the key space is compared
  have hdir := h.directions
  refine Bool.eq_false_iff.mpr fun hboth => ?_
  obtain ⟨hstart, hstop⟩ := Bool.and_eq_true_iff.mp hboth
  unfold Scanner.boundKey at hstart hstop
  rw [Tuple.holds_encodeBound_of_ne hspace, Comparison.accepts_compare_iff _ hspace] at hstart hstop
  cases hd : request.start.comparison.direction with
  | ascending =>
    cases hd' : request.stop.comparison.direction with
    | ascending => exact hdir (hd.trans hd'.symm)
    | descending =>
      rw [hd] at hstart
      rw [hd'] at hstop
      exact UInt32.lt_asymm hstart hstop
  | descending =>
    cases hd' : request.stop.comparison.direction with
    | ascending =>
      rw [hd] at hstart
      rw [hd'] at hstop
      exact UInt32.lt_asymm hstart hstop
    | descending => exact hdir (hd.trans hd'.symm)

end ScanRequest.Suits

end RangeStore
