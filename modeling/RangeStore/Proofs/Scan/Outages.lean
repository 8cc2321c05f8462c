import RangeStore.Proofs.Tree.Outages
import RangeStore.Scan.Rows
set_option autoImplicit false

/-! # Scans under outages

Scanners and rows, fetch by fetch; the fetches of the row look-ups are among them. Each does over a
source what the scan does (`Fetching.run_scanner`, `Fetching.run_nextEntry`, `Fetching.run_readRow`,
`Fetching.run_nextRow`, `Fetching.run_collectFrom`).

A fetch that fails, be it for the cursor or for a row that is looked up, never makes an entry look
like a missing one: it ends the rows with its error (`Fetching.collect_outcome`). -/

namespace RangeStore

/-- What is left of the rows of a scan when a fetch has failed: the first ones, the error, and
nothing to come. -/
structure Rows.Cut (whole : List Record × Option ScanError × Rows) (e : StoreError)
    (got : List Record × Option ScanError × Rows) : Prop where
  shown : got.1 <+: whole.1
  failed : got.2.1 = some (.store e)
  finished : got.2.2.finished = true

namespace Fetching

variable {s : NodeSource}

/-- A look-up of rows, fetch by fetch. -/
abbrev RowLookup := Table → Record → Fetching (Except ScanError (Option Record))

namespace RowLookup

/-- What the look-up finds over a source. -/
def run (lookup : RowLookup) (s : NodeSource) : RangeStore.RowLookup := fun t key =>
  (lookup t key).run s

/-- The look-up gives up at the first fetch that fails, with its error. -/
def Stops (lookup : RowLookup) (s : NodeSource) : Prop :=
  ∀ t key, (lookup t key).Stops s fun e result => result = .error (.store e)

end RowLookup

/-! ## Scanners -/

/-- `Scanner.ofRequest`, fetch by fetch. -/
def scanner (s : NodeSource) (root : PageId) (tables : Catalog) (missPolicy : MissPolicy)
    (table : String) (request : ScanRequest) : Fetching (Except ScanError Scanner) :=
  match Scanner.prepare tables table request with
  | .error e => .done (.error e)
  | .ok (t, layout) =>
    let startKey := Scanner.boundKey layout request.start
    (seek s root startKey request.start.comparison).map fun
      | .error e => .error (.store e)
      | .ok cursor =>
        .ok ⟨t, layout, request.start.comparison, request.stop.comparison, startKey,
          Scanner.boundKey layout request.stop, missPolicy, cursor⟩

/-- `Scanner.next`, fetch by fetch. -/
def nextEntry (s : NodeSource) (sc : Scanner) : Fetching (Except ScanError Unit × Scanner) :=
  if sc.valid then
    (step s sc.start.direction sc.cursor).map fun
      | (.error e, cursor) => (.error (.store e), { sc with cursor := cursor })
      | (.ok (), cursor) => (.ok (), { sc with cursor := cursor })
  else .done (.ok (), sc)

/-- `Scanner.read`, fetch by fetch. -/
def readRow (sc : Scanner) (lookup : RowLookup) (out : Record) :
    Fetching (Except ScanError Bool × Record) :=
  match sc.entry? with
  | none => .done (.ok false, out)
  | some entry =>
    match sc.layout.choice with
    | .primary =>
      match Row.ofEntry sc.table entry with
      | .error e => .done (.error (.decode e), out)
      | .ok row => .done (.ok true, row)
    | .secondary _ =>
      match Row.keyOfIndexKey sc.table sc.layout.columns sc.layout.types entry.key with
      | .error e => .done (.error (.decode e), out)
      | .ok key => (lookup sc.table key).map fun
        | .error e => (.error e, out)
        | .ok (some row) => (.ok true, row)
        | .ok none =>
          match sc.missPolicy with
          | .skip => (.ok false, .empty)
          | .fail =>
            (.error (.danglingIndexEntry sc.table.name sc.layout.name key.shown), .empty)

theorem run_scanner (s : NodeSource) (root : PageId) (tables : Catalog) (missPolicy : MissPolicy)
    (table : String) (request : ScanRequest) :
    (scanner s root tables missPolicy table request).run s =
      Scanner.ofRequest s root tables missPolicy table request := by
  rw [scanner, Scanner.ofRequest]
  rcases Scanner.prepare tables table request with e | ⟨t, layout⟩
  · rfl
  · simp only
    rw [← run_seek]
    exact run_map s _ _

theorem stops_scanner (s : NodeSource) (root : PageId) (tables : Catalog) (missPolicy : MissPolicy)
    (table : String) (request : ScanRequest) :
    (scanner s root tables missPolicy table request).Stops s fun e result =>
      result = .error (.store e) := by
  rw [scanner]
  split
  · exact .done _
  · exact (stops_seek s root _ _).map fun e a ha => by rw [ha]

theorem run_nextEntry (s : NodeSource) (sc : Scanner) :
    (nextEntry s sc).run s = sc.next s := by
  rw [nextEntry, Scanner.next]
  split
  · rw [← run_step]
    exact run_map s _ _
  · rfl

theorem stops_nextEntry (s : NodeSource) (sc : Scanner) :
    (nextEntry s sc).Stops s fun e result => result.1 = .error (.store e) := by
  rw [nextEntry]
  split
  · exact (stops_step s _ _).map fun e a ha => by rw [ha]
  · exact .done _

theorem run_readRow (s : NodeSource) (sc : Scanner) (lookup : RowLookup) (out : Record) :
    (readRow sc lookup out).run s = sc.read (lookup.run s) out := by
  rw [readRow, Scanner.read]
  cases sc.entry? with
  | none => rfl
  | some entry =>
    simp only
    cases sc.layout.choice with
    | primary =>
      simp only
      cases Row.ofEntry sc.table entry <;> rfl
    | secondary i =>
      simp only
      cases Row.keyOfIndexKey sc.table sc.layout.columns sc.layout.types entry.key with
      | error e => rfl
      | ok key =>
        simp only
        exact run_map s _ _

theorem stops_readRow (sc : Scanner) {lookup : RowLookup} (hlookup : lookup.Stops s)
    (out : Record) :
    (readRow sc lookup out).Stops s fun e result => result.1 = .error (.store e) := by
  rw [readRow]
  split
  · exact .done _
  · split
    · split <;> exact .done _
    · split
      · exact .done _
      · exact (hlookup _ _).map fun e a ha => by rw [ha]

/-! ## Rows -/

/-- `Rows.advance`, fetch by fetch. -/
def advance (s : NodeSource) (lookup : RowLookup) :
    (bound : Nat) → Rows → Fetching (Option (Except ScanError Record) × Rows)
  | 0, r => .done (some (.error (.store .endless)), { r with finished := true })
  | bound + 1, r =>
    (if r.started then nextEntry s r.scanner else .done (.ok (), r.scanner)).bind fun
      | (.error e, sc) => .done (some (.error e), ⟨sc, true, true⟩)
      | (.ok (), sc) =>
        if sc.valid then
          (readRow sc lookup .empty).bind fun
            | (.error e, _) => .done (some (.error e), ⟨sc, true, true⟩)
            | (.ok true, row) => .done (some (.ok row), ⟨sc, true, false⟩)
            | (.ok false, _) => advance s lookup bound ⟨sc, true, false⟩
        else .done (none, ⟨sc, true, true⟩)

/-- `Rows.next`, fetch by fetch. -/
def nextRow (s : NodeSource) (lookup : RowLookup) (r : Rows) :
    Fetching (Option (Except ScanError Record) × Rows) :=
  if r.finished then .done (none, r) else advance s lookup (r.scanner.cursor.walkBound s) r

/-- `Rows.collectFrom`, fetch by fetch. -/
def collectFrom (s : NodeSource) (lookup : RowLookup) :
    (bound : Nat) → Rows → Fetching (List Record × Option ScanError × Rows)
  | 0, r => .done ([], some (.store .endless), r)
  | bound + 1, r =>
    (nextRow s lookup r).bind fun
      | (none, r) => .done ([], none, r)
      | (some (.error e), r) => .done ([], some e, r)
      | (some (.ok row), r) => (collectFrom s lookup bound r).map fun
        | (rows, failure, r) => (row :: rows, failure, r)

/-- `Rows.collect`, fetch by fetch. -/
def collect (s : NodeSource) (lookup : RowLookup) (r : Rows) :
    Fetching (List Record × Option ScanError × Rows) :=
  collectFrom s lookup (r.scanner.cursor.walkBound s) r

variable {lookup : RowLookup}

theorem run_advance (s : NodeSource) (lookup : RowLookup) (bound : Nat) (r : Rows) :
    (advance s lookup bound r).run s = r.advance s (lookup.run s) bound := by
  induction bound generalizing r with
  | zero => rfl
  | succ bound ih =>
    have harrive : (if r.started then nextEntry s r.scanner else .done (.ok (), r.scanner)).run s =
        if r.started then r.scanner.next s else (.ok (), r.scanner) := by
      split
      · exact run_nextEntry s r.scanner
      · rfl
    rw [advance, run_bind, harrive, Rows.advance]
    rcases if r.started then r.scanner.next s else (.ok (), r.scanner) with ⟨_ | _, sc⟩
    · rfl
    · simp only
      split
      · rw [run_bind, run_readRow]
        rcases sc.read (lookup.run s) .empty with ⟨_ | _ | _, row⟩
        · rfl
        · exact ih _
        · rfl
      · rfl

theorem run_nextRow (s : NodeSource) (lookup : RowLookup) (r : Rows) :
    (nextRow s lookup r).run s = r.next s (lookup.run s) := by
  rw [nextRow, Rows.next]
  split
  · rfl
  · exact run_advance s lookup _ r

theorem run_collectFrom (s : NodeSource) (lookup : RowLookup) (bound : Nat) (r : Rows) :
    (collectFrom s lookup bound r).run s = r.collectFrom s (lookup.run s) bound := by
  induction bound generalizing r with
  | zero => rfl
  | succ bound ih =>
    rw [collectFrom, run_bind, run_nextRow, Rows.collectFrom]
    rcases r.next s (lookup.run s) with ⟨_ | _ | row, r'⟩
    · rfl
    · rfl
    · simp only
      rw [run_map, ih]

/-! ## The end of the rows -/

/-- After an answer that is no row, whatever the fetches answer, there is nothing to come. -/
theorem ensures_advance (s : NodeSource) (lookup : RowLookup) (bound : Nat) (r : Rows) :
    (advance s lookup bound r).Ensures fun result =>
      (∃ row, result.1 = some (.ok row)) ∨ result.2.finished = true := by
  induction bound generalizing r with
  | zero => exact .done (.inr rfl)
  | succ bound ih =>
    rw [advance]
    refine (Ensures.trivial _).bind fun stepped _ => ?_
    rcases stepped with ⟨_ | _, sc⟩
    · exact .done (.inr rfl)
    · simp only
      split
      · refine (Ensures.trivial _).bind fun read _ => ?_
        rcases read with ⟨_ | _ | _, row⟩
        · exact .done (.inr rfl)
        · exact ih _
        · exact .done (.inl ⟨row, rfl⟩)
      · exact .done (.inr rfl)

theorem ensures_nextRow (s : NodeSource) (lookup : RowLookup) (r : Rows) :
    (nextRow s lookup r).Ensures fun result =>
      (∃ row, result.1 = some (.ok row)) ∨ result.2.finished = true := by
  rw [nextRow]
  split
  · exact .done (.inr ‹_›)
  · exact ensures_advance s lookup _ r

theorem stops_advance (hlookup : lookup.Stops s) (bound : Nat) (r : Rows) :
    (advance s lookup bound r).Stops s fun e result =>
      result.1 = some (.error (.store e)) ∧ result.2.finished = true := by
  induction bound generalizing r with
  | zero => exact .done _
  | succ bound ih =>
    have harrive : (if r.started then nextEntry s r.scanner else .done (.ok (), r.scanner)).Stops s
        fun e result => result.1 = .error (.store e) := by
      split
      · exact stops_nextEntry s r.scanner
      · exact .done _
    rw [advance]
    refine harrive.bind ?_ ?_
    · -- the step of the scanner fails
      rintro e ⟨_, sc⟩ rfl
      exact ⟨_, rfl, rfl, rfl⟩
    · split
      · exact .done _
      · split
        · refine (stops_readRow _ hlookup _).bind ?_ ?_
          · -- the look-up fails, and the entry is not passed over
            rintro e ⟨_, row⟩ rfl
            exact ⟨_, rfl, rfl, rfl⟩
          · split
            · exact .done _
            · exact .done _
            · exact ih _
        · exact .done _

theorem stops_nextRow (hlookup : lookup.Stops s) (r : Rows) :
    (nextRow s lookup r).Stops s fun e result =>
      result.1 = some (.error (.store e)) ∧ result.2.finished = true := by
  rw [nextRow]
  split
  · exact .done _
  · exact stops_advance hlookup _ r

theorem stops_collectFrom (hlookup : lookup.Stops s) (bound : Nat) (r : Rows) :
    (collectFrom s lookup bound r).Stops s (Rows.Cut (r.collectFrom s (lookup.run s) bound)) := by
  induction bound generalizing r with
  | zero => exact .done _
  | succ bound ih =>
    rw [collectFrom, Rows.collectFrom]
    refine (stops_nextRow hlookup r).bind ?_ ?_
    · rintro e ⟨_, last⟩ ⟨rfl, hfinished⟩
      exact ⟨_, rfl, List.nil_prefix, rfl, hfinished⟩
    · rw [run_nextRow]
      rcases r.next s (lookup.run s) with ⟨_ | _ | row, r'⟩
      · exact .done _
      · exact .done _
      · exact (ih r').map fun e got hgot =>
          ⟨(List.prefix_cons_inj row).mpr hgot.shown, hgot.failed, hgot.finished⟩

/-- Rows that have been collected without an error are finished. -/
theorem ensures_collectFrom (s : NodeSource) (lookup : RowLookup) (bound : Nat) (r : Rows) :
    (collectFrom s lookup bound r).Ensures fun result =>
      result.2.1 = none → result.2.2.finished = true := by
  induction bound generalizing r with
  | zero => exact .done fun h => by cases h
  | succ bound ih =>
    rw [collectFrom]
    refine (ensures_nextRow s lookup r).bind fun answered hlast => ?_
    rcases answered with ⟨_ | _ | row, r'⟩
    · exact .done fun _ => hlast.resolve_left fun ⟨_, h⟩ => by cases h
    · exact .done fun h => by cases h
    · exact (ih r').map fun _ h => h

/-- Finished rows give no more, and nothing is fetched for them. -/
theorem nextRow_of_finished {r : Rows} (h : r.finished = true) (s : NodeSource)
    (lookup : RowLookup) : nextRow s lookup r = .done (none, r) := by
  rw [nextRow, if_pos h]

/-- Of rows that would end without an error the first ones are collected, up to the first failing
fetch, and then there are no more. -/
theorem collect_outcome (hlookup : lookup.Stops s) {r last : Rows} {all : List Record}
    (hwhole : r.collect s (lookup.run s) = (all, none, last)) (w : Outages) (k : Nat) :
    ∃ got failure left k', (collect s lookup r).runUnder s w k = ((got, failure, left), k') ∧
      got <+: all ∧
      Outcome w (Rows.Cut (all, none, last)) (all, none, last) k ((got, failure, left), k') ∧
      ∀ (w : Outages) (k : Nat), (nextRow s lookup left).runUnder s w k = ((none, left), k) := by
  have houtcome : Outcome w (Rows.Cut (all, none, last)) (all, none, last) k
      ((collect s lookup r).runUnder s w k) := by
    have hstops := (stops_collectFrom hlookup (r.scanner.cursor.walkBound s) r).outcome w k
    rw [run_collectFrom] at hstops
    exact hwhole ▸ hstops
  have hended := (ensures_collectFrom s lookup (r.scanner.cursor.walkBound s) r).runUnder s w k
  have hfinished : ((collect s lookup r).runUnder s w k).1.2.2.finished = true := by
    refine (houtcome.of (P := fun out => out.2.1 = none ∨ out.2.2.finished = true) (.inl rfl)
      fun e out hcut => .inr hcut.finished).elim hended id
  refine ⟨_, _, _, _, rfl, ?_, houtcome, fun w k => ?_⟩
  · exact houtcome.of (P := fun out => out.1 <+: all) (List.prefix_refl _)
      fun e out hcut => hcut.shown
  · rw [nextRow_of_finished hfinished]
    rfl

end Fetching

end RangeStore
