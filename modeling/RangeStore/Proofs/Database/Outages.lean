import RangeStore.Proofs.Database.Scan
import RangeStore.Proofs.Scan.Outages
set_option autoImplicit false

/-! # Scans of built databases under outages

However the single fetches fail, a scan shows no wrong rows: what it gives before the first failing
fetch is the beginning of what it would give without, and then it gives the error and nothing else
(`Database.outages_keep_prefix`).

The look-ups of rows through an index seek in the tree on their own, and their fetches fail as those
of the scan do. Over a plain source all of this is what the database does (`Fetching.run_scan`,
`Fetching.run_rowLookup`, `Fetching.run_collectFrom`). -/

namespace RangeStore

namespace Fetching

variable {σ : Type} [Storage σ]

/-- `Database.lookup`, fetch by fetch. -/
def lookup (s : NodeSource) (root : PageId) : RowLookup := fun t key =>
  match Database.keyValues t key t.primaryKey with
  | .error e => .done (.error e)
  | .ok values =>
    let sought := Tuple.encodeKey t.keySpace values
    (seek s root sought .ge).map fun
      | .error e => .error (.store e)
      | .ok cursor =>
        match cursor.entry? with
        | none => .ok none
        | some entry =>
          if entry.key = sought then
            match Row.ofEntry t entry with
            | .error e => .error (.decode e)
            | .ok row => .ok (some row)
          else .ok none

/-- `Database.scan`, fetch by fetch. -/
def scan (db : Database σ) (table : String) (request : ScanRequest) :
    Fetching (Except ScanError Scanner) :=
  scanner db.source db.root db.tables db.settings.missPolicy table request

/-- `Database.rowLookup`, fetch by fetch. -/
def rowLookup (db : Database σ) : RowLookup := lookup db.source db.root

theorem run_lookup (s : NodeSource) (root : PageId) :
    (lookup s root).run s = Database.lookup s root := by
  funext t key
  rw [RowLookup.run, lookup, Database.lookup]
  cases Database.keyValues t key t.primaryKey with
  | error e => rfl
  | ok values =>
    simp only
    rw [← run_seek]
    exact run_map s _ _

theorem stops_lookup (s : NodeSource) (root : PageId) : (lookup s root).Stops s := by
  intro t key
  rw [lookup]
  split
  · exact .done _
  · exact (stops_seek s root _ _).map fun e a ha => by rw [ha]

theorem run_scan (db : Database σ) (table : String) (request : ScanRequest) :
    (scan db table request).run db.source = db.scan table request :=
  run_scanner _ _ _ _ _ _

theorem run_rowLookup (db : Database σ) : (rowLookup db).run db.source = db.rowLookup :=
  run_lookup db.source db.root

theorem stops_rowLookup (db : Database σ) : (rowLookup db).Stops db.source :=
  stops_lookup db.source db.root

end Fetching

namespace Database

variable {σ : Type} [Storage σ]

/-- Without failures a scan that was started ends without an error. -/
theorem Built.collect_of_scan {db : Database σ} {tables : List Table}
    {rows : List (String × Record)} {tree : Tree} (h : Built db tables rows tree) {table : String}
    {request : ScanRequest} {scanner : Scanner} (hscan : db.scan table request = .ok scanner) :
    ∃ all last, Rows.collect db.source db.rowLookup { scanner := scanner } = (all, none, last) := by
  obtain ⟨t, l, cursor, hfind, hsuits, hseek, rfl⟩ := Scanner.ofRequest_eq_ok h.sound hscan
  exact ⟨_, h.collect_eq (List.mem_of_find?_eq_some hfind) hsuits (h.rooted.tracks_of_seek hseek)⟩

/-- Failing fetches never harm what is shown, in whatever combination they fail.

A search that succeeds gives the same cursor as without failures. A walk from there shows all
entries onward, each key once and in order, if no fetch fails, and otherwise the first ones of them
up to the failing fetch. A step that fails leaves a cursor on no entry, which stays where it is.

A scan of a built database that has been started gives all its rows if no fetch fails, and otherwise
the first ones of them and the error of the failing fetch; then there is nothing more. -/
theorem outages_keep_prefix [LawfulStorage σ] :
    (∀ {s : NodeSource} {root : PageId} {t : Tree}, t.Rooted s root → t.Search →
      ∀ {w : Outages} {k k' : Nat} {key : Bytes} {cmp : Comparison} {c : Cursor},
        (Fetching.seek s root key cmp).runUnder s w k = (.ok c, k') →
        Cursor.seek s root key cmp = .ok c ∧ ∀ d : Direction,
          (c.walk s d).entries = d.onward t.entries (t.landing key cmp) ∧
          (c.walk s d).entries.Pairwise (fun a b => compare a.key b.key = d.ordering) ∧
          (c.walk s d).failure = none ∧
          ((Fetching.walk s d c).runUnder s w k').1.entries <+: (c.walk s d).entries ∧
          Fetching.Outcome w (c.walk s d).Cut (c.walk s d) k'
            ((Fetching.walk s d c).runUnder s w k')) ∧
    (∀ {s : NodeSource} {w : Outages} {k k' : Nat} {d : Direction} {c moved : Cursor}
      {e : StoreError}, (Fetching.step s d c).runUnder s w k = ((.error e, moved), k') →
        moved.valid = false ∧ moved.depth = 0 ∧ ∀ (d : Direction) (w : Outages) (k : Nat),
          (Fetching.step s d moved).runUnder s w k = ((.ok (), moved), k)) ∧
    ∀ {store store' : σ} {settings : Settings} {tables : List Table}
      {rows : List (String × Record)} {db : Database σ}, LawfulStorage.Sound store →
      (∀ t ∈ tables, ∃ d : Draft, d.build = .ok t) →
      build store settings tables rows = (.ok db, store') →
      ∀ {w : Outages} {k k' : Nat} {table : String} {request : ScanRequest} {scanner : Scanner},
        (Fetching.scan db table request).runUnder db.source w k = (.ok scanner, k') →
        ∃ all last got failure left k'',
          Rows.collect db.source db.rowLookup { scanner := scanner } = (all, none, last) ∧
          (Fetching.collect db.source (Fetching.rowLookup db) { scanner := scanner }).runUnder
            db.source w k' = ((got, failure, left), k'') ∧
          got <+: all ∧
          Fetching.Outcome w (Rows.Cut (all, none, last)) (all, none, last) k'
            ((got, failure, left), k'') ∧
          ∀ (w : Outages) (k : Nat),
            (Fetching.nextRow db.source (Fetching.rowLookup db) left).runUnder db.source w k =
              ((none, left), k) := by
  refine ⟨?_, ?_, ?_⟩
  · -- a search gives up at a failing fetch, so one that succeeds has met none
    intro s root t ht hsearch w k k' key cmp c h
    have hseek : Cursor.seek s root key cmp = .ok c :=
      Fetching.run_seek s root key cmp ▸ (Fetching.stops_seek s root key cmp).run_eq_ok h
    refine ⟨hseek, fun d => ?_⟩
    obtain ⟨hentries, hfailure⟩ := ht.walk_eq d (ht.tracks_of_seek hseek)
    have hordered : (c.walk s d).entries.Pairwise fun a b => compare a.key b.key = d.ordering :=
      hentries ▸ (hsearch.ascending.pairwise_arrange d).sublist (d.onward_sublist t.entries _)
    exact ⟨hentries, hordered, hfailure, Fetching.walk_outcome s d c w k'⟩
  · intro s w k k' d c moved e h
    obtain rfl := Fetching.eq_none_of_step h
    refine ⟨rfl, rfl, fun d w k => ?_⟩
    rw [Fetching.step_of_not_valid rfl]
    rfl
  · intro store store' settings tables rows db hstore htables hbuild w k k' table request scanner h
    have hscan : db.scan table request = .ok scanner :=
      Fetching.run_scan db table request ▸ (Fetching.stops_scanner ..).run_eq_ok h
    obtain ⟨tree, hbuilt⟩ := build_built hstore htables hbuild
    obtain ⟨all, last, hcollect⟩ := hbuilt.collect_of_scan hscan
    obtain ⟨got, failure, left, k'', hrun, hrest⟩ := Fetching.collect_outcome
      (Fetching.stops_rowLookup db) (Fetching.run_rowLookup db ▸ hcollect) w k'
    exact ⟨all, last, got, failure, left, k'', hcollect, hrun, hrest⟩

/-- One fetch fails, the one before which this number of fetches has been made. -/
def outageAt (count : Nat) : Outages := fun k => if k = count then some (.pageNotFound 2) else none

open RangeStore.Tree in
/-- In the tree of two leaves the step from `c` to `e` fails, so that only `c` is shown. In the
database of towns the look-up of the second row fails, when the first one has been given. -/
theorem outages_keep_prefix_once :
    (∃ c k' moved e k'',
      (Fetching.seek forkStore.source 3 [0x63] .ge).runUnder forkStore.source (outageAt 2) 0 =
        (.ok c, k') ∧
      ((Fetching.walk forkStore.source .ascending c).runUnder forkStore.source (outageAt 2)
        k').1.entries <+: Direction.ascending.onward fork.entries (fork.landing [0x63] .ge) ∧
      ((Fetching.walk forkStore.source .ascending c).runUnder forkStore.source (outageAt 2)
        k').1.entries = [⟨[0x63], []⟩] ∧
      Direction.ascending.onward fork.entries (fork.landing [0x63] .ge) =
        [⟨[0x63], []⟩, ⟨[0x65], []⟩] ∧
      (Fetching.step forkStore.source .ascending c).runUnder forkStore.source (outageAt 2) k' =
        ((.error e, moved), k'') ∧
      moved.valid = false ∧ moved.depth = 0) ∧
    ∃ db store' scanner k',
      build ({} : MemoryStore) { maxNodeKeys := 2 } [towns] townRows = (.ok db, store') ∧
      (Fetching.scan db towns.name townsDown).runUnder db.source (outageAt 7) 0 =
        (.ok scanner, k') ∧
      ∃ all last got failure left k'',
        Rows.collect db.source db.rowLookup { scanner := scanner } = (all, none, last) ∧
        (Fetching.collect db.source (Fetching.rowLookup db) { scanner := scanner }).runUnder
          db.source (outageAt 7) k' = ((got, failure, left), k'') ∧
        got <+: all ∧
        got = [⟨["id", "name"], [.int 1, .bytes [98]]⟩] ∧
        failure = some (.store (.pageNotFound 2)) ∧
        all = [⟨["id", "name"], [.int 1, .bytes [98]]⟩,
          ⟨["id", "name"], [.int (-3), .bytes [98]]⟩] := by
  obtain ⟨hwalks, hsteps, hscans⟩ := outages_keep_prefix (σ := MemoryStore)
  constructor
  · have hruns : (match (Fetching.seek forkStore.source 3 [0x63] .ge).runUnder forkStore.source
        (outageAt 2) 0 with
      | (.ok c, k) =>
        match (Fetching.step forkStore.source .ascending c).runUnder forkStore.source
            (outageAt 2) k with
        | ((.error _, _), _) =>
          decide (((Fetching.walk forkStore.source .ascending c).runUnder forkStore.source
              (outageAt 2) k).1.entries = [⟨[0x63], []⟩] ∧
            Direction.ascending.onward fork.entries (fork.landing [0x63] .ge) =
              [⟨[0x63], []⟩, ⟨[0x65], []⟩])
        | ((.ok (), _), _) => false
      | (.error _, _) => false) = true := by decide +kernel
    split at hruns
    · next c k' hseek =>
      split at hruns
      · next e moved k'' hstep =>
        obtain ⟨-, hwalk⟩ := hwalks fork_rooted fork_search hseek
        obtain ⟨hentries, -, -, hshown, -⟩ := hwalk .ascending
        obtain ⟨hvalid, hdepth, -⟩ := hsteps hstep
        obtain ⟨hgiven, hall⟩ := of_decide_eq_true hruns
        exact ⟨c, k', moved, e, k'', hseek, hentries ▸ hshown, hgiven, hall, hstep, hvalid, hdepth⟩
      · contradiction
    · contradiction
  · have hdraft : Draft.build ⟨"towns", [⟨"id", .int64⟩, ⟨"name", .bytes⟩], 1, 100,
        [⟨"byName", ["name"]⟩]⟩ = .ok towns := rfl
    have hruns : (match build ({} : MemoryStore) { maxNodeKeys := 2 } [towns] townRows with
        | (.ok db, _) =>
          match (Fetching.scan db towns.name townsDown).runUnder db.source (outageAt 7) 0 with
          | (.ok scanner, k) =>
            let under := ((Fetching.collect db.source (Fetching.rowLookup db)
              { scanner := scanner }).runUnder db.source (outageAt 7) k).1
            decide (under.1 = [⟨["id", "name"], [.int 1, .bytes [98]]⟩] ∧
              under.2.1 = some (.store (.pageNotFound 2)) ∧
              (Rows.collect db.source db.rowLookup { scanner := scanner }).1 =
                [⟨["id", "name"], [.int 1, .bytes [98]]⟩,
                  ⟨["id", "name"], [.int (-3), .bytes [98]]⟩])
          | (.error _, _) => false
        | (.error _, _) => false) = true := by decide +kernel
    split at hruns
    · next db store' hbuild =>
      split at hruns
      · next scanner k' hscan =>
        obtain ⟨all, last, got, failure, left, k'', hcollect, hrun, hshown, -⟩ := hscans trivial
          (fun t ht => ⟨_, List.mem_singleton.mp ht ▸ hdraft⟩) hbuild hscan
        have hgiven := of_decide_eq_true hruns
        rw [hcollect, hrun] at hgiven
        exact ⟨db, store', scanner, k', hbuild, hscan, all, last, got, failure, left, k'', hcollect,
          hrun, hshown, hgiven⟩
      · contradiction
    · contradiction

end Database

end RangeStore
