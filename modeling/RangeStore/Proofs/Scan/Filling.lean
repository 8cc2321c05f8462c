import RangeStore.Proofs.InPlace
import RangeStore.Proofs.Scan.Reading
set_option autoImplicit false

/-! # Filling a record

The caller of a scan keeps one record, and each row takes the place of the one before in it. A
record that was cleared for a row that then cannot be read, or that has the key of one row and the
other columns of another, would look like a row. That there is none follows from the order of the
writes: in `Scanner.fill` the record is a state, which is emptied, replaced and pushed to, and what
is then in it is what `Scanner.read` says (`Scanner.on_fill`).

`Scanner.Outcome` lists the ways in which reading may end, each with what is under the scanner and
what is left in the record; they are told by codes of tuples and not by the readers. In every state
of a scan exactly one of them is taken (`Scanner.fill_iff_outcome`). So whatever calls are made with
one record, it holds what it held first, or nothing, or one whole row (`Scanner.whole_of_calls`). -/

namespace RangeStore

/-! ## Computations on a record -/

/-- What is done to a record by a computation that may fail on the way. -/
abbrev Filling (ε : Type) := InPlace Record ε

namespace Filling

variable {ε : Type}

/-- Puts columns with their values behind those in the record, one after the other. -/
def pushAll (pairs : List (String × Value)) : Filling ε Unit :=
  pairs.forM fun p => modify fun out => out.push p.1 p.2

/-- Each turn of the loop adds one column. -/
theorem on_pushAll (pairs : List (String × Value)) (out : Record) :
    (pushAll pairs : Filling ε PUnit).on out =
      (.ok ⟨⟩, ⟨out.columns ++ pairs.map (·.1), out.values ++ pairs.map (·.2)⟩) := by
  induction pairs generalizing out with
  | nil =>
    show (Except.ok PUnit.unit, out) = _
    rw [List.map_nil, List.map_nil, List.append_nil, List.append_nil]
  | cons p pairs ih =>
    have hturn : (pushAll (p :: pairs) : Filling ε PUnit).on out =
        (pushAll pairs : Filling ε PUnit).on (out.push p.1 p.2) := rfl
    rw [hturn, ih, Record.push, List.map_cons, List.map_cons, List.append_assoc, List.append_assoc,
      List.singleton_append, List.singleton_append]

end Filling

/-! ## Filling with a row -/

/-- Puts the row of a primary entry into the record. It is emptied once both halves of the entry
have been read. -/
def Row.fill (t : Table) (entry : Cell) : Filling DecodeError Unit := do
  let (_, body) ← InPlace.ofExcept (Tuple.splitKey entry.key)
  let keys ← InPlace.ofExcept (Tuple.decode (t.primaryKey.map (·.type)) body)
  let others ← InPlace.ofExcept (Tuple.decode (t.otherColumns.map (·.type)) entry.value)
  set Record.empty
  Filling.pushAll (t.columnNames.zip (keys ++ others))

/-- Puts the row under the scanner into the record, and gives whether there is one. -/
def Scanner.fill (sc : Scanner) (lookup : RowLookup) : Filling ScanError Bool := do
  match sc.entry? with
  | none => return false
  | some entry =>
    match sc.layout.choice with
    | .primary =>
      ExceptT.adapt ScanError.decode (Row.fill sc.table entry)
      return true
    | .secondary _ =>
      let key ← InPlace.ofExcept
        ((Row.keyOfIndexKey sc.table sc.layout.columns sc.layout.types entry.key).mapError .decode)
      match ← InPlace.ofExcept (lookup sc.table key) with
      | some row =>
        set row
        return true
      | none =>
        set Record.empty
        match sc.missPolicy with
        | .skip => return false
        | .fail => throw (.danglingIndexEntry sc.table.name sc.layout.name key.shown)

theorem Row.on_fill (t : Table) (entry : Cell) (out : Record) :
    (Row.fill t entry).on out =
      match Row.ofEntry t entry with
      | .error e => (.error e, out)
      | .ok row => (.ok (), row) := by
  rw [Row.fill, Row.ofEntry, InPlace.on_ofExcept_bind]
  cases Tuple.splitKey entry.key with
  | error e => rfl
  | ok p =>
    dsimp only
    rw [InPlace.on_ofExcept_bind]
    cases Tuple.decode (t.primaryKey.map (·.type)) p.2 with
    | error e => rfl
    | ok keys =>
      dsimp only
      rw [InPlace.on_ofExcept_bind]
      cases Tuple.decode (t.otherColumns.map (·.type)) entry.value with
      | error e => rfl
      | ok others =>
        -- the record is empty when the columns are put into it
        exact Filling.on_pushAll _ .empty

/-- What is done to the record in place is what reading says. -/
theorem Scanner.on_fill (sc : Scanner) (lookup : RowLookup) (out : Record) :
    (sc.fill lookup).on out = sc.read lookup out := by
  unfold fill read
  rcases sc.entry? with _ | entry
  · rfl
  · dsimp only
    cases sc.layout.choice with
    | primary =>
      dsimp only
      rw [InPlace.on_bind, InPlace.on_adapt, Row.on_fill]
      cases Row.ofEntry sc.table entry <;> rfl
    | secondary position =>
      dsimp only
      rw [InPlace.on_ofExcept_bind]
      rcases Row.keyOfIndexKey sc.table sc.layout.columns sc.layout.types entry.key with e | key
      · rfl
      · dsimp only [Except.mapError]
        rw [InPlace.on_ofExcept_bind]
        rcases lookup sc.table key with e | _ | row
        · rfl
        · cases sc.missPolicy <;> rfl
        · rfl

/-! ## The ways in which reading ends -/

namespace Scanner

/-- The scan runs in a layout of a sound table, and its bounds leave out all other key spaces. -/
structure Ready (sc : Scanner) : Prop where
  table : sc.table.Sound
  layout : sc.layout ∈ KeyLayout.all sc.table
  owns : ∀ key, sc.inRange key = true → sc.layout.Owns key

/-- What reading gives and what it leaves in the record `out`, way by way. -/
inductive Outcome (sc : Scanner) (lookup : RowLookup) (out : Record) :
    Except ScanError Bool → Record → Prop
  /-- Nothing is under the scanner. -/
  | outside (h : sc.valid = false) : Outcome sc lookup out (.ok false) out
  | row {entry : Cell} {row : Record} (hentry : sc.entry? = some entry)
    (hchoice : sc.layout.choice = .primary) (h : Row.Holds sc.table entry row) :
    Outcome sc lookup out (.ok true) row
  | garbledRow {entry : Cell} {e : DecodeError} (hentry : sc.entry? = some entry)
    (hchoice : sc.layout.choice = .primary) (h : Row.Garbled sc.table entry e) :
    Outcome sc lookup out (.error (.decode e)) out
  | garbledKey {entry : Cell} {e : DecodeError} (hentry : sc.entry? = some entry)
    (hchoice : sc.layout.choice ≠ .primary) (h : Tuple.KeyFault sc.layout.types entry.key e) :
    Outcome sc lookup out (.error (.decode e)) out
  /-- The look-up itself fails. -/
  | failed {entry : Cell} {pk : Record} {e : ScanError} (hentry : sc.entry? = some entry)
    (hchoice : sc.layout.choice ≠ .primary) (hkey : sc.layout.LeadsTo sc.table entry.key pk)
    (h : lookup sc.table pk = .error e) : Outcome sc lookup out (.error e) out
  | found {entry : Cell} {pk row : Record} (hentry : sc.entry? = some entry)
    (hchoice : sc.layout.choice ≠ .primary) (hkey : sc.layout.LeadsTo sc.table entry.key pk)
    (h : lookup sc.table pk = .ok (some row)) : Outcome sc lookup out (.ok true) row
  /-- The entry leads to no row, and is passed over. -/
  | skipped {entry : Cell} {pk : Record} (hentry : sc.entry? = some entry)
    (hchoice : sc.layout.choice ≠ .primary) (hkey : sc.layout.LeadsTo sc.table entry.key pk)
    (h : lookup sc.table pk = .ok none) (hpolicy : sc.missPolicy = .skip) :
    Outcome sc lookup out (.ok false) .empty
  | dangling {entry : Cell} {pk : Record} (hentry : sc.entry? = some entry)
    (hchoice : sc.layout.choice ≠ .primary) (hkey : sc.layout.LeadsTo sc.table entry.key pk)
    (h : lookup sc.table pk = .ok none) (hpolicy : sc.missPolicy = .fail) :
    Outcome sc lookup out
      (.error (.danglingIndexEntry sc.table.name sc.layout.name pk.shown)) .empty

variable {sc : Scanner}

/-- A layout that is chosen as the primary one is the primary one. -/
theorem Ready.layout_eq (h : sc.Ready) (hchoice : sc.layout.choice = .primary) :
    sc.layout = KeyLayout.primary sc.table := by
  rcases KeyLayout.mem_all h.layout with hl | ⟨i, index, -, hl⟩
  · exact hl
  · rw [hl] at hchoice
    contradiction

theorem Ready.owns_entry (h : sc.Ready) {entry : Cell} (hentry : sc.entry? = some entry) :
    sc.layout.Owns entry.key :=
  h.owns entry.key (Option.filter_eq_some_iff.mp hentry).2

/-- One case for each way out of the function. -/
theorem Ready.outcome_read (h : sc.Ready) (lookup : RowLookup) (out : Record) :
    sc.Outcome lookup out (sc.read lookup out).1 (sc.read lookup out).2 := by
  unfold read
  cases hentry : sc.entry? with
  | none =>
    refine .outside ?_
    rw [valid, hentry]
    rfl
  | some entry =>
    have howns := h.owns_entry hentry
    cases hchoice : sc.layout.choice with
    | primary =>
      rw [h.layout_eq hchoice] at howns
      dsimp only
      cases hrow : Row.ofEntry sc.table entry with
      | error e => exact .garbledRow hentry hchoice (Row.ofEntry_eq_error_iff.mp hrow)
      | ok row => exact .row hentry hchoice ((howns.holds_iff h.table).mp hrow)
    | secondary position =>
      have hindex : sc.layout.choice ≠ .primary := by
        intro hprimary
        rw [hchoice] at hprimary
        contradiction
      dsimp only
      cases hkey : Row.keyOfIndexKey sc.table sc.layout.columns sc.layout.types entry.key with
      | error e =>
        exact .garbledKey hentry hindex ((KeyLayout.keyFault_iff h.table h.layout).mp hkey)
      | ok pk =>
        have hleads := (howns.leadsTo_iff h.table h.layout).mp hkey
        dsimp only
        cases hfound : lookup sc.table pk with
        | error e => exact .failed hentry hindex hleads hfound
        | ok found =>
          cases found with
          | some row => exact .found hentry hindex hleads hfound
          | none =>
            dsimp only
            cases hpolicy : sc.missPolicy with
            | skip => exact .skipped hentry hindex hleads hfound hpolicy
            | fail => exact .dangling hentry hindex hleads hfound hpolicy

/-- Where the key of an index leads to a primary key, the look-up decides. -/
theorem Ready.read_of_leadsTo (h : sc.Ready) {entry : Cell} {pk : Record}
    (hentry : sc.entry? = some entry) (hchoice : sc.layout.choice ≠ .primary)
    (hkey : sc.layout.LeadsTo sc.table entry.key pk) (lookup : RowLookup) (out : Record) :
    sc.read lookup out =
      match lookup sc.table pk with
      | .error e => (.error e, out)
      | .ok (some row) => (.ok true, row)
      | .ok none =>
        match sc.missPolicy with
        | .skip => (.ok false, .empty)
        | .fail =>
          (.error (.danglingIndexEntry sc.table.name sc.layout.name pk.shown), .empty) := by
  have hpk := ((h.owns_entry hentry).leadsTo_iff h.table h.layout).mpr hkey
  cases hposition : sc.layout.choice with
  | primary => contradiction
  | secondary position =>
    cases hfound : lookup sc.table pk with
    | error e => simp only [read, hentry, hposition, hpk, hfound]
    | ok found =>
      cases found with
      | some row => simp only [read, hentry, hposition, hpk, hfound]
      | none =>
        cases hpolicy : sc.missPolicy <;>
          simp only [read, hentry, hposition, hpk, hfound, hpolicy]

/-- Reading ends in exactly one way. -/
theorem Ready.read_eq_iff (h : sc.Ready) (lookup : RowLookup) (out : Record)
    (result : Except ScanError Bool) (left : Record) :
    sc.read lookup out = (result, left) ↔ sc.Outcome lookup out result left := by
  constructor
  · intro hread
    have houtcome := h.outcome_read lookup out
    rw [hread] at houtcome
    exact houtcome
  · intro houtcome
    cases houtcome with
    | outside hvalid =>
      have hentry : sc.entry? = none :=
        Option.not_isSome_iff_eq_none.mp (Bool.eq_false_iff.mp hvalid)
      simp only [read, hentry]
    | row hentry hchoice hrow =>
      have howns := h.layout_eq hchoice ▸ h.owns_entry hentry
      simp only [read, hentry, hchoice, (howns.holds_iff h.table).mpr hrow]
    | garbledRow hentry hchoice hrow =>
      simp only [read, hentry, hchoice, Row.ofEntry_eq_error_iff.mpr hrow]
    | garbledKey hentry hindex hkey =>
      have hfault := (KeyLayout.keyFault_iff h.table h.layout).mpr hkey
      cases hchoice : sc.layout.choice with
      | primary => contradiction
      | secondary position => simp only [read, hentry, hchoice, hfault]
    | found hentry hindex hkey hfound => rw [h.read_of_leadsTo hentry hindex hkey, hfound]
    | failed hentry hindex hkey hfound => rw [h.read_of_leadsTo hentry hindex hkey, hfound]
    | skipped hentry hindex hkey hfound hpolicy =>
      rw [h.read_of_leadsTo hentry hindex hkey, hfound, hpolicy]
    | dangling hentry hindex hkey hfound hpolicy =>
      rw [h.read_of_leadsTo hentry hindex hkey, hfound, hpolicy]

/-- A scan that was started is ready, wherever it has come to. -/
theorem ready_of_ofRequest {s : NodeSource} {root : PageId} {tables : Catalog} {policy : MissPolicy}
    {name : String} {request : ScanRequest}
    (htables : ∀ t ∈ tables.tables, ∃ d : Draft, d.build = .ok t)
    (h : ofRequest s root tables policy name request = .ok sc) (c : Cursor) : (sc.at c).Ready := by
  have hsound : ∀ t ∈ tables.tables, t.Sound := fun t ht =>
    (htables t ht).elim fun _ => Draft.sound_of_build
  obtain ⟨t, l, cursor, hfind, hsuits, -, rfl⟩ := ofRequest_eq_ok hsound h
  refine ⟨hsound t (List.mem_of_find?_eq_some hfind), hsuits.layout, fun key hrange => ?_⟩
  rintro space values rfl
  refine Decidable.byContradiction fun hspace => ?_
  have hother : request.inRange l (Tuple.encodeKey space values) = false :=
    hsuits.inRange_other hspace values
  exact Bool.false_ne_true (hother.symm.trans hrange)

/-- Filling a record never mixes it. Take a scan that was started over tables that were built, with
its cursor anywhere, over any entries, any look-up, which may fail, and any record. What is done to
the record in place is what reading says; and reading ends in one of the ways of `Outcome`, that is
in just the one whose conditions hold: with a whole row, with the record as it was, or, where an
entry of an index leads to no row, with nothing in it. -/
theorem fill_iff_outcome {s : NodeSource} {root : PageId} {tables : Catalog} {policy : MissPolicy}
    {name : String} {request : ScanRequest}
    (htables : ∀ t ∈ tables.tables, ∃ d : Draft, d.build = .ok t)
    (hscan : ofRequest s root tables policy name request = .ok sc) (c : Cursor)
    (lookup : RowLookup) (out : Record) :
    ((sc.at c).fill lookup).on out = (sc.at c).read lookup out ∧
      ∀ (result : Except ScanError Bool) (left : Record),
        (sc.at c).read lookup out = (result, left) ↔
          (sc.at c).Outcome lookup out result left := by
  constructor
  · exact on_fill _ lookup out
  · exact (ready_of_ofRequest htables hscan c).read_eq_iff lookup out

/-! ### Boats with torn entries -/

/-- The name of boat 2 is not closed. The entry of the index leads to boat 1. -/
def tornLeaf : Node :=
  NodeDraft.finish
    { kind := .leaf
      cells := #[⟨Tuple.encodeKey 100 [.int 1], Tuple.encode [.bytes [97]]⟩,
        ⟨Tuple.encodeKey 100 [.int 2], [97]⟩,
        ⟨Tuple.encodeKey 101 [.bytes [97], .int 1], []⟩] }

def tornStore : MemoryStore where
  nodes := #[tornLeaf]
  root := 1

/-- The boats from boat 2 on. -/
def fromSecond : ScanRequest where
  start := ⟨.ge, ⟨["id"], [.int 2]⟩⟩
  stop := ⟨.le, .empty⟩

/-- The key of boat 2 is read and its value is not, and the record keeps what it held; where there
is no boat 1, nothing is left of it. -/
theorem fill_iff_outcome_torn :
    ∃ sc sc' : Scanner,
      ofRequest tornStore.source 1 ⟨[Rows.boats]⟩ .fail "boats" fromSecond = .ok sc ∧
      ofRequest tornStore.source 1 ⟨[Rows.boats]⟩ .fail "boats" Rows.boatsUp = .ok sc' ∧
      sc.Outcome (fun _ _ => .ok none) ⟨["kept"], [.int 1]⟩ (.error (.decode .unterminated))
        ⟨["kept"], [.int 1]⟩ ∧
      sc'.Outcome (fun _ _ => .ok none) ⟨["kept"], [.int 1]⟩
        (.error (.danglingIndexEntry "boats" "byName" "\x7bid: 1\x7d")) .empty := by
  have htables : ∀ t ∈ (⟨[Rows.boats]⟩ : Catalog).tables, ∃ d : Draft, d.build = .ok t := by
    intro t ht
    obtain rfl := List.mem_singleton.mp ht
    exact ⟨⟨"boats", Rows.boats.columns, 1, 100, [⟨"byName", ["name"]⟩]⟩, rfl⟩
  have hruns : (match
        ofRequest tornStore.source 1 ⟨[Rows.boats]⟩ .fail "boats" fromSecond,
        ofRequest tornStore.source 1 ⟨[Rows.boats]⟩ .fail "boats" Rows.boatsUp with
      | .ok sc, .ok sc' =>
        match sc.read (fun _ _ => .ok none) ⟨["kept"], [.int 1]⟩,
          sc'.read (fun _ _ => .ok none) ⟨["kept"], [.int 1]⟩ with
        | (.error e, left), (.error e', left') =>
          decide (e = .decode .unterminated ∧ left = ⟨["kept"], [.int 1]⟩ ∧
            e' = .danglingIndexEntry "boats" "byName" "\x7bid: 1\x7d" ∧ left' = .empty)
        | _, _ => false
      | _, _ => false) = true := by decide +kernel
  split at hruns
  · next sc sc' h h' =>
    split at hruns
    · next hread hread' =>
      obtain ⟨rfl, rfl, rfl, rfl⟩ := of_decide_eq_true hruns
      exact ⟨sc, sc', h, h', ((fill_iff_outcome htables h sc.cursor _ _).2 _ _).mp hread,
        ((fill_iff_outcome htables h' sc'.cursor _ _).2 _ _).mp hread'⟩
    · contradiction
  · contradiction

/-! ## One record for a whole scan -/

/-- What is in a record that was filled some times: what it held first, nothing, a row of the table
or one that the look-up finds. -/
inductive Whole (t : Table) (lookup : RowLookup) (first : Record) : Record → Prop
  | first : Whole t lookup first first
  | empty : Whole t lookup first .empty
  | row {entry : Cell} {row : Record} (h : Row.Holds t entry row) : Whole t lookup first row
  | found {pk row : Record} (h : lookup t pk = .ok (some row)) : Whole t lookup first row

/-- What the caller of a scan does. -/
inductive Call where
  | next
  | read

/-- A call, on a scanner and the one record. -/
def Call.run (source : NodeSource) (lookup : RowLookup) : Call → Scanner × Record → Scanner × Record
  | .next, (sc, out) => ((sc.next source).2, out)
  | .read, (sc, out) => (sc, ((sc.fill lookup).on out).2)

variable {lookup : RowLookup} {first out : Record}

theorem Outcome.whole {result : Except ScanError Bool} {left : Record}
    (h : sc.Outcome lookup out result left) (hout : Whole sc.table lookup first out) :
    Whole sc.table lookup first left := by
  cases h with
  | outside => exact hout
  | row _ _ hrow => exact .row hrow
  | garbledRow => exact hout
  | found _ _ _ hfound => exact .found hfound
  | skipped => exact .empty
  | dangling => exact .empty
  | failed => exact hout
  | garbledKey => exact hout

/-- A step moves the cursor and nothing else. -/
theorem exists_next_eq_at (sc : Scanner) (source : NodeSource) :
    ∃ c, (sc.next source).2 = sc.at c := by
  unfold next
  split
  · rcases sc.cursor.step source sc.start.direction with ⟨e | _, c⟩ <;> exact ⟨c, rfl⟩
  · exact ⟨sc.cursor, rfl⟩

/-- One call keeps the record whole. -/
theorem whole_of_call (hready : ∀ c, (sc.at c).Ready) (source : NodeSource) (call : Call)
    {c : Cursor} (hout : Whole sc.table lookup first out) :
    ∃ c' left, call.run source lookup (sc.at c, out) = (sc.at c', left) ∧
      Whole sc.table lookup first left := by
  cases call with
  | next =>
    obtain ⟨c', hnext⟩ := (sc.at c).exists_next_eq_at source
    exact ⟨c', out, congrArg (fun moved => (moved, out)) hnext, hout⟩
  | read =>
    have houtcome := (hready c).outcome_read lookup out
    rw [← on_fill] at houtcome
    exact ⟨c, _, rfl, houtcome.whole hout⟩

/-- Whatever calls are made after the start of a scan, stepping and filling one record in any order:
the record holds what it held first, or nothing, or one whole row. The induction is over the calls;
the cursor may come anywhere. -/
theorem whole_of_calls {s : NodeSource} {root : PageId} {tables : Catalog} {policy : MissPolicy}
    {name : String} {request : ScanRequest}
    (htables : ∀ t ∈ tables.tables, ∃ d : Draft, d.build = .ok t)
    (hscan : ofRequest s root tables policy name request = .ok sc) (source : NodeSource)
    (lookup : RowLookup) (first : Record) (calls : List Call) :
    Whole sc.table lookup first
      (calls.foldl (fun state call => call.run source lookup state) (sc, first)).2 := by
  have hready := ready_of_ofRequest htables hscan
  have hrun : ∀ (c : Cursor) (out : Record), Whole sc.table lookup first out →
      Whole sc.table lookup first
        (calls.foldl (fun state call => call.run source lookup state) (sc.at c, out)).2 := by
    induction calls with
    | nil => exact fun _ _ hout => hout
    | cons call calls ih =>
      intro c out hout
      obtain ⟨c', left, hcall, hleft⟩ := whole_of_call hready source call (c := c) hout
      rw [List.foldl_cons, hcall]
      exact ih c' left hleft
  exact hrun sc.cursor first .first

end Scanner

end RangeStore
