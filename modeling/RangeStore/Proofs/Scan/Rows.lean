import RangeStore.Proofs.Scan.Range
import RangeStore.Scan.Rows
set_option autoImplicit false

/-! # The rows of a scan, one after the other

Each entry that the cursor of a scan shows onward adds something to its rows as long as it lies
between the bounds: the row that is read from it, an error, behind which there are no more rows, or
nothing. What the calls for the next row give are these items in order (`Rows.nth_eq`), and if they
are all rows then they are what is collected (`Rows.collect_eq`).

What carries the induction is the index at which the next entry will be looked at, `Rows.Ahead`: the
entry under the cursor before the first row, and the one behind it afterwards. One call may pass
over any number of entries before it comes to one that adds something, and then leaves the rest of
the items to the calls after it (`Rows.Gives.next`). -/

namespace RangeStore

/-! ## The entries of a scan -/

/-- The scan with its cursor elsewhere. -/
def Scanner.at (sc : Scanner) (c : Cursor) : Scanner := { sc with cursor := c }

namespace Scanner

theorem entry?_at {sc : Scanner} {c : Cursor} {e : Cell} (he : c.entry? = some e)
    (hrange : sc.inRange e.key = true) : entry? (sc.at c) = some e := by
  show c.entry?.filter (fun entry => sc.inRange entry.key) = some e
  rw [he, Option.filter_some, if_pos hrange]

/-- What the entry under the scanner adds to the rows: the row that is read there, the error, or
nothing. -/
def item? (sc : Scanner) (lookup : RowLookup) : Option (Except ScanError Record) :=
  match sc.read lookup .empty with
  | (.error e, _) => some (.error e)
  | (.ok true, row) => some (.ok row)
  | (.ok false, _) => none

/-- The entries that a scan shows from an index on. -/
def coming (sc : Scanner) (t : Tree) (i : Option Nat) : List Cell :=
  (sc.start.direction.onward t.entries i).takeWhile fun e => sc.inRange e.key

/-- Where a scanner stands, either nothing comes any more, or the entry under it comes first, and
then what comes from the next index on. -/
theorem coming_cases (sc : Scanner) {t : Tree} {c : Cursor} {i : Option Nat} (h : t.Tracks c i) :
    (sc.coming t i = [] ∧ entry? (sc.at c) = none) ∨
    ∃ j e, i = some j ∧ c.entry? = some e ∧ e ∈ t.entries ∧ sc.inRange e.key = true ∧
      sc.coming t i = e :: sc.coming t (sc.start.direction.move t.count (some j)) := by
  cases i with
  | none =>
    refine Or.inl ⟨rfl, ?_⟩
    show c.entry?.filter (fun entry => sc.inRange entry.key) = none
    rw [h.entry?_eq]
    rfl
  | some j =>
    have hstands : t.Stands c j := h
    obtain ⟨e, he⟩ : ∃ e, t.entries[j]? = some e := ⟨_, List.getElem?_eq_getElem hstands.lt_count⟩
    have hcursor : c.entry? = some e := by rw [h.entry?_eq, Option.bind_some, he]
    have honward : sc.start.direction.onward t.entries (some j) =
        e :: sc.start.direction.onward t.entries (sc.start.direction.move t.count (some j)) :=
      sc.start.direction.onward_some he
    by_cases hrange : sc.inRange e.key = true
    · refine Or.inr ⟨j, e, rfl, hcursor, List.mem_of_getElem? he, hrange, ?_⟩
      rw [coming, honward, List.takeWhile_cons, if_pos hrange]
      rfl
    · -- the entry lies behind the stop bound
      refine Or.inl ⟨?_, ?_⟩
      · rw [coming, honward, List.takeWhile_cons, if_neg hrange]
      · show c.entry?.filter (fun entry => sc.inRange entry.key) = none
        rw [hcursor, Option.filter_some, if_neg hrange]

/-- Where the search for the start bound of a request lands, all that the request selects comes. -/
theorem exists_coming_eq_select {s : NodeSource} {root : PageId} {tree : Tree}
    (htree : tree.Rooted s root) (hsearch : tree.Search) {request : ScanRequest} {l : KeyLayout}
    (hdir : request.start.comparison.direction ≠ request.stop.comparison.direction)
    {cursor : Cursor}
    (hcursor : Cursor.seek s root (boundKey l request.start) request.start.comparison = .ok cursor)
    (t : Table) (policy : MissPolicy) :
    ∃ i, tree.Tracks cursor i ∧
      (request.scanner t l policy cursor).coming tree i = request.select l tree.entries := by
  obtain ⟨landed, hlanded, htracks⟩ :=
    htree.seek (boundKey l request.start) request.start.comparison
  obtain rfl := Except.ok.inj (hcursor.symm.trans hlanded)
  exact ⟨_, htracks, htree.takeWhile_onward hsearch hdir _ _⟩

end Scanner

namespace Rows

/-! ## Items -/

/-- What the rows are, item by item, if each entry adds what is listed for it. Behind an error
nothing comes. -/
def items : List (Option (Except ScanError Record)) → List (Except ScanError Record)
  | [] => []
  | none :: rest => items rest
  | some (.ok row) :: rest => .ok row :: items rest
  | some (.error e) :: _ => [.error e]

theorem items_map_ok {α : Type} (f : α → Record) (l : List α) :
    items (l.map fun a => some (.ok (f a))) = (l.map f).map .ok := by
  induction l with
  | nil => rfl
  | cons a l ih => rw [List.map_cons, items, ih, List.map_cons, List.map_cons]

/-- Up to the first fault the rows are those that are found, and the fault comes behind them. -/
theorem items_map {α : Type} (fault : α → Option ScanError) (found : α → Option Record)
    (l : List α) :
    items (l.map fun a =>
        match fault a with
        | some e => some (.error e)
        | none => (found a).map .ok) =
      (((l.takeWhile fun a => (fault a).isNone).filterMap found).map .ok) ++
        ((l.findSome? fault).map .error).toList := by
  induction l with
  | nil => rfl
  | cons a l ih =>
    cases hfault : fault a with
    | some e => simp [hfault, items]
    | none =>
      cases hfound : found a with
      | none => simpa [hfault, hfound, items] using ih
      | some row => simpa [hfault, hfound, items] using ih

variable {s : NodeSource} {root : PageId} {t : Tree} {sc : Scanner} {lookup : RowLookup}

/-- The index at which the rows of a scan look next. -/
inductive Ahead (t : Tree) (sc : Scanner) : Rows → Option Nat → Prop
  | first {c : Cursor} {i : Option Nat} (h : t.Tracks c i) : Ahead t sc { scanner := sc.at c } i
  | later {c : Cursor} {i : Nat} (h : t.Tracks c (some i)) (hvalid : (sc.at c).valid = true) :
      Ahead t sc { scanner := sc.at c, started := true }
        (sc.start.direction.move t.count (some i))

theorem Ahead.not_finished {r : Rows} {i : Option Nat} (h : Ahead t sc r i) :
    r.finished = false := by
  cases h <;> rfl

/-- Before reading the scanner comes to that index, and its step does not fail. -/
theorem Ahead.arrive {r : Rows} {i : Option Nat} (h : Ahead t sc r i) (ht : t.Rooted s root) :
    ∃ c, (if r.started then r.scanner.next s else (.ok (), r.scanner)) = (.ok (), sc.at c) ∧
      t.Tracks c i := by
  cases h with
  | @first c i h => exact ⟨c, rfl, h⟩
  | @later c i h hvalid =>
    obtain ⟨moved, hmoved, htracks⟩ := ht.step sc.start.direction h
    refine ⟨moved, ?_, htracks⟩
    have hstep : (sc.at c).cursor.step s (sc.at c).start.direction = (.ok (), moved) := hmoved
    rw [if_pos rfl, Scanner.next, if_pos hvalid, hstep]
    rfl

/-- No more entries come than a walk of the cursor is bound to. -/
theorem Ahead.length_coming_lt {r : Rows} {i : Option Nat} (h : Ahead t sc r i)
    (ht : t.Rooted s root) : (sc.coming t i).length < r.scanner.cursor.walkBound s := by
  have honward : ∀ {c : Cursor} {i : Option Nat}, t.Tracks c i →
      (sc.coming t i).length < c.walkBound s := fun {c i} h =>
    Nat.lt_of_le_of_lt (List.takeWhile_sublist _).length_le
      (h.length_onward_lt ht.toStored sc.start.direction)
  cases h with
  | first h => exact honward h
  | @later c i h hvalid =>
    rcases sc.coming_cases h with ⟨-, hnone⟩ | ⟨j, e, hj, -, -, -, hcoming⟩
    · rw [Scanner.valid, hnone] at hvalid
      contradiction
    · obtain rfl := Option.some.inj hj
      have hlt := honward h
      rw [hcoming, List.length_cons] at hlt
      exact Nat.lt_of_succ_lt hlt

/-- The items that are still to come, when each entry adds to them what `outcome` says. -/
inductive Gives (t : Tree) (sc : Scanner) (outcome : Cell → Option (Except ScanError Record)) :
    Rows → List (Except ScanError Record) → Prop
  | ended {r : Rows} (h : r.finished = true) : Gives t sc outcome r []
  | ahead {r : Rows} {i : Option Nat} (h : Ahead t sc r i) :
      Gives t sc outcome r (items ((sc.coming t i).map outcome))

variable {outcome : Cell → Option (Except ScanError Record)}

/-- The entries add to the rows what `outcome` says, wherever the cursor shows them. -/
def Adds (t : Tree) (sc : Scanner) (lookup : RowLookup)
    (outcome : Cell → Option (Except ScanError Record)) : Prop :=
  ∀ e ∈ t.entries, sc.inRange e.key = true → ∀ c : Cursor, c.entry? = some e →
    (sc.at c).item? lookup = outcome e

/-! ## Calls -/

/-- Stepping and reading gives the first item and leaves the others. The induction is over the
entries that are passed over. -/
theorem Ahead.advance (ht : t.Rooted s root) (hadds : Adds t sc lookup outcome) {r : Rows}
    {i : Option Nat} (h : Ahead t sc r i) {bound : Nat}
    (hbound : (sc.coming t i).length < bound) :
    ∃ r', advance s lookup bound r = ((items ((sc.coming t i).map outcome)).head?, r') ∧
      Gives t sc outcome r' (items ((sc.coming t i).map outcome)).tail := by
  induction bound generalizing r i with
  | zero => exact absurd hbound (Nat.not_lt_zero _)
  | succ bound ih =>
    obtain ⟨c, harrive, htracks⟩ := h.arrive ht
    rw [Rows.advance, harrive]
    rcases sc.coming_cases htracks with
      ⟨hcoming, hnone⟩ | ⟨j, e, rfl, hentry, hmem, hrange, hcoming⟩
    · -- nothing comes any more
      have hvalid : (sc.at c).valid = false := by
        rw [Scanner.valid, hnone]
        rfl
      rw [hcoming]
      simp only [hvalid, Bool.false_eq_true, if_false]
      exact ⟨_, rfl, .ended rfl⟩
    · have hvalid : (sc.at c).valid = true := by
        rw [Scanner.valid, Scanner.entry?_at hentry hrange]
        rfl
      have hitem := hadds e hmem hrange c hentry
      rw [hcoming, List.length_cons] at hbound
      have hlater := Ahead.later htracks hvalid
      rw [hcoming, List.map_cons, ← hitem]
      unfold Scanner.item?
      rcases hread : (sc.at c).read lookup .empty with ⟨error | found, row⟩
      · simp only [hvalid, if_true, hread]
        exact ⟨_, rfl, .ended rfl⟩
      · cases found with
        | true =>
          simp only [hvalid, if_true, hread]
          exact ⟨_, rfl, .ahead hlater⟩
        | false =>
          -- the entry is passed over
          simp only [hvalid, if_true, hread]
          exact ih hlater (Nat.lt_of_succ_lt_succ hbound)

/-- One call gives the first item and leaves the others. -/
theorem Gives.next (ht : t.Rooted s root) (hadds : Adds t sc lookup outcome) {r : Rows}
    {l : List (Except ScanError Record)} (h : Gives t sc outcome r l) :
    ∃ r', r.next s lookup = (l.head?, r') ∧ Gives t sc outcome r' l.tail := by
  unfold Rows.next
  cases h with
  | ended h =>
    rw [if_pos h]
    exact ⟨r, rfl, .ended h⟩
  | ahead h =>
    rw [h.not_finished, if_neg Bool.false_ne_true]
    exact h.advance ht hadds (h.length_coming_lt ht)

/-- What the call gives that comes after `n` others. -/
def nth (source : NodeSource) (lookup : RowLookup) :
    (n : Nat) → Rows → Option (Except ScanError Record)
  | 0, r => (r.next source lookup).1
  | n + 1, r => nth source lookup n (r.next source lookup).2

/-- Each call gives its item, and behind the last item each call gives nothing. -/
theorem nth_eq (ht : t.Rooted s root) (hadds : Adds t sc lookup outcome) {r : Rows}
    {l : List (Except ScanError Record)} (h : Gives t sc outcome r l) (n : Nat) :
    nth s lookup n r = l[n]? := by
  induction n generalizing r l with
  | zero =>
    obtain ⟨r', hnext, -⟩ := h.next ht hadds
    rw [nth, hnext, List.head?_eq_getElem?]
  | succ n ih =>
    obtain ⟨r', hnext, hrest⟩ := h.next ht hadds
    rw [nth, hnext, ih hrest, List.getElem?_tail]

/-! ## Collecting -/

/-- If all items are rows, they are collected. -/
theorem Gives.collectFrom (ht : t.Rooted s root) (hadds : Adds t sc lookup outcome)
    {rows : List Record} {r : Rows} (h : Gives t sc outcome r (rows.map .ok)) {bound : Nat}
    (hbound : rows.length < bound) :
    ∃ last, collectFrom s lookup bound r = (rows, none, last) := by
  induction rows generalizing r bound with
  | nil =>
    obtain ⟨bound, rfl⟩ := Nat.exists_eq_succ_of_ne_zero (Nat.ne_of_gt hbound)
    obtain ⟨r', hnext, -⟩ := h.next ht hadds
    exact ⟨r', by rw [Rows.collectFrom, hnext]; rfl⟩
  | cons row rows ih =>
    cases bound with
    | zero => contradiction
    | succ bound =>
      obtain ⟨r', hnext, hrest⟩ := h.next ht hadds
      obtain ⟨last, hlast⟩ := ih hrest (Nat.lt_of_succ_lt_succ hbound)
      refine ⟨last, ?_⟩
      rw [Rows.collectFrom, hnext]
      simp only [List.map_cons, List.head?_cons, hlast]

/-- The rows of a scan that stands at an index, if a row is read from each entry. -/
theorem collect_eq {f : Cell → Record} (ht : t.Rooted s root)
    (hread : ∀ e ∈ t.entries, sc.inRange e.key = true → ∀ c : Cursor, c.entry? = some e →
      (sc.at c).read lookup .empty = (.ok true, f e))
    {i : Option Nat} (h : t.Tracks sc.cursor i) :
    ∃ last, collect s lookup { scanner := sc } =
      (((sc.start.direction.onward t.entries i).takeWhile fun e => sc.inRange e.key).map f,
        none, last) := by
  have hadds : Adds t sc lookup fun e => some (.ok (f e)) := by
    intro e he hrange c hc
    rw [Scanner.item?, hread e he hrange c hc]
  have hahead : Ahead t sc { scanner := sc } i := .first h
  have hgives : Gives t sc (fun e => some (.ok (f e))) { scanner := sc } _ := .ahead hahead
  rw [items_map_ok] at hgives
  refine hgives.collectFrom ht hadds ?_
  rw [List.length_map]
  exact hahead.length_coming_lt ht

end Rows

end RangeStore
