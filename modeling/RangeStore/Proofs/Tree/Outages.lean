import RangeStore.Proofs.Storage.Fetching
import RangeStore.Proofs.Tree.Stepping
import RangeStore.Proofs.Tree.Window
import RangeStore.Tree.Walk
set_option autoImplicit false

/-! # Cursors under outages

Seeks, steps and walks, fetch by fetch. Each does over a source what the cursor does
(`Fetching.run_seek`, `Fetching.run_step`, `Fetching.run_walkFrom`), and each gives up at the first
fetch that fails: a seek with the error, a step with the error and a cursor without a way, and a
walk with the entries that it has shown so far (`Fetching.walk_outcome`).

Without failures a walk in a tree shows all entries that come onward (`Tree.Rooted.walk_eq`). -/

namespace RangeStore

/-- What is left of a walk when a fetch has failed: it has shown a beginning of the entries, and its
cursor has no way any more. -/
structure Walk.Cut (whole : Walk) (e : StoreError) (got : Walk) : Prop where
  shown : got.entries <+: whole.entries
  failed : got.failure = some e
  exhausted : got.last = .none

namespace Fetching

variable {s : NodeSource}

/-! ## Seeks -/

/-- `Cursor.descendLE`, fetch by fetch. -/
def descendLE (key : Bytes) :
    (bound : Nat) → PageId → List Frame → Fetching (Except StoreError Cursor)
  | 0, _, _ => .done (.error .endless)
  | bound + 1, id, above => .fetch id fun answer =>
    match answer with
    | .error e => .done (.error e)
    | .ok n =>
      if n.size = 0 then
        if n.isLeaf ∧ above = [] then .done (.ok ⟨[⟨n, 0⟩]⟩)
        else .done (.error (.node id .emptyNode))
      else
        let path := ⟨n, n.lookupLE key⟩ :: above
        if n.isLeaf then .done (.ok ⟨path⟩)
        else
          match n.child? (n.lookupLE key) with
          | none => .done (.error .outOfRange)
          | some child => descendLE key bound child path

/-- `Cursor.seekLE`, fetch by fetch. -/
def seekLE (s : NodeSource) (root : PageId) (key : Bytes) : Fetching (Except StoreError Cursor) :=
  if root = 0 then .done (.ok .none) else descendLE key s.descentBound root []

theorem run_descendLE (s : NodeSource) (key : Bytes) (bound : Nat) (id : PageId)
    (above : List Frame) :
    (descendLE key bound id above).run s = Cursor.descendLE s key bound id above := by
  induction bound generalizing id above with
  | zero => rfl
  | succ bound ih =>
    rw [descendLE, run, Cursor.descendLE]
    cases s.fetch id with
    | error e => rfl
    | ok n =>
      simp only
      split
      · split <;> rfl
      · split
        · rfl
        · cases n.child? (n.lookupLE key) with
          | none => rfl
          | some child => exact ih child _

theorem run_seekLE (s : NodeSource) (root : PageId) (key : Bytes) :
    (seekLE s root key).run s = Cursor.seekLE s root key := by
  unfold seekLE Cursor.seekLE
  split
  · rfl
  · exact run_descendLE s key _ root []

theorem stops_descendLE (s : NodeSource) (key : Bytes) (bound : Nat) (id : PageId)
    (above : List Frame) :
    (descendLE key bound id above).Stops s fun e result => result = .error e := by
  induction bound generalizing id above with
  | zero => exact .done _
  | succ bound ih =>
    rw [descendLE]
    refine .fetch (fun e => ⟨_, rfl, rfl⟩) ?_
    cases s.fetch id with
    | error e => exact .done _
    | ok n =>
      simp only
      split
      · split <;> exact .done _
      · split
        · exact .done _
        · split
          · exact .done _
          · exact ih _ _

theorem stops_seekLE (s : NodeSource) (root : PageId) (key : Bytes) :
    (seekLE s root key).Stops s fun e result => result = .error e := by
  unfold seekLE
  split
  · exact .done _
  · exact stops_descendLE s key _ root []

/-! ## Steps -/

/-- `Cursor.descend`, fetch by fetch. -/
def descend (edge : Edge) :
    (bound : Nat) → List Frame → Fetching (Except StoreError Unit × Cursor)
  | 0, _ => .done (.error .endless, .none)
  | _ + 1, [] => .done (.ok (), .none)
  | bound + 1, frame :: above =>
    if frame.node.isLeaf then .done (.ok (), ⟨frame :: above⟩)
    else
      match frame.node.child? frame.slot with
      | none => .done (.error .outOfRange, .none)
      | some id => .fetch id fun answer =>
        match answer with
        | .error e => .done (.error e, .none)
        | .ok n =>
          if n.size = 0 then .done (.error (.node id .emptyNode), .none)
          else descend edge bound (⟨n, edge.slot n⟩ :: frame :: above)

/-- `Cursor.step`, fetch by fetch. -/
def step (s : NodeSource) (d : Direction) (c : Cursor) :
    Fetching (Except StoreError Unit × Cursor) :=
  if c.valid then
    match d.carry c.path with
    | none => .done (.ok (), .none)
    | some path => descend d.edge s.descentBound path
  else .done (.ok (), c)

theorem run_descend (s : NodeSource) (edge : Edge) (bound : Nat) (path : List Frame) :
    (descend edge bound path).run s = Cursor.descend s edge bound path := by
  induction bound generalizing path with
  | zero => rfl
  | succ bound ih =>
    cases path with
    | nil => rfl
    | cons frame above =>
      rw [descend, Cursor.descend]
      split
      · rfl
      · cases frame.node.child? frame.slot with
        | none => rfl
        | some id =>
          simp only [run]
          cases s.fetch id with
          | error e => rfl
          | ok n =>
            simp only
            split
            · rfl
            · exact ih _

theorem run_step (s : NodeSource) (d : Direction) (c : Cursor) :
    (step s d c).run s = c.step s d := by
  rw [step, Cursor.step_eq]
  split
  · cases d.carry c.path with
    | none => rfl
    | some path => exact run_descend s _ _ path
  · rfl

theorem stops_descend (s : NodeSource) (edge : Edge) (bound : Nat) (path : List Frame) :
    (descend edge bound path).Stops s fun e result => result = (.error e, .none) := by
  induction bound generalizing path with
  | zero => exact .done _
  | succ bound ih =>
    cases path with
    | nil => exact .done _
    | cons frame above =>
      rw [descend]
      split
      · exact .done _
      · split
        · exact .done _
        · next id _ =>
          refine .fetch (fun e => ⟨_, rfl, rfl⟩) ?_
          cases s.fetch id with
          | error e => exact .done _
          | ok n =>
            simp only
            split
            · exact .done _
            · exact ih _

theorem stops_step (s : NodeSource) (d : Direction) (c : Cursor) :
    (step s d c).Stops s fun e result => result = (.error e, .none) := by
  rw [step]
  split
  · split
    · exact .done _
    · exact stops_descend s _ _ _
  · exact .done _

theorem ensures_descend (edge : Edge) (bound : Nat) (path : List Frame) :
    (descend edge bound path).Ensures fun result =>
      ∀ e, result.1 = .error e → result.2 = .none := by
  induction bound generalizing path with
  | zero => exact .done fun _ _ => rfl
  | succ bound ih =>
    cases path with
    | nil => exact .done fun _ _ => rfl
    | cons frame above =>
      rw [descend]
      split
      · exact .done fun e h => by cases h
      · split
        · exact .done fun _ _ => rfl
        · refine .fetch fun answer => ?_
          cases answer with
          | error e => exact .done fun _ _ => rfl
          | ok n =>
            simp only
            split
            · exact .done fun _ _ => rfl
            · exact ih _

/-- A step that fails, whatever its fetches answer, leaves a cursor without a way. -/
theorem ensures_step (s : NodeSource) (d : Direction) (c : Cursor) :
    (step s d c).Ensures fun result => ∀ e, result.1 = .error e → result.2 = .none := by
  rw [step]
  split
  · split
    · exact .done fun _ _ => rfl
    · exact ensures_descend _ _ _
  · exact .done fun e h => by cases h

theorem eq_none_of_step {d : Direction} {c moved : Cursor} {w : Outages} {k k' : Nat}
    {e : StoreError} (h : (step s d c).runUnder s w k = ((.error e, moved), k')) :
    moved = .none := by
  have hensures := (ensures_step s d c).runUnder s w k
  rw [h] at hensures
  exact hensures e rfl

/-- A cursor on no entry is left where it is, and nothing is fetched. -/
theorem step_of_not_valid {c : Cursor} (h : c.valid = false) (s : NodeSource) (d : Direction) :
    step s d c = .done (.ok (), c) := by
  rw [step, if_neg (by simp [h])]

/-! ## Searches -/

/-- `Cursor.seek`, fetch by fetch. -/
def seek (s : NodeSource) (root : PageId) (key : Bytes) (c : Comparison) :
    Fetching (Except StoreError Cursor) :=
  (seekLE s root key).bind fun
    | .error e => .done (.error e)
    | .ok cursor =>
      match cursor.entry? with
      | none => .done (.ok cursor)
      | some found =>
        if c.holds found.key key then .done (.ok cursor)
        else (step s c.direction cursor).map fun
          | (.error e, _) => .error e
          | (.ok (), moved) => .ok moved

theorem run_seek (s : NodeSource) (root : PageId) (key : Bytes) (c : Comparison) :
    (seek s root key c).run s = Cursor.seek s root key c := by
  rw [seek, run_bind, run_seekLE, Cursor.seek]
  cases Cursor.seekLE s root key with
  | error e => rfl
  | ok cursor =>
    simp only
    cases cursor.entry? with
    | none => rfl
    | some found =>
      simp only
      split
      · rfl
      · rw [← run_step]
        exact run_map s _ _

theorem stops_seek (s : NodeSource) (root : PageId) (key : Bytes) (c : Comparison) :
    (seek s root key c).Stops s fun e result => result = .error e := by
  refine (stops_seekLE s root key).bind (fun e a ha => ⟨_, by rw [ha], rfl⟩) ?_
  split
  · exact .done _
  · split
    · exact .done _
    · split
      · exact .done _
      · exact (stops_step s _ _).map fun e a ha => by rw [ha]

/-! ## Walks -/

/-- `Cursor.walkFrom`, fetch by fetch. -/
def walkFrom (s : NodeSource) (d : Direction) : (bound : Nat) → Cursor → Fetching Walk
  | 0, c => .done ⟨[], some .endless, c⟩
  | bound + 1, c =>
    match c.entry? with
    | none => .done ⟨[], none, c⟩
    | some entry => (step s d c).bind fun
      | (.error e, c) => .done ⟨[entry], some e, c⟩
      | (.ok (), c) => (walkFrom s d bound c).map fun rest =>
        { rest with entries := entry :: rest.entries }

/-- `Cursor.walk`, fetch by fetch. -/
def walk (s : NodeSource) (d : Direction) (c : Cursor) : Fetching Walk :=
  walkFrom s d (c.walkBound s) c

theorem run_walkFrom (s : NodeSource) (d : Direction) (bound : Nat) (c : Cursor) :
    (walkFrom s d bound c).run s = c.walkFrom s d bound := by
  induction bound generalizing c with
  | zero => rfl
  | succ bound ih =>
    rw [walkFrom, Cursor.walkFrom]
    cases c.entry? with
    | none => rfl
    | some entry =>
      simp only
      rw [run_bind, run_step]
      rcases c.step s d with ⟨e | _, moved⟩
      · rfl
      · simp only
        rw [run_map, ih]

theorem stops_walkFrom (s : NodeSource) (d : Direction) (bound : Nat) (c : Cursor) :
    (walkFrom s d bound c).Stops s (c.walkFrom s d bound).Cut := by
  induction bound generalizing c with
  | zero => exact .done _
  | succ bound ih =>
    rw [walkFrom, Cursor.walkFrom]
    cases c.entry? with
    | none => exact .done _
    | some entry =>
      simp only
      refine (stops_step s d c).bind (fun e a ha => ?_) ?_
      · -- the step has failed, and the entry has been shown before
        refine ⟨_, by rw [ha], ?_, rfl, rfl⟩
        split
        · exact List.prefix_refl _
        · exact ⟨_, List.singleton_append⟩
      · rw [run_step]
        rcases c.step s d with ⟨e | _, moved⟩
        · exact .done _
        · exact (ih moved).map fun e got hgot =>
            ⟨(List.prefix_cons_inj entry).mpr hgot.shown, hgot.failed, hgot.exhausted⟩

/-- A walk under outages shows the entries that come before the first failing fetch. -/
theorem walk_outcome (s : NodeSource) (d : Direction) (c : Cursor) (w : Outages) (k : Nat) :
    ((walk s d c).runUnder s w k).1.entries <+: (c.walk s d).entries ∧
      Outcome w (c.walk s d).Cut (c.walk s d) k ((walk s d c).runUnder s w k) := by
  have houtcome := (stops_walkFrom s d (c.walkBound s) c).outcome w k
  rw [run_walkFrom] at houtcome
  exact ⟨houtcome.of (P := fun got => got.entries <+: (c.walk s d).entries) (List.prefix_refl _)
    fun e got hcut => hcut.shown, houtcome⟩

end Fetching

namespace Tree.Rooted

variable {s : NodeSource} {root : PageId} {t : Tree}

theorem walkFrom_eq (ht : t.Rooted s root) (d : Direction) {c : Cursor} {i : Option Nat}
    (h : t.Tracks c i) {bound : Nat} (hbound : (d.onward t.entries i).length < bound) :
    (c.walkFrom s d bound).entries = d.onward t.entries i ∧
      (c.walkFrom s d bound).failure = none := by
  induction bound generalizing c i with
  | zero => exact absurd hbound (Nat.not_lt_zero _)
  | succ bound ih =>
    rw [Cursor.walkFrom, h.entry?_eq]
    cases i with
    | none => exact ⟨rfl, rfl⟩
    | some i =>
      have hstands : t.Stands c i := h
      obtain ⟨e, he⟩ : ∃ e, t.entries[i]? = some e := ⟨_, List.getElem?_eq_getElem hstands.lt_count⟩
      obtain ⟨moved, hmoved, htracks⟩ := ht.step d h
      have honward : d.onward t.entries (some i) =
          e :: d.onward t.entries (d.move t.count (some i)) := d.onward_some he
      rw [honward, List.length_cons] at hbound
      obtain ⟨hentries, hfailure⟩ := ih htracks (Nat.lt_of_succ_lt_succ hbound)
      rw [Option.bind_some, he, honward, hmoved]
      exact ⟨congrArg (e :: ·) hentries, hfailure⟩

/-- Without failures a walk shows all entries onward. -/
theorem walk_eq (ht : t.Rooted s root) (d : Direction) {c : Cursor} {i : Option Nat}
    (h : t.Tracks c i) :
    (c.walk s d).entries = d.onward t.entries i ∧ (c.walk s d).failure = none :=
  ht.walkFrom_eq d h (h.length_onward_lt ht.toStored d)

end Tree.Rooted

end RangeStore
