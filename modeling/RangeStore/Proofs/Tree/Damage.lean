import RangeStore.Storage.PageFile
import RangeStore.Proofs.Tree.Access
import RangeStore.Proofs.Tree.Stepping
set_option autoImplicit false

/-! # Cursors over damaged trees

A page is checked once, when its node is read; a cursor then indexes its nodes without a check. So
what it reads is tested here against a cursor that takes every key, value and child directly off the
page, where a slot out of range, a child of a leaf or a read beyond the page is no answer at all.

Over any nodes that were read from pages — keys in no order, keys twice, cells that overlap, empty
nodes, children that lead to missing pages or back up — the two agree after all calls of a cursor's
interface (`Cursor.calls_stay_on_pages`): no call leaves its bounds, and none fails but for a fetch
that fails, an empty node or a way down without end.

The invariant is `Cursor.InRange`, every slot one of its node. A seek brings it about, whatever the
order of the keys (`descendLE_outcome`), and a step keeps it (`step_outcome`). -/

namespace RangeStore

namespace NodeSource

/-- Every node was read from a page, of whatever bytes. -/
def ReadsPages (s : NodeSource) : Prop :=
  ∀ {id : PageId} {n : Node}, s.fetch id = .ok n → n.OfPage

/-- The ways in which a cursor can fail: a fetch of its source fails, a node has no cells where only
a leaf at the root may have none, or a way down has no end. -/
inductive Trouble (s : NodeSource) : StoreError → Prop where
  | fetch {id : PageId} {e : StoreError} (h : s.fetch id = .error e) : Trouble s e
  | emptyNode (id : PageId) : Trouble s (.node id .emptyNode)
  | endless : Trouble s .endless

end NodeSource

namespace Frame

/-- The slot is one of the node, and the node was read from a page. -/
structure InRange (frame : Frame) : Prop where
  ofPage : frame.node.OfPage
  slot_lt : frame.slot < frame.node.size

theorem InRange.exists_child {frame : Frame} (h : frame.InRange) (hleaf : ¬ frame.node.isLeaf) :
    ∃ id, frame.node.child? frame.slot = some id :=
  h.ofPage.child?_isSome (Bool.eq_false_iff.mpr hleaf) h.slot_lt

end Frame

namespace Cursor

/-- Every slot is one of its node, except that an empty leaf at the root has the slot 0. -/
inductive InRange : Cursor → Prop where
  | empty {n : Node} (hpage : n.OfPage) (hleaf : n.isLeaf = true) (hsize : n.size = 0) :
      InRange ⟨[⟨n, 0⟩]⟩
  | frames {path : List Frame} (h : ∀ frame ∈ path, frame.InRange) : InRange ⟨path⟩

theorem InRange.none : Cursor.none.InRange := .frames fun _ h => absurd h List.not_mem_nil

/-! ## Cursors that read off the page -/

/-- `descendLE` with the keys and the children read off the page. -/
def pageDescendLE? (s : NodeSource) (key : Bytes) :
    (bound : Nat) → PageId → List Frame → Option (Except StoreError Cursor)
  | 0, _, _ => some (.error .endless)
  | bound + 1, id, above =>
    match s.fetch id with
    | .error e => some (.error e)
    | .ok n =>
      if n.size = 0 then
        if n.isLeaf ∧ above = [] then some (.ok ⟨[⟨n, 0⟩]⟩)
        else some (.error (.node id .emptyNode))
      else
        match n.pageLookup? key with
        | Option.none => Option.none
        | some slot =>
          if n.isLeaf then some (.ok ⟨⟨n, slot⟩ :: above⟩)
          else
            match n.pageChild? slot with
            | Option.none => Option.none
            | some child => pageDescendLE? s key bound child (⟨n, slot⟩ :: above)

/-- `seekLE` with the keys and the children read off the page. -/
def pageSeekLE? (s : NodeSource) (root : PageId) (key : Bytes) :
    Option (Except StoreError Cursor) :=
  if root = 0 then some (.ok none) else pageDescendLE? s key s.descentBound root []

/-- `descend` with the children read off the page. It needs a frame to go down from. -/
def pageDescend? (s : NodeSource) (edge : Edge) :
    (bound : Nat) → List Frame → Option (Except StoreError Unit × Cursor)
  | 0, _ => some (.error .endless, none)
  | _ + 1, [] => Option.none
  | bound + 1, frame :: above =>
    if frame.node.isLeaf then some (.ok (), ⟨frame :: above⟩)
    else
      match frame.node.pageChild? frame.slot with
      | Option.none => Option.none
      | some id =>
        match s.fetch id with
        | .error e => some (.error e, none)
        | .ok n =>
          if n.size = 0 then some (.error (.node id .emptyNode), none)
          else pageDescend? s edge bound (⟨n, edge.slot n⟩ :: frame :: above)

/-- `step` with the children read off the page. -/
def pageStep? (s : NodeSource) (d : Direction) (c : Cursor) :
    Option (Except StoreError Unit × Cursor) :=
  if c.valid then
    match d.carry c.path with
    | Option.none => some (.ok (), none)
    | some path => pageDescend? s d.edge s.descentBound path
  else some (.ok (), c)

/-- The entry under the cursor, key and value read off the page. -/
def pageCell? (c : Cursor) : Option (Option Cell) :=
  if c.valid then
    match c.path with
    | [] => Option.none
    | leaf :: _ =>
      match leaf.node.pageKey? leaf.slot, leaf.node.pageValue? leaf.slot with
      | some key, some value => some (some ⟨key, value⟩)
      | _, _ => Option.none
  else some Option.none

/-- `seek` with everything read off the page. -/
def pageSeek? (s : NodeSource) (root : PageId) (key : Bytes) (c : Comparison) :
    Option (Except StoreError Cursor) :=
  match pageSeekLE? s root key with
  | Option.none => Option.none
  | some (.error e) => some (.error e)
  | some (.ok cursor) =>
    match cursor.pageCell? with
    | Option.none => Option.none
    | some Option.none => some (.ok cursor)
    | some (some found) =>
      if c.holds found.key key then some (.ok cursor)
      else
        match cursor.pageStep? s c.direction with
        | Option.none => Option.none
        | some (.error e, _) => some (.error e)
        | some (.ok (), moved) => some (.ok moved)

/-! ## Calls -/

/-- A call of the interface of a cursor. -/
inductive Call where
  | seekLE (root : PageId) (key : Bytes)
  | seek (root : PageId) (key : Bytes) (c : Comparison)
  | step (d : Direction)
  | valid
  | entry

/-- What a call answers. -/
inductive Answer where
  | done (result : Except StoreError Unit)
  | valid (answer : Bool)
  | entry (answer : Option Cell)

/-- A seek gives a new cursor. One that fails gives none, and the old one is kept. -/
def sought (old : Cursor) : Except StoreError Cursor → Answer × Cursor
  | .ok new => (.done (.ok ()), new)
  | .error e => (.done (.error e), old)

/-- What a call answers, and the cursor after it. -/
def call (s : NodeSource) (c : Cursor) : Call → Answer × Cursor
  | .seekLE root key => c.sought (Cursor.seekLE s root key)
  | .seek root key comparison => c.sought (Cursor.seek s root key comparison)
  | .step d => (.done (c.step s d).1, (c.step s d).2)
  | .valid => (.valid c.valid, c)
  | .entry => (.entry c.entry?, c)

/-- Answers to calls one after the other, and the cursor after them all. What a store answers may
change between two calls, so each has a source of its own. -/
def calls : List (NodeSource × Call) → Cursor → List Answer × Cursor
  | [], c => ([], c)
  | (s, call) :: rest, c =>
    ((c.call s call).1 :: (calls rest (c.call s call).2).1, (calls rest (c.call s call).2).2)

/-- `call` with everything read off the page. -/
def pageCall? (s : NodeSource) (c : Cursor) : Call → Option (Answer × Cursor)
  | .seekLE root key => (pageSeekLE? s root key).map c.sought
  | .seek root key comparison => (pageSeek? s root key comparison).map c.sought
  | .step d => (c.pageStep? s d).map fun moved => (.done moved.1, moved.2)
  | .valid => some (.valid c.valid, c)
  | .entry => c.pageCell?.map fun entry => (.entry entry, c)

/-- `calls` with everything read off the page. -/
def pageCalls? : List (NodeSource × Call) → Cursor → Option (List Answer × Cursor)
  | [], c => some ([], c)
  | (s, call) :: rest, c =>
    match c.pageCall? s call with
    | Option.none => Option.none
    | some (answer, c) => (pageCalls? rest c).map fun answered => (answer :: answered.1, answered.2)

/-! ## Seeks -/

variable {s : NodeSource} {c : Cursor}

theorem InRange.cons {frame : Frame} {above : List Frame} (hframe : frame.InRange)
    (h : ∀ f ∈ above, f.InRange) : ∀ f ∈ frame :: above, f.InRange :=
  List.forall_mem_cons.mpr ⟨hframe, h⟩

/-- The frame that a descent adds for a node with cells. -/
theorem inRange_lookupLE {id : PageId} {n : Node} (hs : s.ReadsPages) (hfetch : s.fetch id = .ok n)
    (hsize : n.size ≠ 0) (key : Bytes) : Frame.InRange ⟨n, n.lookupLE key⟩ where
  ofPage := hs hfetch
  slot_lt := Node.lookupLE_lt (Nat.pos_of_ne_zero hsize) key

theorem pageDescendLE?_eq (hs : s.ReadsPages) (key : Bytes) (bound : Nat) (id : PageId)
    (above : List Frame) :
    pageDescendLE? s key bound id above = some (descendLE s key bound id above) := by
  induction bound generalizing id above with
  | zero => rfl
  | succ bound ih =>
    rw [pageDescendLE?, descendLE]
    cases hfetch : s.fetch id with
    | error e => rfl
    | ok n =>
      simp only
      split
      · split <;> rfl
      · next hsize =>
        have hframe := inRange_lookupLE hs hfetch hsize key
        rw [hframe.ofPage.pageLookup?_eq]
        simp only
        split
        · rfl
        · next hleaf =>
          obtain ⟨child, hchild⟩ : ∃ child, n.child? (n.lookupLE key) = some child :=
            hframe.exists_child hleaf
          rw [hframe.ofPage.pageChild?_eq]
          simp only [hchild, ih]

/-- A descent comes to a cursor in range or meets trouble. -/
theorem descendLE_outcome (hs : s.ReadsPages) (key : Bytes) (bound : Nat) (id : PageId)
    {above : List Frame} (h : ∀ frame ∈ above, frame.InRange) :
    (∃ c, descendLE s key bound id above = .ok c ∧ c.InRange) ∨
      ∃ e, descendLE s key bound id above = .error e ∧ s.Trouble e := by
  induction bound generalizing id above with
  | zero => exact Or.inr ⟨.endless, rfl, .endless⟩
  | succ bound ih =>
    rw [descendLE]
    cases hfetch : s.fetch id with
    | error e => exact Or.inr ⟨e, rfl, .fetch hfetch⟩
    | ok n =>
      simp only
      split
      · next hsize =>
        split
        · next hempty => exact Or.inl ⟨_, rfl, .empty (hs hfetch) hempty.1 hsize⟩
        · exact Or.inr ⟨_, rfl, .emptyNode id⟩
      · next hsize =>
        have hframe := inRange_lookupLE hs hfetch hsize key
        split
        · exact Or.inl ⟨_, rfl, .frames (InRange.cons hframe h)⟩
        · next hleaf =>
          obtain ⟨child, hchild⟩ : ∃ child, n.child? (n.lookupLE key) = some child :=
            hframe.exists_child hleaf
          simp only [hchild]
          exact ih child (InRange.cons hframe h)

theorem pageSeekLE?_eq (hs : s.ReadsPages) (root : PageId) (key : Bytes) :
    pageSeekLE? s root key = some (seekLE s root key) := by
  unfold pageSeekLE? seekLE
  split
  · rfl
  · exact pageDescendLE?_eq hs key _ root []

theorem seekLE_outcome (hs : s.ReadsPages) (root : PageId) (key : Bytes) :
    (∃ c, seekLE s root key = .ok c ∧ c.InRange) ∨
      ∃ e, seekLE s root key = .error e ∧ s.Trouble e := by
  unfold seekLE
  split
  · exact Or.inl ⟨none, rfl, .none⟩
  · exact descendLE_outcome hs key _ root fun _ h => absurd h List.not_mem_nil

/-! ## Steps -/

theorem pageDescend?_eq (hs : s.ReadsPages) (edge : Edge) (bound : Nat) {frame : Frame}
    {above : List Frame} (hframe : frame.InRange) :
    pageDescend? s edge bound (frame :: above) = some (descend s edge bound (frame :: above)) := by
  induction bound generalizing frame above with
  | zero => rfl
  | succ bound ih =>
    rw [pageDescend?, descend]
    split
    · rfl
    · next hleaf =>
      obtain ⟨id, hid⟩ := hframe.exists_child hleaf
      rw [hframe.ofPage.pageChild?_eq]
      simp only [hid]
      cases hfetch : s.fetch id with
      | error e => rfl
      | ok n =>
        simp only
        split
        · rfl
        · next hsize => exact ih ⟨hs hfetch, edge.slot_lt hsize⟩

/-- A descent keeps the cursor in range, and fails only for trouble. -/
theorem descend_outcome (hs : s.ReadsPages) (edge : Edge) (bound : Nat) {path : List Frame}
    (h : ∀ frame ∈ path, frame.InRange) :
    (descend s edge bound path).2.InRange ∧
      ∀ {e : StoreError}, (descend s edge bound path).1 = .error e → s.Trouble e := by
  induction bound generalizing path with
  | zero => exact ⟨.none, fun he => Except.error.inj he ▸ .endless⟩
  | succ bound ih =>
    cases path with
    | nil => exact ⟨.none, fun he => by cases he⟩
    | cons frame above =>
      have hframe := h frame List.mem_cons_self
      rw [descend]
      split
      · exact ⟨.frames h, fun he => by cases he⟩
      · next hleaf =>
        obtain ⟨id, hid⟩ := hframe.exists_child hleaf
        simp only [hid]
        cases hfetch : s.fetch id with
        | error e => exact ⟨.none, fun he => Except.error.inj he ▸ .fetch hfetch⟩
        | ok n =>
          simp only
          split
          · exact ⟨.none, fun he => Except.error.inj he ▸ .emptyNode id⟩
          · next hsize => exact ih (InRange.cons ⟨hs hfetch, edge.slot_lt hsize⟩ h)

/-- A cursor on an entry has all its slots in range. -/
theorem InRange.of_valid (h : c.InRange) (hvalid : c.valid = true) :
    ∀ frame ∈ c.path, frame.InRange := by
  cases h with
  | frames h => exact h
  | @empty n _ _ hsize =>
    have hslot : 0 < n.size := of_decide_eq_true hvalid
    omega

/-- A carry leaves all slots in range, and a frame to go down from. -/
theorem inRange_carry {d : Direction} {frames path : List Frame} (h : d.carry frames = some path)
    (hframes : ∀ frame ∈ frames, frame.InRange) :
    ∃ frame above, path = frame :: above ∧ ∀ f ∈ frame :: above, f.InRange := by
  obtain ⟨below, frame, slot, above, rfl, hslot, rfl⟩ := Direction.carry_eq_some h
  have hframe := hframes frame (List.mem_append_right _ List.mem_cons_self)
  have hlt : slot < frame.node.size := Direction.beside_lt hslot hframe.slot_lt
  refine ⟨_, above, rfl, InRange.cons ⟨hframe.ofPage, hlt⟩ fun f hf => ?_⟩
  exact hframes f (List.mem_append_right _ (List.mem_cons_of_mem _ hf))

theorem pageStep?_eq (hs : s.ReadsPages) (d : Direction) (h : c.InRange) :
    c.pageStep? s d = some (c.step s d) := by
  rw [step_eq, pageStep?]
  split
  · next hvalid =>
    cases hcarry : d.carry c.path with
    | none => rfl
    | some path =>
      obtain ⟨frame, above, rfl, hpath⟩ := inRange_carry hcarry (h.of_valid hvalid)
      exact pageDescend?_eq hs _ _ (hpath frame List.mem_cons_self)
  · rfl

/-- A step keeps the cursor in range, and fails only for trouble. -/
theorem step_outcome (hs : s.ReadsPages) (d : Direction) (h : c.InRange) :
    (c.step s d).2.InRange ∧ ∀ {e : StoreError}, (c.step s d).1 = .error e → s.Trouble e := by
  rw [step_eq]
  split
  · next hvalid =>
    cases hcarry : d.carry c.path with
    | none => exact ⟨.none, fun he => by cases he⟩
    | some path =>
      obtain ⟨frame, above, rfl, hpath⟩ := inRange_carry hcarry (h.of_valid hvalid)
      exact descend_outcome hs _ _ hpath
  · exact ⟨h, fun he => by cases he⟩

/-! ## Entries -/

theorem pageCell?_eq (h : c.InRange) : c.pageCell? = some c.entry? := by
  rw [pageCell?]
  split
  · next hvalid =>
    have hframes := h.of_valid hvalid
    obtain ⟨path⟩ := c
    cases path with
    | nil => contradiction
    | cons leaf above =>
      have hleaf := hframes leaf List.mem_cons_self
      have hslot : leaf.slot < leaf.node.cells.size := hleaf.slot_lt
      simp only [hleaf.ofPage.pageKey?_eq, hleaf.ofPage.pageValue?_eq, Node.key?, Node.value?,
        entry?, Array.getElem?_eq_getElem hslot, Option.map_some]
  · next hvalid => rw [entry?_eq_none (Bool.not_eq_true _ ▸ hvalid)]

theorem pageSeek?_eq (hs : s.ReadsPages) (root : PageId) (key : Bytes) (comparison : Comparison) :
    pageSeek? s root key comparison = some (seek s root key comparison) := by
  rw [pageSeek?, seek, pageSeekLE?_eq hs]
  rcases seekLE_outcome hs root key with ⟨c, hc, hrange⟩ | ⟨e, he, -⟩
  · simp only [hc, pageCell?_eq hrange]
    cases c.entry? with
    | none => rfl
    | some found =>
      simp only
      split
      · rfl
      · rw [pageStep?_eq hs _ hrange]
        rcases c.step s comparison.direction with ⟨_ | _, moved⟩ <;> rfl
  · simp only [he]

theorem seek_outcome (hs : s.ReadsPages) (root : PageId) (key : Bytes) (comparison : Comparison) :
    (∃ c, seek s root key comparison = .ok c ∧ c.InRange) ∨
      ∃ e, seek s root key comparison = .error e ∧ s.Trouble e := by
  rw [seek]
  rcases seekLE_outcome hs root key with ⟨c, hc, hrange⟩ | ⟨e, he, htrouble⟩
  · simp only [hc]
    cases c.entry? with
    | none => exact Or.inl ⟨c, rfl, hrange⟩
    | some found =>
      simp only
      split
      · exact Or.inl ⟨c, rfl, hrange⟩
      · obtain ⟨hmoved, htrouble⟩ := step_outcome hs comparison.direction hrange
        rcases hstep : c.step s comparison.direction with ⟨e | ⟨⟩, moved⟩
        · rw [hstep] at htrouble
          exact Or.inr ⟨e, rfl, htrouble rfl⟩
        · rw [hstep] at hmoved
          exact Or.inl ⟨moved, rfl, hmoved⟩
  · exact Or.inr ⟨e, by rw [he], htrouble⟩

/-! ## Runs -/

theorem pageCall?_eq (hs : s.ReadsPages) (call : Call) (h : c.InRange) :
    c.pageCall? s call = some (c.call s call) := by
  cases call with
  | seekLE root key => rw [pageCall?, pageSeekLE?_eq hs]; rfl
  | seek root key comparison => rw [pageCall?, pageSeek?_eq hs]; rfl
  | step d => rw [pageCall?, pageStep?_eq hs d h]; rfl
  | valid => rfl
  | entry => rw [pageCall?, pageCell?_eq h]; rfl

theorem sought_outcome {result : Except StoreError Cursor} (h : c.InRange)
    (hresult : (∃ new, result = .ok new ∧ new.InRange) ∨ ∃ e, result = .error e ∧ s.Trouble e) :
    (c.sought result).2.InRange ∧
      ∀ {e : StoreError}, (c.sought result).1 = .done (.error e) → s.Trouble e := by
  rcases hresult with ⟨new, rfl, hnew⟩ | ⟨e, rfl, htrouble⟩
  · exact ⟨hnew, fun he => by cases he⟩
  · exact ⟨h, fun he => Except.error.inj (Answer.done.inj he) ▸ htrouble⟩

theorem call_outcome (hs : s.ReadsPages) (call : Call) (h : c.InRange) :
    (c.call s call).2.InRange ∧
      ∀ {e : StoreError}, (c.call s call).1 = .done (.error e) → s.Trouble e := by
  cases call with
  | seekLE root key => exact sought_outcome h (seekLE_outcome hs root key)
  | seek root key comparison => exact sought_outcome h (seek_outcome hs root key comparison)
  | step d =>
    obtain ⟨hmoved, htrouble⟩ := step_outcome hs d h
    exact ⟨hmoved, fun he => htrouble (Answer.done.inj he)⟩
  | valid => exact ⟨h, fun he => by cases he⟩
  | entry => exact ⟨h, fun he => by cases he⟩

theorem pageCalls?_eq {run : List (NodeSource × Call)} (hrun : ∀ step ∈ run, step.1.ReadsPages)
    (h : c.InRange) : pageCalls? run c = some (calls run c) := by
  induction run generalizing c with
  | nil => rfl
  | cons step rest ih =>
    obtain ⟨hs, hrest⟩ := List.forall_mem_cons.mp hrun
    rw [pageCalls?, pageCall?_eq hs _ h]
    simp only [ih hrest (call_outcome hs _ h).1, Option.map_some]
    rfl

theorem calls_outcome {run : List (NodeSource × Call)} (hrun : ∀ step ∈ run, step.1.ReadsPages)
    (h : c.InRange) :
    (calls run c).2.InRange ∧ ∀ {e : StoreError}, .done (.error e) ∈ (calls run c).1 →
      ∃ step ∈ run, step.1.Trouble e := by
  induction run generalizing c with
  | nil => exact ⟨h, fun he => absurd he List.not_mem_nil⟩
  | cons step rest ih =>
    obtain ⟨hs, hrest⟩ := List.forall_mem_cons.mp hrun
    obtain ⟨hcall, htrouble⟩ := call_outcome hs step.2 h
    obtain ⟨hlast, hothers⟩ := ih hrest hcall
    refine ⟨hlast, fun {e} he => ?_⟩
    rcases List.mem_cons.mp he with hfirst | hlater
    · exact ⟨step, List.mem_cons_self, htrouble hfirst.symm⟩
    · obtain ⟨other, hmem, hother⟩ := hothers hlater
      exact ⟨other, List.mem_cons_of_mem _ hmem, hother⟩

/-- After any calls, over any nodes that were read from pages, every read has stayed on its page, at
a slot of its node, and no child was asked of a leaf: reading everything off the pages has given the
same answers and the same cursor. Its slots are in range. A call fails only for a fetch that fails,
an empty node or a way down without end. -/
theorem calls_stay_on_pages {run : List (NodeSource × Call)}
    (hrun : ∀ step ∈ run, step.1.ReadsPages) :
    pageCalls? run none = some (calls run none) ∧ (calls run none).2.InRange ∧
      (∀ {e : StoreError}, .done (.error e) ∈ (calls run none).1 →
        ∃ step ∈ run, step.1.Trouble e) ∧
      ∀ {n : Node}, n.OfPage → n.Readable := by
  obtain ⟨hrange, htrouble⟩ := calls_outcome hrun .none
  exact ⟨pageCalls?_eq hrun .none, hrange, htrouble, Node.OfPage.readable⟩

end Cursor

/-! ## Page files -/

/-- Whatever bytes a file has, its nodes are read from pages. -/
theorem PageFile.readsPages (f : PageFile) : f.source.ReadsPages := fun h =>
  let ⟨page, _, hpage⟩ := fetch_eq_ok h
  ⟨page, hpage⟩

namespace Cursor

/-- A leaf with the keys `b`, `a` and `b`, where the first and the last are one cell. -/
def damagedLeaf : Page := Page.ofList
  [4, 0, 0, 0, 0, 0, 0, 0, 3, 0, 16, 0, 22, 0, 16, 0,
    1, 0, 1, 0, 0x62, 0x78, 1, 0, 1, 0, 0x61, 0x79]

/-- The damaged leaf as the root of a file whose checksums are not verified. -/
def damagedFile : PageFile where
  file := File.empty.writePage 1 damagedLeaf
  superblock := { pageCount := 2, root := 1 }
  verify := false

/-- A seek in the damaged leaf, and some steps over its end. -/
def damagedRun : List (NodeSource × Call) :=
  [.seek 1 [0x61] .ge, .entry, .step .ascending, .step .ascending, .step .ascending, .valid].map
    fun call => (damagedFile.source, call)

theorem damagedRun_stays_on_pages :
    (∀ step ∈ damagedRun, step.1.ReadsPages) ∧
    pageCalls? damagedRun none = some (calls damagedRun none) ∧
      (calls damagedRun none).2.InRange ∧
      (∀ {e : StoreError}, .done (.error e) ∈ (calls damagedRun none).1 →
        ∃ step ∈ damagedRun, step.1.Trouble e) ∧
      ∀ {n : Node}, n.OfPage → n.Readable := by
  have hrun : ∀ step ∈ damagedRun, step.1.ReadsPages := by
    intro step hstep
    obtain ⟨call, -, rfl⟩ := List.mem_map.mp hstep
    exact damagedFile.readsPages
  exact ⟨hrun, calls_stay_on_pages hrun⟩

end Cursor

end RangeStore
