import RangeStore.Proofs.Tree.Position
import RangeStore.Storage.Memory
import RangeStore.Tree.NodeDraft
set_option autoImplicit false

/-! # Runs of cursors

However a cursor starts and whatever steps it takes, up and down in any order, it shows what an
index into the tree's entries shows that takes the same steps: `Tree.Rooted.run_follows_index`.

A descent lands on the entry at `Tree.seat`, whatever the keys are, so each start stands somewhere
or nowhere (`Rooted.seekLE`, `Rooted.seek`). From there on one relation, `Tree.Tracks`, is kept by
every step (`Rooted.step`) and so by every run (`Rooted.run`). -/

namespace RangeStore

/-! ## What is compared -/

/-- One step of an index into `count` entries. Past either end there is no index any more. -/
def Direction.move (d : Direction) (count : Nat) : Option Nat → Option Nat
  | none => none
  | some i =>
    match d with
    | .ascending => if i + 1 < count then some (i + 1) else none
    | .descending => if 0 < i then some (i - 1) else none

namespace Cursor

/-- Takes steps in the given directions, or until one fails. -/
def run (s : NodeSource) : List Direction → Cursor → Except StoreError Unit × Cursor
  | [], c => (.ok (), c)
  | d :: moves, c =>
    match c.step s d with
    | (.error e, c) => (.error e, c)
    | (.ok (), c) => run s moves c

/-- The last frame has the node of the root, and each other one the node that the frame behind it
names by its slot. -/
def Linked (s : NodeSource) (root : PageId) : List Frame → Prop
  | [] => False
  | [top] => s.fetch root = .ok top.node
  | lower :: upper :: above =>
    (∃ id, upper.node.child? upper.slot = some id ∧ s.fetch id = .ok lower.node) ∧
      Linked s root (upper :: above)

/-- The cursor shows the entry at an index, on a way down from the root with all slots in range;
without an index it shows nothing. -/
def Shows (s : NodeSource) (root : PageId) (entries : List Cell) (c : Cursor) :
    Option Nat → Prop
  | .none => c.valid = false ∧ c.entry? = .none
  | some i => i < entries.length ∧ c.entry? = entries[i]? ∧ Linked s root c.path ∧
      ∀ frame ∈ c.path, frame.slot < frame.node.size

theorem entry?_eq_none {c : Cursor} (h : c.valid = false) : c.entry? = .none := by
  unfold valid at h
  unfold entry?
  split
  · rfl
  · next leaf above hpath =>
    have hge : ¬ leaf.slot < leaf.node.size := by simpa [hpath] using h
    exact Array.getElem?_eq_none (Nat.le_of_not_lt hge)

end Cursor

namespace Node

theorem search_le (cells : Array Cell) (key : Bytes) (lo hi : Nat) (h : hi ≤ cells.size)
    (hle : lo ≤ hi) : search cells key lo hi h ≤ hi := by
  induction lo, hi, h using search.induct cells key with
  | case1 lo hi h hlt hmid hkey ih =>
    rw [search, dif_pos hlt, if_pos hkey]
    exact ih (by omega)
  | case2 lo hi h hlt hmid hkey ih =>
    rw [search, dif_pos hlt, if_neg hkey]
    exact Nat.le_trans (ih (by omega)) (by omega)
  | case3 lo hi h hlt =>
    rw [search, dif_neg hlt]
    exact hle

/-- The slot found is one of the node, whatever its keys are. -/
theorem lookupLE_lt {n : Node} (h : 0 < n.size) (key : Bytes) : n.lookupLE key < n.size := by
  have hle := search_le n.cells key 0 n.cells.size (Nat.le_refl _) (Nat.zero_le _)
  unfold lookupLE
  unfold size at h ⊢
  omega

end Node

namespace Tree

/-- The position on which a descent lands that looks for `key`. -/
def seat (key : Bytes) : Tree → Nat
  | leaf n => n.lookupLE key
  | inner n child =>
    if h : n.lookupLE key < n.size then
      (entriesBefore child (n.lookupLE key)).length + (child ⟨n.lookupLE key, h⟩).seat key
    else 0

/-- The index on which a search lands: the seat of the key, or one step from there if the entry
there is not accepted. -/
def landing (key : Bytes) (c : Comparison) (t : Tree) : Option Nat :=
  match t.entries[t.seat key]? with
  | none => none
  | some found =>
    if c.holds found.key key then some (t.seat key)
    else c.direction.move t.count (some (t.seat key))

/-- The cursor stands at an index, or nowhere. -/
def Tracks (t : Tree) (c : Cursor) : Option Nat → Prop
  | none => c.valid = false
  | some i => t.Stands c i

theorem Tracks.entry?_eq {t : Tree} {c : Cursor} {i : Option Nat} (h : t.Tracks c i) :
    c.entry? = i.bind fun i => t.entries[i]? := by
  cases i with
  | none => exact Cursor.entry?_eq_none h
  | some i => exact Stands.entry? h

variable {s : NodeSource} {root : PageId} {t u : Tree}

/-! ## Starts -/

theorem Stored.descendLE {id : PageId} {above : List Frame} {start : Nat} (key : Bytes)
    (hu : u.Stored s id) (hfull : u.Full) (h : t.Leads above u start) {bound : Nat}
    (hbound : u.height ≤ bound) :
    ∃ c, Cursor.descendLE s key bound id above = .ok c ∧ t.Stands c (start + u.seat key) := by
  induction u generalizing id above start bound with
  | leaf n =>
    have hleaf : n.isLeaf = true := hu.held
    have hsize : 0 < n.size := hfull
    obtain ⟨bound, rfl⟩ := Nat.exists_eq_add_of_le' hbound
    refine ⟨⟨⟨n, n.lookupLE key⟩ :: above⟩, ?_, Stands.intro h (Node.lookupLE_lt hsize key)⟩
    have hfetch : s.fetch id = .ok n := hu.fetch
    rw [height, Cursor.descendLE, hfetch]
    simp only [if_neg (Nat.ne_of_gt hsize), if_pos hleaf]
  | inner n child ih =>
    have hslot := Node.lookupLE_lt hfull.1 key
    have hlt := height_child_lt n child ⟨n.lookupLE key, hslot⟩
    obtain ⟨below, hid, hchild⟩ := hu.child ⟨n.lookupLE key, hslot⟩
    obtain ⟨bound, rfl⟩ := Nat.exists_eq_add_of_le' (Nat.le_trans (height_pos _) hbound)
    have hbelow : (child ⟨n.lookupLE key, hslot⟩).height ≤ bound := by omega
    obtain ⟨c, hc, hstands⟩ := ih _ hchild (hfull.2 _) (Leads.down ⟨_, hslot⟩ h) hbelow
    refine ⟨c, ?_, ?_⟩
    · have hfetch : s.fetch id = .ok n := hu.fetch
      rw [Cursor.descendLE, hfetch]
      simp only [if_neg (Nat.ne_of_gt hfull.1), hu.held.1, Bool.false_eq_true, if_false, hid]
      exact hc
    · rw [Nat.add_assoc] at hstands
      rw [seat, dif_pos hslot]
      exact hstands

namespace Rooted

/-- A tree without entries is an empty leaf. -/
theorem count_eq_zero_iff (ht : t.Rooted s root) :
    t.count = 0 ↔ t = leaf t.node ∧ t.node.size = 0 := by
  constructor
  · intro hcount
    rcases ht.full with hfull | hleaf
    · exact absurd hfull.count_pos (Nat.not_lt_of_ge (Nat.le_of_eq hcount))
    · refine ⟨hleaf, ?_⟩
      rwa [hleaf, count_leaf] at hcount
  · rintro ⟨hleaf, hsize⟩
    rw [hleaf, count_leaf, hsize]

theorem full_of_count_pos (ht : t.Rooted s root) (h : 0 < t.count) : t.Full := by
  rcases ht.full with hfull | hleaf
  · exact hfull
  · rw [hleaf, count_leaf] at h
    rw [hleaf]
    exact h

theorem seekLE (ht : t.Rooted s root) (key : Bytes) :
    ∃ c, Cursor.seekLE s root key = .ok c ∧
      t.Tracks c (if 0 < t.count then some (t.seat key) else none) := by
  have hbound : t.height ≤ s.descentBound := Nat.le_succ_of_le ht.height_le
  rw [Cursor.seekLE, if_neg ht.root_ne_zero]
  by_cases hcount : 0 < t.count
  · obtain ⟨c, hc, hstands⟩ :=
      ht.toStored.descendLE key (ht.full_of_count_pos hcount) Leads.top hbound
    rw [if_pos hcount]
    rw [Nat.zero_add] at hstands
    exact ⟨c, hc, hstands⟩
  · -- the root is an empty leaf, in which slot 0 is no entry
    obtain ⟨hleaf, hsize⟩ := ht.count_eq_zero_iff.mp (Nat.eq_zero_of_not_pos hcount)
    have hkind : t.node.isLeaf = true := by
      have hheld := ht.held
      rw [hleaf] at hheld
      exact hheld
    refine ⟨⟨[⟨t.node, 0⟩]⟩, ?_, ?_⟩
    · rw [NodeSource.descentBound, Cursor.descendLE, ht.fetch]
      simp only [hsize, hkind, if_true, and_self]
    · rw [if_neg hcount]
      exact decide_eq_false (by simp [hsize])

/-! ## Steps and runs -/

/-- Each step of the cursor is one step of the index. -/
theorem step (ht : t.Rooted s root) (d : Direction) {c : Cursor} {i : Option Nat}
    (h : t.Tracks c i) :
    ∃ moved, c.step s d = (.ok (), moved) ∧ t.Tracks moved (d.move t.count i) := by
  cases i with
  | none =>
    -- a cursor that stands nowhere does not move
    have hvalid : c.valid = false := h
    refine ⟨c, ?_, hvalid⟩
    cases d with
    | ascending => rw [Cursor.step, Cursor.next, if_neg (by simp [hvalid])]
    | descending => rw [Cursor.step, Cursor.prev, if_neg (by simp [hvalid])]
  | some i =>
    cases d with
    | ascending =>
      obtain ⟨moved, hmoved, htracks⟩ := ht.next h
      refine ⟨moved, hmoved, ?_⟩
      simp only [Direction.move]
      split <;> simp_all [Tracks]
    | descending =>
      obtain ⟨moved, hmoved, htracks⟩ := ht.prev h
      refine ⟨moved, hmoved, ?_⟩
      simp only [Direction.move]
      split <;> simp_all [Tracks]

theorem run (ht : t.Rooted s root) (moves : List Direction) {c : Cursor} {i : Option Nat}
    (h : t.Tracks c i) :
    ∃ moved, c.run s moves = (.ok (), moved) ∧
      t.Tracks moved (moves.foldl (fun i d => d.move t.count i) i) := by
  induction moves generalizing c i with
  | nil => exact ⟨c, rfl, h⟩
  | cons d moves ih =>
    obtain ⟨stepped, hstepped, htracks⟩ := ht.step d h
    obtain ⟨moved, hmoved, hlast⟩ := ih htracks
    refine ⟨moved, ?_, hlast⟩
    rw [Cursor.run, hstepped]
    exact hmoved

/-- The cursor that `seek` gives stands where `seekLE` puts it, or one step from there. -/
theorem seek (ht : t.Rooted s root) (key : Bytes) (c : Comparison) :
    ∃ cursor, Cursor.seek s root key c = .ok cursor ∧ t.Tracks cursor (t.landing key c) := by
  obtain ⟨start, hstart, htracks⟩ := ht.seekLE key
  rw [Cursor.seek, hstart]
  by_cases hcount : 0 < t.count
  · rw [if_pos hcount] at htracks
    have hstands : t.Stands start (t.seat key) := htracks
    have hseat : t.seat key < t.entries.length := hstands.lt_count
    have hfound : t.entries[t.seat key]? = some t.entries[t.seat key] :=
      List.getElem?_eq_getElem hseat
    simp only [hstands.entry?, landing, hfound]
    by_cases hholds : c.holds t.entries[t.seat key].key key
    · rw [if_pos hholds, if_pos hholds]
      exact ⟨start, rfl, hstands⟩
    · -- the seat is on the wrong side of the key, so `seek` takes one step
      obtain ⟨moved, hmoved, hlands⟩ := ht.step c.direction htracks
      rw [if_neg hholds, if_neg hholds, hmoved]
      exact ⟨moved, rfl, hlands⟩
  · rw [if_neg hcount] at htracks
    have hempty : t.entries[t.seat key]? = none := List.getElem?_eq_none (by
      unfold count at hcount
      omega)
    refine ⟨start, ?_, ?_⟩
    · simp only [Cursor.entry?_eq_none htracks]
    · rw [landing, hempty]
      exact htracks

theorem tracks_of_seek (ht : t.Rooted s root) {key : Bytes} {c : Comparison} {cursor : Cursor}
    (h : Cursor.seek s root key c = .ok cursor) : t.Tracks cursor (t.landing key c) := by
  obtain ⟨landed, hlanded, htracks⟩ := ht.seek key c
  obtain rfl : landed = cursor := Except.ok.inj (hlanded.symm.trans h)
  exact htracks

end Rooted

/-! ## What is shown -/

/-- The frames that lead to a subtree, with one for its top node in front, are linked. -/
theorem Leads.linked {frames : List Frame} {start : Nat} (h : t.Leads frames u start)
    (ht : t.Stored s root) (slot : Nat) : Cursor.Linked s root (⟨u.node, slot⟩ :: frames) := by
  induction h generalizing slot with
  | top => exact ht.fetch
  | down i h ih =>
    obtain ⟨id, hid⟩ := h.stored ht
    obtain ⟨below, hbelow, hchild⟩ := hid.child i
    exact ⟨⟨below, hbelow, hchild.fetch⟩, ih i⟩

theorem Leads.slot_lt {frames : List Frame} {start : Nat} (h : t.Leads frames u start) :
    ∀ frame ∈ frames, frame.slot < frame.node.size := by
  induction h with
  | top => intro frame hframe; contradiction
  | down i _ ih =>
    intro frame hframe
    rcases List.mem_cons.mp hframe with rfl | hframe
    · exact i.isLt
    · exact ih frame hframe

theorem Tracks.shows {c : Cursor} {i : Option Nat} (h : t.Tracks c i) (ht : t.Stored s root) :
    c.Shows s root t.entries i := by
  cases i with
  | none => exact ⟨h, Cursor.entry?_eq_none h⟩
  | some i =>
    have hstands : t.Stands c i := h
    refine ⟨hstands.lt_count, hstands.entry?, ?_⟩
    cases hstands with
    | @intro above n start slot hleads hslot =>
      refine ⟨hleads.linked ht slot, fun frame hframe => ?_⟩
      rcases List.mem_cons.mp hframe with rfl | hframe
      · exact hslot
      · exact hleads.slot_lt frame hframe

/-- A cursor that any start gives, after any steps up and down, shows what an index into the
entries shows that has taken the same steps. No start and no step fails. -/
theorem Rooted.run_follows_index (ht : t.Rooted s root) {sought : Except StoreError Cursor}
    (hsought : ∃ key, sought = Cursor.seekLE s root key ∨ ∃ c, sought = Cursor.seek s root key c) :
    ∃ start i, sought = .ok start ∧ ∀ moves : List Direction, ∃ reached,
      start.run s moves = (.ok (), reached) ∧
        reached.Shows s root t.entries (moves.foldl (fun i d => d.move t.entries.length i) i) := by
  obtain ⟨start, i, hstart, htracks⟩ : ∃ start i, sought = .ok start ∧ t.Tracks start i := by
    obtain ⟨key, rfl | ⟨c, rfl⟩⟩ := hsought
    · obtain ⟨start, hstart, htracks⟩ := ht.seekLE key
      exact ⟨start, _, hstart, htracks⟩
    · obtain ⟨start, hstart, htracks⟩ := ht.seek key c
      exact ⟨start, _, hstart, htracks⟩
  refine ⟨start, i, hstart, fun moves => ?_⟩
  obtain ⟨reached, hreached, hlast⟩ := ht.run moves htracks
  exact ⟨reached, hreached, hlast.shows ht.toStored⟩

/-! ## A tree of two leaves -/

/-- The leaf with the given keys and no values. -/
def leafOf (keys : List Bytes) : Node :=
  NodeDraft.finish { kind := .leaf, cells := (keys.map fun key => ⟨key, []⟩).toArray }

/-- The node above two leaves, which are on the pages 1 and 2. -/
def forkOf (left right : Bytes) : Node :=
  NodeDraft.finish { kind := .internal, cells := #[Cell.ofChild left 1, Cell.ofChild right 2] }

/-- The keys `a` and `c` on page 1, `e` on page 2, and the root on page 3. -/
def forkStore : MemoryStore where
  nodes := #[leafOf [[0x61], [0x63]], leafOf [[0x65]], forkOf [0x61] [0x65]]
  root := 3

def fork : Tree :=
  inner (forkOf [0x61] [0x65]) fun i =>
    if i.val = 0 then leaf (leafOf [[0x61], [0x63]]) else leaf (leafOf [[0x65]])

theorem fork_rooted : fork.Rooted forkStore.source 3 where
  fetch := rfl
  held := ⟨rfl, fun i =>
    match i with
    | ⟨0, _⟩ => ⟨1, rfl, rfl, rfl⟩
    | ⟨1, _⟩ => ⟨2, rfl, rfl, rfl⟩⟩
  root_ne_zero := by decide
  full := Or.inl ⟨by decide, fun i =>
    match i with
    | ⟨0, _⟩ => Nat.succ_pos 1
    | ⟨1, _⟩ => Nat.succ_pos 0⟩

/-- The last key at most `d` is `c`, the second one. From there the cursor goes over to `e` in the
other leaf, back, and over to it once more. -/
theorem fork_run_follows_index :
    fork.Rooted forkStore.source 3 ∧
    (∃ key, Cursor.seekLE forkStore.source 3 [0x64] = Cursor.seekLE forkStore.source 3 key ∨
      ∃ c, Cursor.seekLE forkStore.source 3 [0x64] = Cursor.seek forkStore.source 3 key c) ∧
    ∃ start reached, Cursor.seekLE forkStore.source 3 [0x64] = .ok start ∧
      start.Shows forkStore.source 3 fork.entries (some 1) ∧
      start.entry? = some ⟨[0x63], []⟩ ∧
      start.run forkStore.source [.ascending, .descending, .ascending] = (.ok (), reached) ∧
      reached.Shows forkStore.source 3 fork.entries (some 2) ∧
      reached.entry? = some ⟨[0x65], []⟩ := by
  have hsought : ∃ key, Cursor.seekLE forkStore.source 3 [0x64] =
      Cursor.seekLE forkStore.source 3 key ∨
        ∃ c, Cursor.seekLE forkStore.source 3 [0x64] = Cursor.seek forkStore.source 3 key c :=
    ⟨[0x64], Or.inl rfl⟩
  obtain ⟨start, i, hstart, hruns⟩ := fork_rooted.run_follows_index hsought
  obtain ⟨found, hfound, htracks⟩ := fork_rooted.seekLE [0x64]
  obtain rfl : start = found := Except.ok.inj (hstart.symm.trans hfound)
  have hseat : (if 0 < fork.count then some (fork.seat [0x64]) else none) = some 1 := by
    decide +kernel
  rw [hseat] at htracks
  have hshows := htracks.shows fork_rooted.toStored
  have hentry : start.entry? = some ⟨[0x63], []⟩ := hshows.2.1
  -- no step is taken yet, and no other entry is the one that is shown
  have hindex : i = some 1 := by
    obtain ⟨stayed, hstayed, hindex⟩ := hruns []
    obtain rfl : start = stayed := congrArg Prod.snd hstayed
    cases i with
    | none => exact absurd (hentry.symm.trans hindex.2) (Option.some_ne_none _)
    | some i =>
      have hsame : fork.entries[i]? = some ⟨[0x63], []⟩ := hindex.2.1.symm.trans hentry
      have honly : ∀ i < 3, fork.entries[i]? = some ⟨[0x63], []⟩ → i = 1 := by decide
      rw [honly i hindex.1 hsame]
  obtain ⟨reached, hreached, hlast⟩ := hruns [.ascending, .descending, .ascending]
  rw [hindex] at hlast
  exact ⟨fork_rooted, hsought, start, reached, hstart, hshows, hentry, hreached, hlast, hlast.2.1⟩

end Tree

end RangeStore
