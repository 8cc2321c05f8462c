import RangeStore.Storage.Memory
import RangeStore.Tree.NodeDraft
set_option autoImplicit false

/-! # What is relied on of a store

Trees are loaded into a store only by adding nodes to it. `LawfulStorage` says what that needs: a
node that was put is found under its id, and no node that was there before is lost. It asks this
only of nodes that were built by a draft (`NodeDraft.Sound`), since a store may have to write them
on a page and to read them back. Nodes in memory are such a store, and so is a page file
(`RangeStore.Proofs.Storage.PageFile`). -/

namespace RangeStore

/-! ## Drafts -/

namespace NodeDraft

/-- The bytes that some cells take on a page. -/
def cellsSize : List Cell → Nat
  | [] => 0
  | c :: rest => cellSize c.key.length c.value.length + cellsSize rest

theorem cellsSize_append (cells others : List Cell) :
    cellsSize (cells ++ others) = cellsSize cells + cellsSize others := by
  induction cells with
  | nil => exact (Nat.zero_add _).symm
  | cons c cells ih => rw [List.cons_append, cellsSize, ih, cellsSize, Nat.add_assoc]

/-- What filling a draft cell by cell keeps true, whatever the cells are: `used` counts the bytes
that are taken, and they fit on a page. -/
structure Filled (d : NodeDraft) : Prop where
  used_eq : d.used = Node.slotsStart + cellsSize d.cells.toList
  used_le : d.used ≤ pageSize

theorem filled_empty (kind : NodeKind) : Filled { kind := kind } where
  used_eq := rfl
  used_le := show Node.slotsStart ≤ pageSize by decide

/-- What `push` does when it succeeds: the cell comes behind the others. -/
theorem push_eq_ok {d d' : NodeDraft} {cell : Cell} (h : d.push cell = .ok d') :
    d.used + cellSize cell.key.length cell.value.length ≤ pageSize ∧
    d' = { d with
      cells := d.cells.push cell
      used := d.used + cellSize cell.key.length cell.value.length } := by
  unfold push at h
  split at h
  · contradiction
  · split at h
    · contradiction
    · next hfits =>
      split at h
      · contradiction
      · exact ⟨by simpa [fits] using hfits, (Except.ok.inj h).symm⟩

theorem Filled.push {d d' : NodeDraft} {cell : Cell} (hd : d.Filled) (h : d.push cell = .ok d') :
    d'.Filled := by
  obtain ⟨hroom, rfl⟩ := push_eq_ok h
  refine ⟨?_, hroom⟩
  show d.used + cellSize cell.key.length cell.value.length = _
  rw [Array.toList_push, cellsSize_append, hd.used_eq, Nat.add_assoc]
  rfl

/-- What filling a draft cell by cell keeps true: `used` counts the bytes that are taken, they fit
on a page, and the cells of an internal node are children. -/
structure Sound (d : NodeDraft) : Prop where
  used_eq : d.used = Node.slotsStart + cellsSize d.cells.toList
  used_le : d.used ≤ pageSize
  child : d.kind = .internal → ∀ c ∈ d.cells.toList, c.value.length = 8

theorem Sound.filled {d : NodeDraft} (hd : d.Sound) : d.Filled := ⟨hd.used_eq, hd.used_le⟩

theorem sound_empty (kind : NodeKind) : Sound { kind := kind } where
  used_eq := rfl
  used_le := show Node.slotsStart ≤ pageSize by decide
  child := fun _ c hc => by contradiction

theorem Sound.push {d d' : NodeDraft} {cell : Cell} (hd : d.Sound) (h : d.push cell = .ok d')
    (hcell : d.kind = .internal → cell.value.length = 8) : d'.Sound := by
  obtain ⟨hused, hle⟩ := hd.filled.push h
  refine ⟨hused, hle, ?_⟩
  obtain ⟨-, rfl⟩ := push_eq_ok h
  intro hkind c hc
  rw [Array.toList_push, List.mem_append, List.mem_singleton] at hc
  rcases hc with hc | rfl
  · exact hd.child hkind c hc
  · exact hcell hkind

/-- The cells of a draft fit on its page. -/
theorem Sound.payload_le {d : NodeDraft} (hd : d.Sound) {c : Cell} (hc : c ∈ d.cells.toList) :
    c.payload ≤ pageSize := by
  obtain ⟨before, behind, hsplit⟩ := List.append_of_mem hc
  have hused := hd.used_le
  rw [hd.used_eq, hsplit, cellsSize_append, cellsSize, cellSize] at hused
  rw [Cell.payload]
  omega

end NodeDraft

/-! ## Stores -/

/-- All nodes of one source are also in the other, under the same ids. -/
def NodeSource.Keeps (s s' : NodeSource) : Prop :=
  ∀ {id : PageId} {n : Node}, s.fetch id = .ok n → s'.fetch id = .ok n

namespace NodeSource.Keeps

theorem refl (s : NodeSource) : s.Keeps s := fun h => h

theorem trans {s s' s'' : NodeSource} (h : s.Keeps s') (h' : s'.Keeps s'') : s.Keeps s'' :=
  fun hid => h' (h hid)

end NodeSource.Keeps

/-- Stores that find what was put into them and lose nothing by it. -/
class LawfulStorage (σ : Type) [Storage σ] where
  /-- What holds of a store that is in order. -/
  Sound : σ → Prop
  put_ok : ∀ {store store' : σ} {d : NodeDraft} {id : PageId}, Sound store → d.Sound →
    Storage.put store d.finish = (.ok id, store') →
    Sound store' ∧ id ≠ 0 ∧ (Storage.source store').fetch id = .ok d.finish ∧
      (Storage.source store).Keeps (Storage.source store')
  commitRoot_ok : ∀ {store store' : σ} {root : PageId}, Sound store →
    Storage.commitRoot store root = (.ok (), store') →
    (Storage.source store).Keeps (Storage.source store')

namespace MemoryStore

theorem fetch_of_getElem? {m : MemoryStore} {id : PageId} {n : Node} (hid : id ≠ 0)
    (h : m.nodes[id.toNat - 1]? = some n) : m.fetch id = .ok n := by
  rw [fetch, if_neg hid, h]

/-- A node that is put gets the next id. -/
theorem put_eq_ok {m m' : MemoryStore} {n : Node} {id : PageId} (h : m.put n = (.ok id, m')) :
    id.toNat = m.nodes.size + 1 ∧ m' = { m with nodes := m.nodes.push n } := by
  unfold put at h
  split at h
  · next hlt =>
    obtain ⟨hid, hm'⟩ := Prod.mk.inj h
    rw [← Except.ok.inj hid]
    exact ⟨UInt64.toNat_ofNat_of_lt' hlt, hm'.symm⟩
  · have hid := (Prod.mk.inj h).1
    contradiction

/-- The nodes that were put before stay where they are. -/
theorem fetch_push {m : MemoryStore} {id : PageId} {n : Node} (h : m.fetch id = .ok n)
    (new : Node) : { m with nodes := m.nodes.push new }.fetch id = .ok n := by
  obtain ⟨hid, hget⟩ := fetch_eq_ok h
  obtain ⟨hlt, -⟩ := Array.getElem?_eq_some_iff.mp hget
  refine fetch_of_getElem? hid ?_
  show (m.nodes.push new)[id.toNat - 1]? = some n
  rw [Array.getElem?_push, if_neg (Nat.ne_of_lt hlt), hget]

instance : LawfulStorage MemoryStore where
  Sound _ := True
  put_ok := by
    intro store store' d id _ _ hput
    obtain ⟨hid, rfl⟩ := put_eq_ok hput
    have hne : id ≠ 0 := by
      rintro rfl
      contradiction
    refine ⟨trivial, hne, fetch_of_getElem? hne ?_, fun hold => fetch_push hold _⟩
    rw [hid]
    exact Array.getElem?_push_size
  commitRoot_ok := by
    intro store store' root _ hcommit
    obtain ⟨-, rfl⟩ := Prod.mk.inj hcommit
    exact fun h => h

end MemoryStore

end RangeStore
