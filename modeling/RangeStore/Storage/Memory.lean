import RangeStore.Storage.Source
set_option autoImplicit false

/-! # Nodes in memory

The first node that is put gets the id 1, the next one 2, and so on. -/

namespace RangeStore

/-- Nodes in the order in which they were put, and the last committed root. -/
structure MemoryStore where
  nodes : Array Node := #[]
  root : PageId := 0

namespace MemoryStore

def fetch (m : MemoryStore) (id : PageId) : Except StoreError Node :=
  if id = 0 then .error (.pageNotFound id)
  else
    match m.nodes[id.toNat - 1]? with
    | none => .error (.pageNotFound id)
    | some n => .ok n

/-- The number of cells in some nodes together. -/
def cellsIn : List Node → Nat
  | [] => 0
  | n :: rest => n.size + cellsIn rest

def cellCount (m : MemoryStore) : Nat := cellsIn m.nodes.toList

theorem fetch_eq_ok {m : MemoryStore} {id : PageId} {n : Node} (h : m.fetch id = .ok n) :
    id ≠ 0 ∧ m.nodes[id.toNat - 1]? = some n := by
  simp only [fetch] at h
  split at h
  · contradiction
  · next hid =>
    split at h
    · contradiction
    · next found hfound =>
      simp only [Except.ok.injEq] at h
      exact ⟨hid, h ▸ hfound⟩

/-- The ids in use, in ascending order. -/
def ids (m : MemoryStore) : List PageId :=
  (List.range m.nodes.size).map fun i => UInt64.ofNat (i + 1)

theorem mem_ids_of_fetch {m : MemoryStore} {id : PageId} {n : Node} (h : m.fetch id = .ok n) :
    id ∈ m.ids := by
  obtain ⟨hid, hget⟩ := fetch_eq_ok h
  obtain ⟨hlt, _⟩ := Array.getElem?_eq_some_iff.mp hget
  have hpos : id.toNat ≠ 0 := fun h0 => hid (UInt64.toNat_inj.mp h0)
  refine List.mem_map.mpr ⟨id.toNat - 1, List.mem_range.mpr hlt, ?_⟩
  rw [Nat.sub_add_cancel (by omega), UInt64.ofNat_toNat]

theorem size_le_cellsIn {n : Node} {nodes : List Node} (h : n ∈ nodes) :
    n.size ≤ cellsIn nodes := by
  induction nodes with
  | nil => contradiction
  | cons first rest ih =>
    rw [cellsIn]
    rcases List.mem_cons.mp h with rfl | h
    · omega
    · have := ih h
      omega

theorem size_le_cellCount {m : MemoryStore} {id : PageId} {n : Node} (h : m.fetch id = .ok n) :
    n.size ≤ m.cellCount := by
  obtain ⟨_, hget⟩ := fetch_eq_ok h
  exact size_le_cellsIn (Array.mem_toList_iff.mpr (Array.mem_of_getElem? hget))

def source (m : MemoryStore) : NodeSource where
  fetch := m.fetch
  extent := m.nodes.size
  capacity := m.cellCount
  exists_ids := ⟨m.ids, by simp [ids], mem_ids_of_fetch⟩
  size_le_capacity := size_le_cellCount

/-- Adds a node under the next id, as long as there is one. -/
def put (m : MemoryStore) (n : Node) : Except StoreError PageId × MemoryStore :=
  if m.nodes.size + 1 < UInt64.size then
    (.ok (UInt64.ofNat (m.nodes.size + 1)), { m with nodes := m.nodes.push n })
  else (.error .outOfRange, m)

instance : Storage MemoryStore where
  source := source
  put := put
  commitRoot m root := (.ok (), { m with root := root })

end MemoryStore

end RangeStore
