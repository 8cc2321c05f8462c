import RangeStore.Proofs.Storage.Lawful
set_option autoImplicit false

/-! # The order in which nodes are put

What happens to a store while a tree is loaded is a sequence of nodes put, one after the other
(`Puts`). A lawful store is still in order after it and has lost nothing. A store that gives out
page ids in ascending order (`SerialStorage`) gives each node an id of its own, greater than all
before it: what was put later has the greater id. -/

namespace RangeStore

/-- From one state of a store to another by putting the nodes of sound drafts, which got these ids,
in this order. -/
inductive Puts {σ : Type} [Storage σ] : σ → List PageId → σ → Prop
  | done (store : σ) : Puts store [] store
  | put {store next store' : σ} {d : NodeDraft} {id : PageId} {ids : List PageId} (hd : d.Sound)
      (h : Storage.put store d.finish = (.ok id, next)) (rest : Puts next ids store') :
      Puts store (id :: ids) store'

/-- Stores that give out their page ids in ascending order. -/
class SerialStorage (σ : Type) [Storage σ] [LawfulStorage σ] where
  /-- The ids that have been given out, in this order. -/
  taken : σ → List PageId
  put_taken : ∀ {store store' : σ} {n : Node} {id : PageId}, LawfulStorage.Sound store →
    Storage.put store n = (.ok id, store') →
    taken store' = taken store ++ [id] ∧ ∀ old ∈ taken store, old < id

namespace Puts

variable {σ : Type} [Storage σ] {store next store' : σ} {ids more : List PageId}

theorem trans (h : Puts store ids next) (h' : Puts next more store') :
    Puts store (ids ++ more) store' := by
  induction h with
  | done => exact h'
  | put hd hput _ ih => exact Puts.put hd hput (ih h')

/-- A store in order is still in order, and has all nodes that it had. -/
theorem sound_keeps [LawfulStorage σ] (h : Puts store ids store')
    (hstore : LawfulStorage.Sound store) :
    LawfulStorage.Sound store' ∧ (Storage.source store).Keeps (Storage.source store') := by
  induction h with
  | done => exact ⟨hstore, NodeSource.Keeps.refl _⟩
  | put hd hput _ ih =>
    obtain ⟨hsound, -, -, hkeep⟩ := LawfulStorage.put_ok hstore hd hput
    obtain ⟨hsound', hkeep'⟩ := ih hsound
    exact ⟨hsound', hkeep.trans hkeep'⟩

/-- The ids come behind those that were taken before, in ascending order. -/
theorem taken_eq [LawfulStorage σ] [SerialStorage σ] (h : Puts store ids store')
    (hstore : LawfulStorage.Sound store) :
    SerialStorage.taken store' = SerialStorage.taken store ++ ids ∧ ids.Pairwise (· < ·) ∧
      ∀ old ∈ SerialStorage.taken store, ∀ id ∈ ids, old < id := by
  induction h with
  | done => exact ⟨(List.append_nil _).symm, List.Pairwise.nil, fun _ _ id hid => by contradiction⟩
  | @put store next store' d id ids hd hput _ ih =>
    obtain ⟨hsound, -, -, -⟩ := LawfulStorage.put_ok hstore hd hput
    obtain ⟨htaken, hbefore⟩ := SerialStorage.put_taken hstore hput
    obtain ⟨htaken', hascending, hafter⟩ := ih hsound
    -- the first id is one of those taken when the others are given out
    have hfirst : ∀ other ∈ ids, id < other := fun other hother =>
      hafter id (by rw [htaken]; exact List.mem_append_right _ (List.mem_singleton.mpr rfl)) other
        hother
    refine ⟨?_, List.pairwise_cons.mpr ⟨hfirst, hascending⟩, ?_⟩
    · rw [htaken', htaken, List.append_assoc, List.singleton_append]
    · intro old hold other hother
      rcases List.mem_cons.mp hother with rfl | hother
      · exact hbefore old hold
      · exact hafter old (by rw [htaken]; exact List.mem_append_left _ hold) other hother

end Puts

/-- Nodes in memory are numbered from 1 on. -/
instance : SerialStorage MemoryStore where
  taken := MemoryStore.ids
  put_taken := by
    intro store store' n id _ hput
    obtain ⟨hid, rfl⟩ := MemoryStore.put_eq_ok hput
    have hlast : UInt64.ofNat (store.nodes.size + 1) = id := by rw [← hid, UInt64.ofNat_toNat]
    have hlimit : store.nodes.size + 1 < UInt64.size := hid ▸ id.toNat_lt
    constructor
    · rw [MemoryStore.ids, Array.size_push, List.range_succ, List.map_append, List.map_singleton,
        hlast]
      rfl
    · intro old hold
      obtain ⟨i, hi, rfl⟩ := List.mem_map.mp hold
      have hi' : i < store.nodes.size := List.mem_range.mp hi
      rw [UInt64.lt_iff_toNat_lt, UInt64.toNat_ofNat_of_lt' (by omega), hid]
      omega

end RangeStore
