import Mathlib.Data.List.Forall2
import RangeStore.Proofs.Database.Tables
import RangeStore.Proofs.Schema.Whole
set_option autoImplicit false

/-! # Names in the catalog

A catalog that is loaded holds its tables by name. The key of an entry is read only as far as the
name goes: bytes behind it are passed over, unlike those behind the value. So two keys may have the
same name, and of the tables under one name only that of the last key is kept
(`Catalog.load_keeps_last`). Where every key ends behind its name, no entry is lost. -/

namespace RangeStore

open Std RangeStore.Tuple

namespace Catalog

/-! ## What a key says -/

theorem name_of_readDraft {name : String} {bytes : Bytes} {d : Draft} {rest : Bytes}
    (h : readDraft name bytes = .ok (d, rest)) : d.name = name := by
  unfold readDraft at h
  obtain ⟨⟨space, _⟩, -, h⟩ := exists_of_bind_eq_ok h
  dsimp only at h
  split at h
  · contradiction
  · obtain ⟨_, -, h⟩ := exists_of_bind_eq_ok h
    obtain ⟨_, -, h⟩ := exists_of_bind_eq_ok h
    obtain ⟨_, -, h⟩ := exists_of_bind_eq_ok h
    obtain ⟨_, -, h⟩ := exists_of_bind_eq_ok h
    obtain ⟨_, -, h⟩ := exists_of_bind_eq_ok h
    obtain ⟨rfl, -⟩ := Prod.mk.inj (Except.ok.inj h)
    rfl

/-- The key of the table that is read stands at the beginning of the entry's key. -/
theorem key_isPrefix_of_readTable {e : Cell} {t : Table} (h : readTable e = .ok t) :
    (entry t).key <+: e.key := by
  obtain ⟨body, name, behind, d, hsplit, hname, hdraft, hbuild⟩ := readTable_eq_ok h
  obtain ⟨-, -, -, -, -, indexes, -, htable⟩ := Draft.build_eq_ok hbuild
  have htableName : t.name = name := by
    rw [htable]
    exact name_of_readDraft hdraft
  rw [eq_of_splitKey hsplit, eq_of_readName hname, entry, encodeKey, htableName, encode_cons,
    encode_nil, List.append_nil, ← List.append_assoc]
  exact List.prefix_append _ _

/-! ## Gathering -/

/-- What is gathered is the tables of the entries, put in one after the other. -/
theorem gather_eq_ok {found c : Catalog} {entries : List Cell} (h : gather found entries = .ok c) :
    ∃ tables, List.Forall₂ (fun e t => readTable e = .ok t) entries tables ∧
      c = tables.foldl insert found := by
  induction entries generalizing found with
  | nil => exact ⟨[], .nil, (Except.ok.inj h).symm⟩
  | cons e entries ih =>
    rw [gather] at h
    split at h
    · contradiction
    · next t ht =>
      obtain ⟨tables, hread, hc⟩ := ih h
      exact ⟨t :: tables, .cons ht hread, hc⟩

theorem find?_insert (c : Catalog) (t : Table) (name : String) :
    (c.insert t).find? name = if t.name = name then some t else c.find? name := by
  obtain ⟨tables⟩ := c
  simp only [insert, find?, ← beq_iff_eq (a := t.name)]
  induction tables with
  | nil => rw [place, List.find?_cons, List.find?_nil]; cases t.name == name <;> rfl
  | cons u rest ih =>
    rw [place, List.find?_cons]
    cases hcompare : compare t.name u.name with
    | lt =>
      rw [List.find?_cons, List.find?_cons]
      cases t.name == name <;> rfl
    | eq =>
      have hname : t.name = u.name := LawfulEqOrd.eq_of_compare hcompare
      rw [List.find?_cons, hname]
      cases u.name == name <;> rfl
    | gt =>
      rw [List.find?_cons, ih]
      cases hu : u.name == name with
      | false => rfl
      | true =>
        -- the table has another name than the one that it goes behind
        have hdiffer : (t.name == name) = false := by
          refine beq_eq_false_iff_ne.mpr fun hname => ?_
          rw [hname, beq_iff_eq.mp hu, ReflOrd.compare_self] at hcompare
          contradiction
        rw [hdiffer]
        rfl

/-- Under each name the table that was put in last is found. -/
theorem find?_foldl_insert (tables : List Table) (found : Catalog) (name : String) :
    (tables.foldl insert found).find? name =
      (tables.filter (·.name = name)).getLast?.or (found.find? name) := by
  induction tables generalizing found with
  | nil => rfl
  | cons t tables ih =>
    rw [List.foldl_cons, ih, find?_insert]
    by_cases hname : t.name = name
    · rw [if_pos hname, List.filter_cons_of_pos (by simpa using hname), List.getLast?_cons]
      cases (tables.filter (·.name = name)).getLast? <;> rfl
    · rw [if_neg hname, List.filter_cons_of_neg (by simpa using hname)]

/-- The names of a catalog that is gathered ascend, so none is there twice. -/
theorem namesAscend_foldl_insert (tables : List Table) {found : Catalog}
    (h : NamesAscend found.tables) : NamesAscend (tables.foldl insert found).tables := by
  induction tables generalizing found with
  | nil => exact h
  | cons t tables ih => exact ih (h.place t)

/-- Ascending keys that are those of their tables have different names. -/
theorem namesDiffer_of_keys {entries : List Cell} {tables : List Table} (h : Ascending entries)
    (hkeys : List.Forall₂ (fun e t => (entry t).key = e.key) entries tables) :
    NamesDiffer tables := by
  have hsame : tables.map (fun t => (entry t).key) = entries.map (·.key) := by
    induction hkeys with
    | nil => rfl
    | cons hkey _ ih => rw [List.map_cons, List.map_cons, hkey, ih h.of_cons]
  have hascend : (entries.map (·.key)).Pairwise fun a b => compare a b = .lt :=
    List.pairwise_map.mpr h
  rw [← hsame] at hascend
  refine (List.pairwise_map.mp hascend).imp fun {t u} hlt hname => ?_
  rw [entry, entry, hname, ReflOrd.compare_self] at hlt
  contradiction

/-! ## Loading -/

variable {s : NodeSource} {root : PageId} {tree : Tree}

/-- In a search tree every entry of the catalog is read, and its key begins with the key of its
table. Under each name the table of the last entry is kept, and no other: so the catalog has one
table for each entry exactly if no two entries have the same name. This is so if each key is that of
its table. -/
theorem load_keeps_last (ht : tree.Rooted s root) (hsearch : tree.Search) {c : Catalog}
    (hload : load s root = .ok c) :
    ∃ tables, List.Forall₂ (fun e t => readTable e = .ok t ∧ (entry t).key <+: e.key)
        (tree.entries.filter inCatalog) tables ∧
      (∀ name, c.find? name = (tables.filter (·.name = name)).getLast?) ∧
      NamesAscend c.tables ∧ (c.tables.Perm tables ↔ NamesDiffer tables) ∧
      (List.Forall₂ (fun e t => (entry t).key = e.key) (tree.entries.filter inCatalog) tables →
        c.tables.Perm tables) := by
  rw [load_eq ht hsearch] at hload
  obtain ⟨tables, hread, rfl⟩ := gather_eq_ok hload
  have hascend : NamesAscend (tables.foldl insert empty).tables :=
    namesAscend_foldl_insert tables List.Pairwise.nil
  have hperm : NamesDiffer tables → (tables.foldl insert empty).tables.Perm tables := fun hdiffer =>
    (foldl_insert_perm tables List.Pairwise.nil hdiffer).2
  refine ⟨tables, hread.imp fun e t h => ⟨h, key_isPrefix_of_readTable h⟩, fun name => ?_, hascend,
    ⟨fun h => hascend.differ.perm h, hperm⟩, fun hkeys => hperm ?_⟩
  · rw [find?_foldl_insert]
    exact Option.or_none
  · exact namesDiffer_of_keys (hsearch.ascending.sublist List.filter_sublist) hkeys

/-! ## A name listed twice -/

def hall : Table := ⟨"hall", [⟨"id", .int64⟩], 1, 100, []⟩

/-- The table `hall` under its own key, and under the key with one byte more. -/
def hallsTwice : List Cell := [entry hall, ⟨(entry hall).key ++ [0], (entry hall).value⟩]

def twiceStore : MemoryStore where
  nodes := #[NodeDraft.finish { kind := .leaf, cells := hallsTwice.toArray }]
  root := 1

def twiceTree : Tree := .leaf (NodeDraft.finish { kind := .leaf, cells := hallsTwice.toArray })

theorem twiceTree_rooted : twiceTree.Rooted twiceStore.source 1 where
  fetch := rfl
  held := rfl
  root_ne_zero := by decide
  full := Or.inr rfl

theorem twiceTree_search : twiceTree.Search where
  ascending := by unfold Ascending; decide
  separated := trivial

theorem load_twiceStore : load twiceStore.source 1 = .ok ⟨[hall]⟩ := by decide +kernel

/-- Two entries lie in the catalog and both are read, but only one table is kept; the second key is
not that of its table. -/
theorem load_loses_entry :
    twiceTree.Rooted twiceStore.source 1 ∧ twiceTree.Search ∧
      load twiceStore.source 1 = .ok ⟨[hall]⟩ ∧
      twiceTree.entries.filter inCatalog = hallsTwice ∧
      ∃ e ∈ hallsTwice, readTable e = .ok hall ∧ (entry hall).key ≠ e.key := by
  have hread : readTable ⟨(entry hall).key ++ [0], (entry hall).value⟩ = .ok hall := by
    decide +kernel
  exact ⟨twiceTree_rooted, twiceTree_search, load_twiceStore, by decide, _,
    List.mem_cons_of_mem _ List.mem_cons_self, hread, by decide⟩

/-- Of the two entries the table `hall` is kept once. -/
theorem load_keeps_last_hall :
    ∃ tables, List.Forall₂ (fun e t => readTable e = .ok t ∧ (entry t).key <+: e.key)
        (twiceTree.entries.filter inCatalog) tables ∧
      (∀ name, find? ⟨[hall]⟩ name = (tables.filter (·.name = name)).getLast?) ∧
      NamesAscend [hall] ∧ ([hall].Perm tables ↔ NamesDiffer tables) ∧
      (List.Forall₂ (fun e t => (entry t).key = e.key) (twiceTree.entries.filter inCatalog)
        tables → [hall].Perm tables) :=
  load_keeps_last twiceTree_rooted twiceTree_search load_twiceStore

end Catalog

end RangeStore
