import RangeStore.Proofs.Database.Scan
import RangeStore.Proofs.Database.Tables
set_option autoImplicit false

/-! # The order of tables and rows

A database does not depend on the order in which its tables and rows are given
(`Database.build_perm`). What is accepted can be said without an order: the tables are apart from
each other, each row is one of a table, and no two of all entries have the same key. The entries
that come out are then the same up to order; and since the catalog keeps its tables in the order of
their names and the entries are kept in the order of their keys, they are the same. -/

namespace RangeStore

open Std

/-- A fold comes to its end if every step can be made after those before it. -/
theorem foldlM_progress {ε α β : Type} {step : β → α → Except ε β} (P : List α → β → Prop)
    {l : List α} {b : β} (hstart : P [] b)
    (hstep : ∀ {done rest : List α} {a : α} {b : β}, done ++ a :: rest = l → P done b →
      ∃ b', step b a = .ok b' ∧ P (done ++ [a]) b') :
    ∃ b', l.foldlM step b = .ok b' ∧ P l b' := by
  have hall : ∀ (rest done : List α) (b : β), done ++ rest = l → P done b →
      ∃ b', rest.foldlM step b = .ok b' ∧ P l b' := by
    intro rest
    induction rest with
    | nil =>
      intro done b hdone hb
      rw [List.append_nil] at hdone
      exact ⟨b, rfl, hdone ▸ hb⟩
    | cons a rest ih =>
      intro done b hdone hb
      obtain ⟨next, hnext, hP⟩ := hstep hdone hb
      have hsplit : (done ++ [a]) ++ rest = l := by rw [← hdone, List.append_assoc]; rfl
      obtain ⟨b', hb', hend⟩ := ih (done ++ [a]) next hsplit hP
      refine ⟨b', ?_, hend⟩
      rw [List.foldlM_cons, hnext]
      exact hb'
  exact hall l [] b rfl hstart

/-! ## Entries in the order of their keys -/

def KeysDiffer (entries : List Cell) : Prop := entries.Pairwise fun a b => a.key ≠ b.key

theorem KeysDiffer.perm {entries others : List Cell} (h : KeysDiffer entries)
    (hperm : entries.Perm others) : KeysDiffer others :=
  (hperm.pairwise_iff Ne.symm).mp h

namespace Ascending

variable {entries others : List Cell}

theorem keysDiffer (h : Ascending entries) : KeysDiffer entries := by
  refine h.imp ?_
  intro a b hlt heq
  rw [heq, ReflOrd.compare_self] at hlt
  contradiction

/-- The same entries in ascending order are the same list. -/
theorem eq_of_perm (h : Ascending entries) (h' : Ascending others) (hperm : entries.Perm others) :
    entries = others := by
  refine List.Perm.eq_of_pairwise ?_ h h' hperm
  intro a b _ _ hab hba
  rw [OrientedCmp.gt_of_lt hab] at hba
  contradiction

/-- An entry is put at its place. -/
theorem insert (h : Ascending entries) (new : Cell) : Ascending (Entries.insert new entries) := by
  induction entries with
  | nil => exact List.pairwise_singleton _ _
  | cons cell rest ih =>
    obtain ⟨hfirst, hrest⟩ := List.pairwise_cons.mp h
    unfold Entries.insert
    split
    · next hlt =>
      refine List.pairwise_cons.mpr ⟨?_, h⟩
      intro e he
      rcases List.mem_cons.mp he with rfl | he
      · exact hlt
      · exact TransCmp.lt_trans hlt (hfirst e he)
    · next heq =>
      have hkey : new.key = cell.key := LawfulEqOrd.eq_of_compare heq
      refine List.pairwise_cons.mpr ⟨?_, hrest⟩
      intro e he
      rw [hkey]
      exact hfirst e he
    · next hgt =>
      refine List.pairwise_cons.mpr ⟨?_, ih hrest⟩
      intro e he
      rcases Entries.mem_insert he with rfl | he
      · exact OrientedCmp.lt_of_gt hgt
      · exact hfirst e he

theorem insertAll (h : Ascending entries) (new : List Cell) :
    Ascending (Entries.insertAll new entries) := by
  induction new generalizing entries with
  | nil => exact h
  | cons first rest ih => exact ih (h.insert first)

end Ascending

theorem Entries.find?_eq_none {key : Bytes} {entries : List Cell}
    (h : ∀ e ∈ entries, e.key ≠ key) : find? key entries = none := by
  induction entries with
  | nil => rfl
  | cons cell rest ih =>
    rw [find?, if_neg (h cell (List.mem_cons_self ..))]
    exact ih fun e he => h e (List.mem_cons_of_mem _ he)

namespace Content

variable {c : Catalog} {tables others : List Table} {rows moved : List (String × Record)}
  {entries : List Cell}

/-! ## Tables -/

theorem addTable_of_apart {t : Table} (h : ∀ u ∈ c.tables, Apart t u) :
    addTable c t = .ok (c.insert t) := by
  have hspaces : c.tables.find? t.overlaps = none := by
    refine List.find?_eq_none.mpr ?_
    intro u hu hoverlap
    rw [(h u hu).1] at hoverlap
    contradiction
  have hname : t.name ∉ c.names := by
    intro hmem
    obtain ⟨u, hu, heq⟩ := List.mem_map.mp hmem
    exact (h u hu).2 heq.symm
  rw [addTable, hspaces]
  exact if_neg hname

/-- Tables that are apart from each other are taken in any order. -/
theorem catalogOf_of_apart (h : tables.Pairwise Apart) :
    ∃ c, catalogOf tables = .ok c ∧ Lists c tables := by
  refine foldlM_progress (fun done c => Lists c done) ⟨List.Perm.refl _, List.Pairwise.nil⟩ ?_
  intro done rest t c hdone hc
  have hapart : ∀ u ∈ c.tables, Apart t u := by
    intro u hu
    rw [← hdone] at h
    have hbefore := (List.pairwise_append.mp h).2.2 u (hc.perm.mem_iff.mp hu) t
    exact (hbefore (List.mem_cons_self ..)).symm
  have hadd := addTable_of_apart hapart
  exact ⟨_, hadd, addTable_eq_ok hc hadd⟩

/-- The catalog of the same tables in another order. -/
theorem catalogOf_perm (h : catalogOf tables = .ok c) (hperm : tables.Perm others) :
    catalogOf others = .ok c := by
  have hlists := catalogOf_eq_ok h
  have hall : c.tables.Perm others := hlists.perm.trans hperm
  obtain ⟨c', hc', hlists'⟩ := catalogOf_of_apart ((hall.pairwise_iff Apart.symm).mp hlists.apart)
  have heq : c'.tables = c.tables :=
    (catalogOf_ascend hc').eq_of_perm (catalogOf_ascend h) (hlists'.perm.trans hall.symm)
  rw [hc']
  exact congrArg Except.ok (congrArg Catalog.mk heq)

/-! ## Rows -/

/-- The row is one of a table, which takes it. -/
def Taken (c : Catalog) (row : String × Record) : Prop :=
  ∃ cells, rowEntries c.find? row = .ok cells

/-- What adding a row says of it and does. -/
theorem addRow_steps {entries' : List Cell} {row : String × Record}
    (h : addRow c entries row = .ok entries') :
    Taken c row ∧ ∃ new, entries' = Entries.insertAll new entries := by
  unfold addRow at h
  split at h
  · contradiction
  · next entry others hcells =>
    split at h
    · contradiction
    · exact ⟨⟨_, hcells⟩, _, (Except.ok.inj h).symm⟩

/-- When all rows have been added, each of them was taken, and the entries are in order. -/
theorem foldlM_addRow_steps (h : rows.foldlM (addRow c) (catalogEntries c) = .ok entries) :
    (∀ row ∈ rows, Taken c row) ∧ Ascending entries := by
  have hnone : Ascending [] := List.Pairwise.nil
  have hstart : (∀ row ∈ ([] : List (String × Record)), Taken c row) ∧
      Ascending (catalogEntries c) :=
    ⟨fun row hrow => absurd hrow List.not_mem_nil, hnone.insertAll _⟩
  refine foldlM_invariant
    (fun done entries => (∀ row ∈ done, Taken c row) ∧ Ascending entries) ?_ hstart h
  intro done entries row entries' hdone hadd
  obtain ⟨htaken, new, rfl⟩ := addRow_steps hadd
  refine ⟨?_, hdone.2.insertAll new⟩
  intro row' hrow'
  rcases List.mem_append.mp hrow' with hrow' | hrow'
  · exact hdone.1 row' hrow'
  · rwa [List.mem_singleton.mp hrow']

/-- Rows that are taken by tables are added in any order, if no two entries have the same key. -/
theorem foldlM_addRow_of_differ (hlists : Lists c tables) (hsound : ∀ t ∈ c.tables, t.Sound)
    (htaken : ∀ row ∈ rows, Taken c row)
    (hdiffer : KeysDiffer (catalogEntries c ++ rows.flatMap (cellsOf c))) :
    ∃ entries, rows.foldlM (addRow c) (catalogEntries c) = .ok entries ∧ Holds c rows entries := by
  refine foldlM_progress (fun done entries => Holds c done entries) ?_ ?_
  · refine ⟨?_, fun row hrow => absurd hrow List.not_mem_nil⟩
    rw [List.flatMap_nil, List.append_nil]
  · intro done rest row entries hdone hold
    obtain ⟨⟨entry, others⟩, hcells⟩ := htaken row
      (hdone ▸ List.mem_append_right _ (List.mem_cons_self ..))
    -- the entries so far come before those of this row
    have hnew : ∀ e ∈ entries, e.key ≠ entry.key := by
      intro e he
      rw [← hdone, List.flatMap_append, List.flatMap_cons, ← List.append_assoc] at hdiffer
      refine (List.pairwise_append.mp hdiffer).2.2 e (hold.perm.mem_iff.mp he) entry ?_
      rw [← (rowEntries_eq_ok hsound hcells).2]
      exact List.mem_append_left _ (List.mem_cons_self ..)
    have hadd : addRow c entries row = .ok (Entries.insertAll (entry :: others) entries) := by
      rw [addRow, hcells]
      simp only [Entries.find?_eq_none hnew]
    exact ⟨_, hadd, addRow_eq_ok hlists hsound hold hadd⟩

/-- The entries of the same tables and rows in another order are the same. -/
theorem ofRows_perm (htables : ∀ t ∈ tables, t.Sound) (h : ofRows tables rows = .ok (c, entries))
    (hperm : tables.Perm others) (hmoved : rows.Perm moved) :
    ofRows others moved = .ok (c, entries) := by
  obtain ⟨hlists, hold⟩ := ofRows_eq_ok htables h
  unfold ofRows at h ⊢
  split at h
  · contradiction
  · next found hfound =>
    split at h
    · contradiction
    · next all hall =>
      obtain ⟨rfl, rfl⟩ := Prod.mk.inj (Except.ok.inj h)
      obtain ⟨htaken, hascending⟩ := foldlM_addRow_steps hall
      have hcells : (catalogEntries found ++ rows.flatMap (cellsOf found)).Perm
          (catalogEntries found ++ moved.flatMap (cellsOf found)) :=
        (hmoved.flatMap_right _).append_left _
      have hdiffer := (hascending.keysDiffer.perm hold.perm).perm hcells
      have hsound : ∀ t ∈ found.tables, t.Sound := by
        intro t ht
        exact htables t (hlists.perm.mem_iff.mp ht)
      obtain ⟨entries', hadd, hold'⟩ := foldlM_addRow_of_differ hlists hsound
        (fun row hrow => htaken row (hmoved.mem_iff.mpr hrow)) hdiffer
      have hsame : entries'.Perm all :=
        calc entries'
          _ |>.Perm (catalogEntries found ++ moved.flatMap (cellsOf found)) := hold'.perm
          _ |>.Perm (catalogEntries found ++ rows.flatMap (cellsOf found)) := hcells.symm
          _ |>.Perm all := hold.perm.symm
      rw [catalogOf_perm hfound hperm]
      simp only [hadd, (foldlM_addRow_steps hadd).2.eq_of_perm hascending hsame]

end Content

/-! ## Databases -/

namespace Database

variable {σ : Type} [Storage σ] {settings : Settings} {tables others : List Table}
  {rows moved : List (String × Record)}

theorem build_of_perm {store store' : σ} {db : Database σ}
    (htables : ∀ t ∈ tables, ∃ d : Draft, d.build = .ok t) (hperm : tables.Perm others)
    (hmoved : rows.Perm moved) (h : build store settings tables rows = (.ok db, store')) :
    build store settings others moved = (.ok db, store') := by
  have hsound : ∀ t ∈ tables, t.Sound := by
    intro t ht
    obtain ⟨d, hd⟩ := htables t ht
    exact Draft.sound_of_build hd
  obtain ⟨c, entries, root, loaded, hrows, -⟩ := build_eq_ok h
  have hsame := Content.ofRows_perm hsound hrows hperm hmoved
  rw [← h]
  unfold build
  rw [hrows, hsame]

/-- The order of the tables and of the rows makes no difference: if a database is built of them in
one order, the same one is built in every other order, with the same root, in the same store, so
with the same pages; and if none is built in one order, none is in any other. -/
theorem build_perm (store : σ) (settings : Settings)
    (htables : ∀ t ∈ tables, ∃ d : Draft, d.build = .ok t) (hperm : tables.Perm others)
    (hmoved : rows.Perm moved) (db : Database σ) (store' : σ) :
    build store settings tables rows = (.ok db, store') ↔
      build store settings others moved = (.ok db, store') := by
  constructor
  · exact build_of_perm htables hperm hmoved
  · have hothers : ∀ t ∈ others, ∃ d : Draft, d.build = .ok t := by
      intro t ht
      exact htables t (hperm.mem_iff.mpr ht)
    exact build_of_perm hothers hperm.symm hmoved.symm

def ponds : Table := ⟨"ponds", [⟨"id", .int64⟩], 1, 200, []⟩

/-- The towns and a pond, the other way around. Eleven nodes are stored, the root as the last. -/
theorem build_perm_towns : ∃ db store',
    build ({} : MemoryStore) { maxNodeKeys := 2 } [towns, ponds]
        (("ponds", ⟨["id"], [.int 7]⟩) :: townRows) = (.ok db, store') ∧
      build ({} : MemoryStore) { maxNodeKeys := 2 } [ponds, towns]
        (("ponds", ⟨["id"], [.int 7]⟩) :: townRows).reverse = (.ok db, store') ∧
      db.root = 11 ∧ store'.nodes.size = 11 := by
  have htowns : Draft.build ⟨"towns", [⟨"id", .int64⟩, ⟨"name", .bytes⟩], 1, 100,
      [⟨"byName", ["name"]⟩]⟩ = .ok towns := rfl
  have hponds : Draft.build ⟨"ponds", [⟨"id", .int64⟩], 1, 200, []⟩ = .ok ponds := rfl
  have htables : ∀ t ∈ [towns, ponds], ∃ d : Draft, d.build = .ok t := by
    intro t ht
    rcases List.mem_cons.mp ht with rfl | ht
    · exact ⟨_, htowns⟩
    · rw [List.mem_singleton.mp ht]
      exact ⟨_, hponds⟩
  have hruns : (match build ({} : MemoryStore) { maxNodeKeys := 2 } [towns, ponds]
        (("ponds", ⟨["id"], [.int 7]⟩) :: townRows) with
      | (.ok db, store') => decide (db.root = 11 ∧ store'.nodes.size = 11)
      | (.error _, _) => false) = true := by decide +kernel
  split at hruns
  · next db store' hbuild =>
    have hsame := build_perm {} { maxNodeKeys := 2 } htables (List.Perm.swap ponds towns [])
      (List.reverse_perm (("ponds", ⟨["id"], [.int 7]⟩) :: townRows)).symm db store'
    exact ⟨db, store', hbuild, hsame.mp hbuild, of_decide_eq_true hruns⟩
  · contradiction

end Database

end RangeStore
