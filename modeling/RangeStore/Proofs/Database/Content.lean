import RangeStore.Database.Content
import RangeStore.Proofs.Scan.KeyLayout
set_option autoImplicit false

/-! # The entries of a database

What tables and rows become is, up to order, the entries of the catalog and one entry for each row
in each layout of its table, and nothing is replaced on the way (`Content.ofRows_eq_ok`). Two
entries with the same key would lie in the same key space, so in the same layout of the same table;
such a key has the primary key in it, and no two rows of a table share that. -/

namespace RangeStore

open Std

/-- What every step keeps, also a list that goes on to grow by what the step has taken, holds after
all steps. -/
theorem foldlM_invariant {ε α β : Type} {step : β → α → Except ε β} (P : List α → β → Prop)
    (hstep : ∀ {done b a b'}, P done b → step b a = .ok b' → P (done ++ [a]) b') {done l : List α}
    {b b' : β} (hb : P done b) (h : l.foldlM step b = .ok b') : P (done ++ l) b' := by
  induction l generalizing done b with
  | nil =>
    obtain rfl := Except.ok.inj h
    rwa [List.append_nil]
  | cons a l ih =>
    rw [List.foldlM_cons] at h
    obtain ⟨next, hnext, hrest⟩ := exists_of_bind_eq_ok h
    have hall := ih (hstep hb hnext) hrest
    rwa [List.append_assoc] at hall

/-! ## Sorted entries -/

namespace Entries

theorem key_ne_of_find?_eq_none {key : Bytes} {entries : List Cell} (h : find? key entries = none) :
    ∀ e ∈ entries, e.key ≠ key := by
  induction entries with
  | nil => intro e he; contradiction
  | cons cell rest ih =>
    unfold find? at h
    split at h
    · contradiction
    · next hne =>
      intro e he
      rcases List.mem_cons.mp he with rfl | he
      · exact hne
      · exact ih h e he

/-- An entry with a new key replaces nothing. -/
theorem insert_perm {new : Cell} {entries : List Cell} (h : ∀ e ∈ entries, e.key ≠ new.key) :
    (insert new entries).Perm (new :: entries) := by
  induction entries with
  | nil => exact List.Perm.refl _
  | cons cell rest ih =>
    unfold insert
    split
    · exact List.Perm.refl _
    · next heq =>
      have hkey : new.key = cell.key := LawfulEqOrd.eq_of_compare heq
      exact absurd hkey.symm (h cell (List.mem_cons_self ..))
    · have hrest := ih fun e he => h e (List.mem_cons_of_mem _ he)
      exact (hrest.cons cell).trans (List.Perm.swap ..)

theorem mem_insert {new e : Cell} {entries : List Cell} (h : e ∈ insert new entries) :
    e = new ∨ e ∈ entries := by
  induction entries with
  | nil => exact Or.inl (List.mem_singleton.mp h)
  | cons cell rest ih =>
    unfold insert at h
    split at h
    · exact List.mem_cons.mp h
    · rcases List.mem_cons.mp h with rfl | h
      · exact Or.inl rfl
      · exact Or.inr (List.mem_cons_of_mem _ h)
    · rcases List.mem_cons.mp h with rfl | h
      · exact Or.inr (List.mem_cons_self ..)
      · exact (ih h).imp id (List.mem_cons_of_mem _)

theorem mem_insertAll {new entries : List Cell} {e : Cell} (h : e ∈ insertAll new entries) :
    e ∈ new ∨ e ∈ entries := by
  induction new generalizing entries with
  | nil => exact Or.inr h
  | cons first rest ih =>
    rcases ih (show e ∈ insertAll rest (insert first entries) from h) with h | h
    · exact Or.inl (List.mem_cons_of_mem _ h)
    · rcases mem_insert h with rfl | h
      · exact Or.inl (List.mem_cons_self ..)
      · exact Or.inr h

/-- Entries whose keys are new and different replace nothing. -/
theorem insertAll_perm {new entries : List Cell}
    (hnew : new.Pairwise fun a b => a.key ≠ b.key)
    (h : ∀ a ∈ new, ∀ e ∈ entries, e.key ≠ a.key) :
    (insertAll new entries).Perm (entries ++ new) := by
  induction new generalizing entries with
  | nil =>
    rw [List.append_nil]
    exact List.Perm.refl _
  | cons first rest ih =>
    obtain ⟨hfirst, hrest⟩ := List.pairwise_cons.mp hnew
    have hinsert := insert_perm (h first (List.mem_cons_self ..))
    have hall : (insertAll rest (insert first entries)).Perm (insert first entries ++ rest) := by
      refine ih hrest fun a ha e he => ?_
      rcases mem_insert he with rfl | he
      · exact hfirst a ha
      · exact h a (List.mem_cons_of_mem _ ha) e he
    calc insertAll (first :: rest) entries
        = insertAll rest (insert first entries) := rfl
      List.Perm _ (insert first entries ++ rest) := hall
      List.Perm _ (first :: entries ++ rest) := hinsert.append_right rest
      List.Perm _ (entries ++ first :: rest) := List.perm_middle.symm

end Entries

/-! ## Tables -/

namespace Content

/-- Two tables that may be in one database: they share neither a key space nor the name. -/
def Apart (t u : Table) : Prop := t.overlaps u = false ∧ t.name ≠ u.name

theorem Apart.symm {t u : Table} (h : Apart t u) : Apart u t := by
  refine ⟨?_, h.2.symm⟩
  rw [← h.1, Table.overlaps, Table.overlaps, Bool.and_comm]

/-- The catalog has just these tables, and they may be in one database. -/
structure Lists (c : Catalog) (tables : List Table) : Prop where
  perm : c.tables.Perm tables
  apart : c.tables.Pairwise Apart

theorem place_perm {t : Table} {tables : List Table} (h : ∀ u ∈ tables, t.name ≠ u.name) :
    (Catalog.place t tables).Perm (t :: tables) := by
  induction tables with
  | nil => exact List.Perm.refl _
  | cons u rest ih =>
    unfold Catalog.place
    split
    · exact List.Perm.refl _
    · next heq => exact absurd (LawfulEqOrd.eq_of_compare heq) (h u (List.mem_cons_self ..))
    · have hrest := ih fun v hv => h v (List.mem_cons_of_mem _ hv)
      exact (hrest.cons u).trans (List.Perm.swap ..)

theorem addTable_eq_ok {done : List Table} {c c' : Catalog} {t : Table} (hc : Lists c done)
    (h : addTable c t = .ok c') : Lists c' (done ++ [t]) := by
  unfold addTable at h
  split at h
  · contradiction
  · next hspaces =>
    split at h
    · contradiction
    · next hname =>
      obtain rfl := Except.ok.inj h
      have hnames : ∀ u ∈ c.tables, t.name ≠ u.name := fun u hu heq =>
        hname (List.mem_map.mpr ⟨u, hu, heq.symm⟩)
      have hplace := place_perm hnames
      refine ⟨hplace.trans ((hc.perm.cons t).trans (List.perm_append_singleton t done).symm), ?_⟩
      refine (hplace.pairwise_iff Apart.symm).mpr
        (List.pairwise_cons.mpr ⟨fun u hu => ?_, hc.apart⟩)
      exact ⟨Bool.of_not_eq_true (List.find?_eq_none.mp hspaces u hu), hnames u hu⟩

theorem catalogOf_eq_ok {tables : List Table} {c : Catalog} (h : catalogOf tables = .ok c) :
    Lists c tables := by
  have hempty : Lists .empty [] := ⟨List.Perm.refl _, List.Pairwise.nil⟩
  exact foldlM_invariant (fun done c => Lists c done) addTable_eq_ok hempty h

namespace Lists

variable {c : Catalog} {tables : List Table} {t u : Table}

theorem eq_of_not_apart (h : Lists c tables) (ht : t ∈ c.tables) (hu : u ∈ c.tables)
    (hnot : ¬ Apart t u) : t = u := by
  obtain ⟨i, hi⟩ := List.getElem?_of_mem ht
  obtain ⟨j, hj⟩ := List.getElem?_of_mem hu
  obtain ⟨hi', rfl⟩ := List.getElem?_eq_some_iff.mp hi
  obtain ⟨hj', rfl⟩ := List.getElem?_eq_some_iff.mp hj
  have hpair := List.pairwise_iff_getElem.mp h.apart
  rcases Nat.lt_trichotomy i j with hlt | heq | hgt
  · exact absurd (hpair i j hi' hj' hlt) hnot
  · subst heq
    rfl
  · exact absurd (hpair j i hj' hi' hgt).symm hnot

/-- A table is found under its name. -/
theorem find?_name (h : Lists c tables) (ht : t ∈ c.tables) : c.find? t.name = some t := by
  unfold Catalog.find?
  cases hfind : c.tables.find? (·.name == t.name) with
  | none => exact absurd (beq_self_eq_true t.name) (List.find?_eq_none.mp hfind t ht)
  | some u =>
    have hname : u.name = t.name := by simpa using List.find?_some hfind
    exact congrArg some (h.eq_of_not_apart (List.mem_of_find?_eq_some hfind) ht fun hapart =>
      hapart.2 hname)

/-- Layouts in the same key space are the same layout of the same table. -/
theorem eq_of_keySpace_eq (h : Lists c tables) (hsound : ∀ t ∈ c.tables, t.Sound)
    (ht : t ∈ c.tables) (hu : u ∈ c.tables) {l l' : KeyLayout} (hl : l ∈ KeyLayout.all t)
    (hl' : l' ∈ KeyLayout.all u) (heq : l.keySpace = l'.keySpace) : t = u ∧ l = l' := by
  have hrange := KeyLayout.keySpace_le (hsound t ht) hl
  have hrange' := KeyLayout.keySpace_le (hsound u hu) hl'
  rw [heq] at hrange
  have htu : t = u := by
    refine h.eq_of_not_apart ht hu fun hapart => ?_
    have hoverlap : t.overlaps u = true := by
      rw [Table.overlaps, Bool.and_eq_true, decide_eq_true_eq, decide_eq_true_eq,
        UInt32.le_iff_toNat_le, UInt32.le_iff_toNat_le]
      omega
    rw [hapart.1] at hoverlap
    contradiction
  subst htu
  exact ⟨rfl, KeyLayout.eq_of_keySpace_eq (hsound t ht) hl hl' heq⟩

end Lists

/-! ## Rows -/

/-- The entries of a row: one in each layout of its table. -/
def cellsOf (c : Catalog) (row : String × Record) : List Cell :=
  match c.find? row.1 with
  | none => []
  | some t => (KeyLayout.all t).map (KeyLayout.entry t row.2)

/-- The row is one of a table of the catalog. -/
def Placed (c : Catalog) (row : String × Record) : Prop :=
  ∃ t, c.find? row.1 = some t ∧ row.2.Fits t.columns

theorem rowEntries_eq_ok {c : Catalog} (hsound : ∀ t ∈ c.tables, t.Sound) {row : String × Record}
    {entry : Cell} {others : List Cell} (h : rowEntries c.find? row = .ok (entry, others)) :
    Placed c row ∧ entry :: others = cellsOf c row := by
  unfold rowEntries at h
  split at h
  · contradiction
  · next t ht =>
    split at h
    · contradiction
    · next values hvalues =>
      obtain ⟨hfits, rfl⟩ := Row.project_eq_ok hvalues
      obtain ⟨rfl, rfl⟩ := Prod.mk.inj (Except.ok.inj h)
      refine ⟨⟨t, ht, hfits⟩, ?_⟩
      rw [cellsOf, ht]
      exact KeyLayout.entries_eq (hsound t (List.mem_of_find?_eq_some ht)) hfits

/-- The catalog's entries and those of some rows are in the list, and nothing else. -/
structure Holds (c : Catalog) (rows : List (String × Record)) (entries : List Cell) : Prop where
  perm : entries.Perm (catalogEntries c ++ rows.flatMap (cellsOf c))
  placed : ∀ row ∈ rows, Placed c row

/-- Where the entries of a row come from. -/
theorem mem_cellsOf {c : Catalog} {row : String × Record} {e : Cell} (h : e ∈ cellsOf c row) :
    ∃ t l, c.find? row.1 = some t ∧ l ∈ KeyLayout.all t ∧ e = KeyLayout.entry t row.2 l := by
  unfold cellsOf at h
  split at h
  · contradiction
  · next t ht =>
    obtain ⟨l, hl, rfl⟩ := List.mem_map.mp h
    exact ⟨t, l, ht, hl, rfl⟩

theorem entry_mem_cellsOf {c : Catalog} {row : String × Record} {t : Table} {l : KeyLayout}
    (ht : c.find? row.1 = some t) (hl : l ∈ KeyLayout.all t) :
    KeyLayout.entry t row.2 l ∈ cellsOf c row := by
  rw [cellsOf, ht]
  exact List.mem_map_of_mem hl

theorem exists_of_mem_catalogEntries {c : Catalog} {e : Cell} (h : e ∈ catalogEntries c) :
    ∃ values, e.key = Tuple.encodeKey Catalog.keySpace values := by
  rcases Entries.mem_insertAll h with h | h
  · obtain ⟨u, -, rfl⟩ := List.mem_map.mp h
    exact ⟨_, rfl⟩
  · contradiction

/-- The catalog's key space is no layout's. -/
theorem catalog_keySpace_ne {t : Table} (ht : t.Sound) {l : KeyLayout} (hl : l ∈ KeyLayout.all t) :
    Catalog.keySpace ≠ l.keySpace := by
  intro heq
  have hfirst : (100 : UInt32).toNat ≤ t.keySpace.toNat := UInt32.le_iff_toNat_le.mp ht.first_le
  have hle := (KeyLayout.keySpace_le ht hl).1
  rw [← heq] at hle
  exact absurd (Nat.le_trans hfirst hle) (by decide)

variable {c : Catalog} {tables : List Table} {done : List (String × Record)} {entries : List Cell}

/-- An entry in the key space of a layout is the one that a row of the table has there. -/
theorem Holds.exists_row_of_keySpace (hold : Holds c done entries) (hlists : Lists c tables)
    (hsound : ∀ t ∈ c.tables, t.Sound) {t : Table} (ht : t ∈ c.tables) {l : KeyLayout}
    (hl : l ∈ KeyLayout.all t) {e : Cell} (he : e ∈ entries) {values : List Value}
    (hkey : e.key = Tuple.encodeKey l.keySpace values) :
    ∃ row ∈ done, c.find? row.1 = some t ∧ row.2.Fits t.columns ∧
      e = KeyLayout.entry t row.2 l := by
  rcases List.mem_append.mp (hold.perm.mem_iff.mp he) with he | he
  · -- no row lies in the catalog's key space
    obtain ⟨others, hothers⟩ := exists_of_mem_catalogEntries he
    rw [hothers] at hkey
    exact absurd (Tuple.encodeKey_inj hkey).1 (catalog_keySpace_ne (hsound t ht) hl)
  · obtain ⟨row, hrow, hcell⟩ := List.mem_flatMap.mp he
    obtain ⟨u, l', hu, hl', rfl⟩ := mem_cellsOf hcell
    obtain ⟨u', hu', hfits⟩ := hold.placed row hrow
    obtain rfl := Option.some.inj (hu.symm.trans hu')
    obtain ⟨rfl, rfl⟩ := hlists.eq_of_keySpace_eq hsound (List.mem_of_find?_eq_some hu) ht hl' hl
      (Tuple.encodeKey_inj hkey).1
    exact ⟨row, hrow, hu, hfits, rfl⟩

/-- An entry with the key that a row has in some layout comes from a row of the same table with the
same primary key. -/
theorem Holds.exists_row_of_key_eq (hold : Holds c done entries) (hlists : Lists c tables)
    (hsound : ∀ t ∈ c.tables, t.Sound) {row : String × Record} {t : Table}
    (ht : c.find? row.1 = some t) (hfits : row.2.Fits t.columns) {l : KeyLayout}
    (hl : l ∈ KeyLayout.all t) {e : Cell} (he : e ∈ entries) (heq : e.key = l.key row.2) :
    ∃ row' ∈ done, c.find? row'.1 = some t ∧ row'.2.Fits t.columns ∧
      (KeyLayout.primary t).key row'.2 = (KeyLayout.primary t).key row.2 := by
  have htmem := List.mem_of_find?_eq_some ht
  obtain ⟨row', hrow', ht', hfits', rfl⟩ :=
    hold.exists_row_of_keySpace hlists hsound htmem hl he heq
  exact ⟨row', hrow', ht', hfits', KeyLayout.key_inj (hsound t htmem) hl hfits' hfits heq⟩

theorem Holds.primary_mem (hold : Holds c done entries) {row : String × Record} (hrow : row ∈ done)
    {t : Table} (ht : c.find? row.1 = some t) :
    KeyLayout.entry t row.2 (KeyLayout.primary t) ∈ entries :=
  hold.perm.mem_iff.mpr (List.mem_append_right _ (List.mem_flatMap.mpr
    ⟨row, hrow, entry_mem_cellsOf ht (KeyLayout.primary_mem t)⟩))

/-- An entry of a row with a new primary key has a new key itself. -/
theorem Holds.key_ne (hold : Holds c done entries) (hlists : Lists c tables)
    (hsound : ∀ t ∈ c.tables, t.Sound) {row : String × Record} {t : Table}
    (ht : c.find? row.1 = some t) (hfits : row.2.Fits t.columns)
    (hnew : ∀ e ∈ entries, e.key ≠ (KeyLayout.primary t).key row.2) {l : KeyLayout}
    (hl : l ∈ KeyLayout.all t) : ∀ e ∈ entries, e.key ≠ l.key row.2 := by
  intro e he heq
  obtain ⟨row', hrow', ht', -, hkey⟩ := hold.exists_row_of_key_eq hlists hsound ht hfits hl he heq
  exact hnew _ (hold.primary_mem hrow' ht') hkey

theorem addRow_eq_ok (hlists : Lists c tables) (hsound : ∀ t ∈ c.tables, t.Sound)
    {entries' : List Cell} {row : String × Record} (hold : Holds c done entries)
    (h : addRow c entries row = .ok entries') : Holds c (done ++ [row]) entries' := by
  unfold addRow at h
  split at h
  · contradiction
  · next entry others hentries =>
    split at h
    · contradiction
    · next hfind =>
      obtain rfl := Except.ok.inj h
      obtain ⟨⟨t, ht, hfits⟩, hcells⟩ := rowEntries_eq_ok hsound hentries
      have hsoundt := hsound t (List.mem_of_find?_eq_some ht)
      rw [cellsOf, ht] at hcells
      have hentry : entry = KeyLayout.entry t row.2 (KeyLayout.primary t) :=
        (List.cons.inj hcells).1
      have hnew : ∀ e ∈ entries, e.key ≠ (KeyLayout.primary t).key row.2 := by
        have hne := Entries.key_ne_of_find?_eq_none hfind
        rwa [hentry] at hne
      have hinsert : (Entries.insertAll (entry :: others) entries).Perm
          (entries ++ cellsOf c row) := by
        rw [cellsOf, ht, hcells]
        refine Entries.insertAll_perm ?_ fun a ha => ?_
        · -- the entries of one row lie in different key spaces
          refine List.pairwise_map.mpr ((KeyLayout.pairwise_keySpace_ne hsoundt).imp ?_)
          exact fun hne heq => hne (Tuple.encodeKey_inj heq).1
        · obtain ⟨l, hl, rfl⟩ := List.mem_map.mp ha
          exact hold.key_ne hlists hsound ht hfits hnew hl
      refine ⟨?_, fun row' hrow' => ?_⟩
      · rw [List.flatMap_append, List.flatMap_singleton, ← List.append_assoc]
        exact hinsert.trans (hold.perm.append_right _)
      · rcases List.mem_append.mp hrow' with hrow' | hrow'
        · exact hold.placed row' hrow'
        · rw [List.mem_singleton.mp hrow']
          exact ⟨t, ht, hfits⟩

/-- Nothing is replaced when the entries of a database are collected: they are the catalog's and
those of all rows, and each row is one of a table. -/
theorem ofRows_eq_ok {rows : List (String × Record)} (htables : ∀ t ∈ tables, t.Sound)
    (h : ofRows tables rows = .ok (c, entries)) : Lists c tables ∧ Holds c rows entries := by
  unfold ofRows at h
  split at h
  · contradiction
  · next found hfound =>
    split at h
    · contradiction
    · next all hall =>
      obtain ⟨rfl, rfl⟩ := Prod.mk.inj (Except.ok.inj h)
      have hlists := catalogOf_eq_ok hfound
      have hsound : ∀ t ∈ found.tables, t.Sound := fun t ht =>
        htables t (hlists.perm.mem_iff.mp ht)
      have hstart : Holds found [] (catalogEntries found) := by
        refine ⟨?_, fun row hrow => by contradiction⟩
        rw [List.flatMap_nil, List.append_nil]
      exact ⟨hlists, foldlM_invariant (fun done entries => Holds found done entries)
        (addRow_eq_ok hlists hsound) hstart hall⟩

end Content

end RangeStore
