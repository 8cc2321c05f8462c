import Mathlib.Algebra.GroupWithZero.Nat
import RangeStore.Proofs.Database.InputOrder
set_option autoImplicit false

/-! # Rows with the same primary key

Rows are added one after the other, and what there is then has the entries of the rows before
(`Content.Holds`). One step: a row is refused if one before it has the same primary key, and
otherwise all its entries are new (`Content.Holds.addRow_cases`). All steps: the first row that
repeats a primary key is the one that is refused, and if there is none, there is an entry for each
table, for each row and for each index of its table, none in the place of another
(`Database.build_duplicate_iff`). -/

namespace RangeStore

/-- The key spaces from the table's first to its last. -/
def Table.Owns (t : Table) (space : UInt32) : Prop := t.keySpace ≤ space ∧ space ≤ t.lastKeySpace

theorem Table.Sound.keySpace_le_last {t : Table} (ht : t.Sound) : t.keySpace ≤ t.lastKeySpace := by
  rw [UInt32.le_iff_toNat_le, ht.toNat_lastKeySpace]
  exact Nat.le_add_right _ _

/-- Two rows have the same key in the primary layout just if they agree on all its columns. -/
theorem KeyLayout.primary_key_eq_iff {t : Table} (ht : t.Sound) {r r' : Record}
    (hr : r.Fits t.columns) (hr' : r'.Fits t.columns) :
    (primary t).key r = (primary t).key r' ↔
      ∀ column ∈ t.primaryKey, r.find? column.name = r'.find? column.name := by
  rw [key_eq_iff ht (primary_mem t) hr hr']
  exact List.forall_mem_map

namespace Content

/-- The tables have different names, and no key space belongs to both. -/
def Separate (t u : Table) : Prop := t.name ≠ u.name ∧ ∀ space, ¬ (t.Owns space ∧ u.Owns space)

/-- The greater of the two first key spaces would belong to both tables. -/
theorem Separate.apart {t u : Table} (h : Separate t u) (ht : t.Sound) (hu : u.Sound) :
    Apart t u := by
  refine ⟨?_, h.1⟩
  apply Bool.eq_false_iff.mpr
  intro hoverlap
  rw [Table.overlaps, Bool.and_eq_true, decide_eq_true_eq, decide_eq_true_eq] at hoverlap
  rcases UInt32.le_total t.keySpace u.keySpace with hle | hle
  · exact h.2 u.keySpace ⟨⟨hle, hoverlap.2⟩, UInt32.le_refl _, hu.keySpace_le_last⟩
  · exact h.2 t.keySpace ⟨⟨UInt32.le_refl _, ht.keySpace_le_last⟩, hle, hoverlap.1⟩

variable {c : Catalog} {tables : List Table} {done rest rows : List (String × Record)}
  {entries : List Cell} {row row' : String × Record}

/-! ## What the rows of some tables are -/

/-- The row is one of a table. -/
def Belongs (tables : List Table) (row : String × Record) : Prop :=
  ∃ t ∈ tables, t.name = row.1 ∧ ∃ values, Row.project t row.2 = .ok values

/-- Two rows of one table agree on all columns of its primary key. -/
def SameKey (tables : List Table) (row row' : String × Record) : Prop :=
  row.1 = row'.1 ∧ ∃ t ∈ tables, t.name = row.1 ∧
    ∀ column ∈ t.primaryKey, row.2.find? column.name = row'.2.find? column.name

/-- No two of the rows are of one table and agree on its primary key. -/
def KeysUnique (tables : List Table) (rows : List (String × Record)) : Prop :=
  rows.Pairwise fun row row' => ¬ SameKey tables row row'

/-- The row is the first one that has the primary key of one before it. -/
def FirstRepeat (tables : List Table) (rows : List (String × Record)) (row : String × Record) :
    Prop :=
  ∃ before after, rows = before ++ row :: after ∧ KeysUnique tables before ∧
    ∃ earlier ∈ before, SameKey tables earlier row

/-- The entries of a row: one under its primary key, and one in each index of its table. -/
def rowCells (tables : List Table) (row : String × Record) : List Cell :=
  match tables.find? (·.name == row.1) with
  | none => []
  | some t =>
    match Row.project t row.2 with
    | .error _ => []
    | .ok values => Row.primaryEntry t values :: Row.indexEntries t values

/-- The number of indexes of the table that a row is meant for. -/
def indexCount (tables : List Table) (row : String × Record) : Nat :=
  (tables.find? (·.name == row.1)).elim 0 (·.indexes.length)

theorem FirstRepeat.not_keysUnique (h : FirstRepeat tables rows row) :
    ¬ KeysUnique tables rows := by
  obtain ⟨before, after, rfl, -, earlier, hearlier, hsame⟩ := h
  intro hunique
  exact (List.pairwise_append.mp hunique).2.2 earlier hearlier row (List.mem_cons_self ..) hsame

theorem keysUnique_append_singleton (h : KeysUnique tables done)
    (hnew : ∀ earlier ∈ done, ¬ SameKey tables earlier row) :
    KeysUnique tables (done ++ [row]) := by
  refine List.pairwise_append.mpr ⟨h, List.pairwise_singleton _ _, ?_⟩
  intro earlier hearlier last hlast
  rw [List.mem_singleton.mp hlast]
  exact hnew earlier hearlier

/-- A table is found under its name. -/
theorem find?_of_apart (hapart : tables.Pairwise Apart) {t : Table} (ht : t ∈ tables) :
    tables.find? (·.name == t.name) = some t :=
  Lists.find?_name (c := ⟨tables⟩) ⟨List.Perm.refl _, hapart⟩ ht

/-- In the catalog a row has the same table as in the list. -/
theorem Belongs.find? (h : Belongs tables row) (hlists : Lists c tables)
    (hapart : tables.Pairwise Apart) :
    ∃ t values, t ∈ tables ∧ t.name = row.1 ∧ Row.project t row.2 = .ok values ∧
      c.find? row.1 = some t ∧ tables.find? (·.name == row.1) = some t := by
  obtain ⟨t, ht, hname, values, hvalues⟩ := h
  have hfound := hlists.find?_name (hlists.perm.mem_iff.mpr ht)
  have hlisted := find?_of_apart hapart ht
  rw [hname] at hfound hlisted
  exact ⟨t, values, ht, hname, hvalues, hfound, hlisted⟩

theorem Belongs.taken (h : Belongs tables row) (hlists : Lists c tables)
    (hapart : tables.Pairwise Apart) : Taken c row := by
  obtain ⟨t, values, -, -, hvalues, hfound, -⟩ := h.find? hlists hapart
  refine ⟨(Row.primaryEntry t values, Row.indexEntries t values), ?_⟩
  simp only [rowEntries, hfound, hvalues]

/-- The entries that a row adds are those that its table writes. -/
theorem Belongs.cellsOf_eq (h : Belongs tables row) (hlists : Lists c tables)
    (hapart : tables.Pairwise Apart) (hsound : ∀ t ∈ c.tables, t.Sound) :
    cellsOf c row = rowCells tables row ∧
      (rowCells tables row).length = 1 + indexCount tables row := by
  obtain ⟨t, values, -, -, hvalues, hfound, hlisted⟩ := h.find? hlists hapart
  have hentries : rowEntries c.find? row =
      .ok (Row.primaryEntry t values, Row.indexEntries t values) := by
    simp only [rowEntries, hfound, hvalues]
  have hcells : rowCells tables row = Row.primaryEntry t values :: Row.indexEntries t values := by
    simp only [rowCells, hlisted, hvalues]
  constructor
  · rw [hcells]
    exact (rowEntries_eq_ok hsound hentries).2.symm
  · rw [hcells, indexCount, hlisted, List.length_cons, Row.indexEntries, List.length_map,
      Nat.add_comm]
    rfl

/-! ## One row after the other -/

/-- In terms of keys. -/
theorem sameKey_iff (hlists : Lists c tables) (hsound : ∀ t ∈ c.tables, t.Sound) {t : Table}
    (ht : c.find? row.1 = some t) (hfits : row.2.Fits t.columns) (hfits' : row'.2.Fits t.columns)
    (hname : row.1 = row'.1) :
    SameKey tables row row' ↔
      (KeyLayout.primary t).key row.2 = (KeyLayout.primary t).key row'.2 := by
  have htmem := List.mem_of_find?_eq_some ht
  have htname : t.name = row.1 := by simpa using List.find?_some ht
  rw [KeyLayout.primary_key_eq_iff (hsound t htmem) hfits hfits']
  constructor
  · rintro ⟨-, u, hu, huname, hagree⟩
    have hfound := hlists.find?_name (hlists.perm.mem_iff.mpr hu)
    rw [huname] at hfound
    obtain rfl := Option.some.inj (ht.symm.trans hfound)
    exact hagree
  · intro hagree
    exact ⟨hname, t, hlists.perm.mem_iff.mp htmem, htname, hagree⟩

/-- A row is refused if one before it has the same primary key, and is added otherwise. -/
theorem Holds.addRow_cases (hold : Holds c done entries) (hlists : Lists c tables)
    (hsound : ∀ t ∈ c.tables, t.Sound) (htaken : Taken c row) :
    ((∃ earlier ∈ done, SameKey tables earlier row) ∧
      addRow c entries row = .error (.duplicateKey row.1 row.2.shown)) ∨
    ((∀ earlier ∈ done, ¬ SameKey tables earlier row) ∧
      ∃ entries', addRow c entries row = .ok entries' ∧ Holds c (done ++ [row]) entries') := by
  obtain ⟨⟨entry, others⟩, hcells⟩ := htaken
  obtain ⟨⟨t, ht, hfits⟩, hall⟩ := rowEntries_eq_ok hsound hcells
  rw [cellsOf, ht] at hall
  have hkey : entry.key = (KeyLayout.primary t).key row.2 :=
    congrArg Cell.key (List.cons.inj hall).1
  cases hfind : Entries.find? entry.key entries with
  | some value =>
    refine Or.inl ⟨?_, by simp only [addRow, hcells, hfind]⟩
    -- the entry that is found belongs to a row before
    obtain ⟨e, he, heq⟩ : ∃ e ∈ entries, e.key = entry.key := by
      by_contra hnone
      push Not at hnone
      rw [Entries.find?_eq_none hnone] at hfind
      contradiction
    obtain ⟨earlier, hearlier, ht', hfits', hsame⟩ := hold.exists_row_of_key_eq hlists hsound ht
      hfits (KeyLayout.primary_mem t) he (heq.trans hkey)
    have hname : earlier.1 = row.1 := by
      have hleft : t.name = earlier.1 := by simpa using List.find?_some ht'
      have hright : t.name = row.1 := by simpa using List.find?_some ht
      exact hleft.symm.trans hright
    exact ⟨earlier, hearlier, (sameKey_iff hlists hsound ht' hfits' hfits hname).mpr hsame⟩
  | none =>
    refine Or.inr ⟨?_, ?_⟩
    · rintro earlier hearlier hsame
      have ht' : c.find? earlier.1 = some t := by rw [hsame.1, ht]
      obtain ⟨u, hu, hfits'⟩ := hold.placed earlier hearlier
      obtain rfl := Option.some.inj (ht'.symm.trans hu)
      apply Entries.key_ne_of_find?_eq_none hfind _ (hold.primary_mem hearlier ht')
      rw [hkey]
      exact (sameKey_iff hlists hsound ht' hfits' hfits hsame.1).mp hsame
    · have hadd : addRow c entries row = .ok (Entries.insertAll (entry :: others) entries) := by
        simp only [addRow, hcells, hfind]
      exact ⟨_, hadd, addRow_eq_ok hlists hsound hold hadd⟩

/-- The rows are all added, or the first that repeats a primary key is refused. -/
theorem Holds.foldlM_addRow_cases (hold : Holds c done entries) (hlists : Lists c tables)
    (hsound : ∀ t ∈ c.tables, t.Sound) (hunique : KeysUnique tables done)
    (htaken : ∀ row ∈ rest, Taken c row) :
    (∃ row, FirstRepeat tables (done ++ rest) row ∧
      rest.foldlM (addRow c) entries = .error (.duplicateKey row.1 row.2.shown)) ∨
    (KeysUnique tables (done ++ rest) ∧
      ∃ entries', rest.foldlM (addRow c) entries = .ok entries' ∧
        Holds c (done ++ rest) entries') := by
  induction rest generalizing done entries with
  | nil =>
    rw [List.append_nil]
    exact Or.inr ⟨hunique, entries, rfl, hold⟩
  | cons row rest ih =>
    rcases hold.addRow_cases hlists hsound (htaken row (List.mem_cons_self ..)) with
      ⟨hrepeat, hadd⟩ | ⟨hnew, entries', hadd, hold'⟩
    · refine Or.inl ⟨row, ⟨done, rest, rfl, hunique, hrepeat⟩, ?_⟩
      rw [List.foldlM_cons, hadd]
      rfl
    · have hrest := ih hold' (keysUnique_append_singleton hunique hnew) fun other hother =>
        htaken other (List.mem_cons_of_mem _ hother)
      rw [List.append_assoc] at hrest
      rw [List.foldlM_cons, hadd]
      exact hrest

/-- The tables are all taken, and of the rows those before the first that repeats a primary key. -/
theorem ofRows_cases (htables : ∀ t ∈ tables, t.Sound) (hapart : tables.Pairwise Apart)
    (hrows : ∀ row ∈ rows, Belongs tables row) :
    (∃ row, FirstRepeat tables rows row ∧
      ofRows tables rows = .error (.duplicateKey row.1 row.2.shown)) ∨
    (KeysUnique tables rows ∧ ∃ c entries, ofRows tables rows = .ok (c, entries) ∧
      Lists c tables ∧ Holds c rows entries ∧ Ascending entries ∧
      (catalogEntries c).Perm (tables.map Catalog.entry)) := by
  obtain ⟨c, hc, hlists⟩ := catalogOf_of_apart hapart
  have hsound : ∀ t ∈ c.tables, t.Sound := by
    intro t ht
    exact htables t (hlists.perm.mem_iff.mp ht)
  have hstart : Holds c [] (catalogEntries c) := by
    refine ⟨?_, fun row hrow => absurd hrow List.not_mem_nil⟩
    rw [List.flatMap_nil, List.append_nil]
  rcases hstart.foldlM_addRow_cases hlists hsound List.Pairwise.nil fun row hrow =>
      (hrows row hrow).taken hlists hapart with
    ⟨row, hrepeat, hadd⟩ | ⟨hunique, entries, hadd, hold⟩
  · exact Or.inl ⟨row, hrepeat, by simp only [ofRows, hc, hadd]⟩
  · refine Or.inr ⟨hunique, c, entries, by simp only [ofRows, hc, hadd], hlists, hold,
      (foldlM_addRow_steps hadd).2, ?_⟩
    have hcatalog := catalogEntries_perm (catalogOf_ascend hc).differ
    exact hcatalog.trans (hlists.perm.map Catalog.entry)

end Content

namespace Database

open Content

variable {σ : Type} [Storage σ] {tables : List Table} {rows : List (String × Record)}

/-- Makes a tree of sorted entries, and a database of it. -/
def buildOf (store : σ) (settings : Settings) (c : Catalog) (entries : List Cell) :
    Except DatabaseError (Database σ) × σ :=
  match bulkLoad settings.maxNodeKeys entries store with
  | (.error e, store) => (.error (.build e), store)
  | (.ok root, store) =>
    match Storage.commitRoot store root with
    | (.error e, store) => (.error (.store e), store)
    | (.ok (), store) => (.ok ⟨store, root, c, settings⟩, store)

theorem build_of_ofRows (store : σ) (settings : Settings) {c : Catalog} {entries : List Cell}
    (h : ofRows tables rows = .ok (c, entries)) :
    build store settings tables rows = buildOf store settings c entries := by
  unfold build
  rw [h]
  rfl

/-- Making the tree finds no repeated key. -/
theorem buildOf_ne_duplicateKey (store : σ) (settings : Settings) (c : Catalog)
    (entries : List Cell) (name shown : String) :
    (buildOf store settings c entries).1 ≠ .error (.duplicateKey name shown) := by
  unfold buildOf
  split
  · exact fun h => by cases h
  · split
    · exact fun h => by cases h
    · exact fun h => by cases h

/-- Key spaces never collide, and no entry is lost. Let the tables have different names and no key
space in common, and each row be one of a table. A row is refused for its primary key just if two
rows of a table agree on it, and then it is the first row to do so with one before it, and the store
is left as it was. Otherwise the tree is made of one entry for each table, one for each row and one
for each row in each index of its table, all with different keys. -/
theorem build_duplicate_iff (store : σ) (settings : Settings)
    (htables : ∀ t ∈ tables, ∃ d : Draft, d.build = .ok t) (hseparate : tables.Pairwise Separate)
    (hrows : ∀ row ∈ rows, Belongs tables row) :
    ((∃ name shown, (build store settings tables rows).1 = .error (.duplicateKey name shown)) ↔
      ¬ KeysUnique tables rows) ∧
    (¬ KeysUnique tables rows → ∃ row, FirstRepeat tables rows row ∧
      build store settings tables rows = (.error (.duplicateKey row.1 row.2.shown), store)) ∧
    (KeysUnique tables rows → ∃ c entries, ofRows tables rows = .ok (c, entries) ∧
      build store settings tables rows = buildOf store settings c entries ∧
      entries.Perm (tables.map Catalog.entry ++ rows.flatMap (rowCells tables)) ∧
      KeysDiffer entries ∧
      entries.length = tables.length + (rows.map fun row => 1 + indexCount tables row).sum) := by
  have hsound : ∀ t ∈ tables, t.Sound := by
    intro t ht
    obtain ⟨d, hd⟩ := htables t ht
    exact Draft.sound_of_build hd
  have hapart : tables.Pairwise Apart :=
    hseparate.imp_of_mem fun {t u} ht hu h => h.apart (hsound t ht) (hsound u hu)
  rcases ofRows_cases hsound hapart hrows with
    ⟨row, hrepeat, herror⟩ | ⟨hunique, c, entries, hok, hlists, hold, hascending, hcatalog⟩
  · have hbuild : build store settings tables rows =
        (.error (.duplicateKey row.1 row.2.shown), store) := by
      unfold build
      rw [herror]
    refine ⟨⟨fun _ => hrepeat.not_keysUnique, fun _ => ?_⟩, fun _ => ⟨row, hrepeat, hbuild⟩,
      fun hunique => absurd hunique hrepeat.not_keysUnique⟩
    exact ⟨row.1, row.2.shown, by rw [hbuild]⟩
  · have hbuild := build_of_ofRows store settings hok
    have hfine : ∀ t ∈ c.tables, t.Sound := by
      intro t ht
      exact hsound t (hlists.perm.mem_iff.mp ht)
    have hcells : rows.flatMap (cellsOf c) = rows.flatMap (rowCells tables) :=
      List.flatMap_congr fun row hrow =>
        ((hrows row hrow).cellsOf_eq hlists hapart hfine).1
    have hperm : entries.Perm (tables.map Catalog.entry ++ rows.flatMap (rowCells tables)) := by
      rw [← hcells]
      exact hold.perm.trans (hcatalog.append_right _)
    refine ⟨⟨?_, fun h => absurd hunique h⟩, fun h => absurd hunique h, fun _ =>
      ⟨c, entries, hok, hbuild, hperm, hascending.keysDiffer, ?_⟩⟩
    · rintro ⟨name, shown, h⟩
      rw [hbuild] at h
      exact absurd h (buildOf_ne_duplicateKey store settings c entries name shown)
    · have hlengths : rows.map (fun row => (rowCells tables row).length) =
          rows.map fun row => 1 + indexCount tables row :=
        List.map_congr_left fun row hrow =>
          ((hrows row hrow).cellsOf_eq hlists hapart hfine).2
      rw [hperm.length_eq, List.length_append, List.length_map, List.length_flatMap, hlengths]

/-- The towns and a pond, and then another town with the number of the second. -/
theorem build_duplicate_iff_towns :
    (∃ c entries,
      ofRows [towns, ponds] (("ponds", ⟨["id"], [.int 2]⟩) :: townRows) = .ok (c, entries) ∧
        KeysDiffer entries ∧ entries.length = 9) ∧
      ∃ name shown,
        (build ({} : MemoryStore) {} [towns, ponds] (("ponds", ⟨["id"], [.int 2]⟩) :: townRows ++
          [("towns", ⟨["name", "id"], [.bytes [99], .int 2]⟩)])).1 =
            .error (.duplicateKey name shown) := by
  have htowns : Draft.build ⟨"towns", [⟨"id", .int64⟩, ⟨"name", .bytes⟩], 1, 100,
      [⟨"byName", ["name"]⟩]⟩ = .ok towns := rfl
  have hponds : Draft.build ⟨"ponds", [⟨"id", .int64⟩], 1, 200, []⟩ = .ok ponds := rfl
  have htables : ∀ t ∈ [towns, ponds], ∃ d : Draft, d.build = .ok t := by
    intro t ht
    rcases List.mem_cons.mp ht with rfl | ht
    · exact ⟨_, htowns⟩
    · rw [List.mem_singleton.mp ht]
      exact ⟨_, hponds⟩
  have hseparate : [towns, ponds].Pairwise Separate := by
    refine List.pairwise_pair.mpr ⟨by decide, ?_⟩
    rintro space ⟨hfirst, hsecond⟩
    exact absurd (UInt32.le_trans hsecond.1 hfirst.2) (by decide)
  have hrows : ∀ row ∈ ("ponds", ⟨["id"], [.int 2]⟩) :: townRows ++
      [("towns", ⟨["name", "id"], [.bytes [99], .int 2]⟩)], Belongs [towns, ponds] row := by
    intro row hrow
    simp only [townRows, List.cons_append, List.nil_append, List.mem_cons, List.not_mem_nil,
      or_false] at hrow
    rcases hrow with rfl | rfl | rfl | rfl | rfl
    · exact ⟨ponds, by simp, rfl, _, rfl⟩
    all_goals exact ⟨towns, by simp, rfl, _, rfl⟩
  constructor
  · have hunique : KeysUnique [towns, ponds] (("ponds", ⟨["id"], [.int 2]⟩) :: townRows) := by
      unfold KeysUnique SameKey
      decide +kernel
    have hfirst : ∀ row ∈ ("ponds", ⟨["id"], [.int 2]⟩) :: townRows,
        Belongs [towns, ponds] row := fun row hrow => hrows row (List.mem_append_left _ hrow)
    obtain ⟨-, -, hall⟩ := build_duplicate_iff ({} : MemoryStore) {} htables hseparate hfirst
    obtain ⟨c, entries, hok, -, -, hdiffer, hlength⟩ := hall hunique
    exact ⟨c, entries, hok, hdiffer, hlength⟩
  · refine (build_duplicate_iff ({} : MemoryStore) {} htables hseparate hrows).1.mpr ?_
    unfold KeysUnique SameKey
    decide +kernel

end Database

end RangeStore
