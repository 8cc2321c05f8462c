import RangeStore.Proofs.Schema.Sound
set_option autoImplicit false

/-! # Drafts that become tables

`Draft.build` goes through the columns and then through the indexes, and compares each name with
those before it only. Here a draft is judged as a whole (`Draft.Sound`): everything has a name, no
name stands for two things, the primary key is among the columns, the indexes list known columns,
and the key spaces lie above the reserved ones and are numbers of 32 bits.

A table is made of a draft exactly if it is sound (`Draft.build_iff_sound`). What each loop accepts
is said with the names that it has passed (`checkColumns_eq_ok_iff`, `buildIndexes_eq_ok_iff`), and
the table is known as a whole (`Draft.table`). So every table that is made is sound
(`Draft.sound_of_build`). -/

namespace RangeStore

/-- An index that a table with these columns can have. -/
structure IndexDraft.Sound (known : List String) (i : IndexDraft) : Prop where
  name_ne : i.name ≠ ""
  columns_ne : i.columns ≠ []
  known : ∀ column ∈ i.columns, column ∈ known
  nodup : i.columns.Nodup

/-- The index of a table stands where it was asked for: it lists the columns asked for and then
those of the primary key that are missing among them, in the order of the key. -/
structure Table.Completes (t : Table) (i : Nat) (asked : IndexDraft) (made : Index) : Prop where
  name_eq : made.name = asked.name
  columns_eq : made.columns = asked.columns ++ t.keyNames.filter (· ∉ asked.columns)
  nodup : made.columns.Nodup
  key : ∀ name ∈ t.keyNames, name ∈ made.columns
  keySpace_eq : made.keySpace.toNat = t.keySpace.toNat + 1 + i

namespace Draft

def columnNames (d : Draft) : List String := d.columns.map (·.name)

def indexNames (d : Draft) : List String := d.indexes.map (·.name)

/-- A draft of which a table can be made. -/
structure Sound (d : Draft) : Prop where
  name_ne : d.name ≠ ""
  columns_ne : d.columns ≠ []
  columnNames_ne : ∀ name ∈ d.columnNames, name ≠ ""
  columnNames_nodup : d.columnNames.Nodup
  keyCount_pos : 1 ≤ d.keyCount
  keyCount_le : d.keyCount ≤ d.columns.length
  indexes : ∀ index ∈ d.indexes, index.Sound d.columnNames
  indexNames_nodup : d.indexNames.Nodup
  first_le : 100 ≤ d.keySpace.toNat
  last_lt : d.keySpace.toNat + d.indexes.length < UInt32.size

/-! ## Names one after the other -/

/-- Each loop compares a name with those before it, and so every later one must differ from it. -/
theorem fresh_cons_iff {α : Type} {P : α → Prop} {f : α → String} {name : String}
    {seen : List String} {rest : List α} :
    ((∀ a ∈ rest, P a ∧ f a ∉ name :: seen) ∧ (rest.map f).Nodup) ↔
      (∀ a ∈ rest, P a ∧ f a ∉ seen) ∧ name ∉ rest.map f ∧ (rest.map f).Nodup := by
  constructor
  · rintro ⟨hrest, hnodup⟩
    refine ⟨fun a ha => ?_, fun hmem => ?_, hnodup⟩
    · obtain ⟨hP, hnew⟩ := hrest a ha
      exact ⟨hP, fun hold => hnew (List.mem_cons_of_mem _ hold)⟩
    · obtain ⟨a, ha, heq⟩ := List.mem_map.mp hmem
      exact (hrest a ha).2 (heq ▸ List.mem_cons_self ..)
  · rintro ⟨hrest, hnew, hnodup⟩
    refine ⟨fun a ha => ⟨(hrest a ha).1, fun hmem => ?_⟩, hnodup⟩
    rcases List.mem_cons.mp hmem with heq | hold
    · exact hnew (heq ▸ List.mem_map_of_mem ha)
    · exact (hrest a ha).2 hold

/-! ## Columns -/

theorem checkColumns_eq_ok_iff {seen : List String} {columns : List Column} :
    checkColumns seen columns = .ok () ↔
      (∀ column ∈ columns, column.name ≠ "" ∧ column.name ∉ seen) ∧
        (columns.map (·.name)).Nodup := by
  induction columns generalizing seen with
  | nil => simp [checkColumns]
  | cons column rest ih =>
    rw [checkColumns, List.map_cons, List.forall_mem_cons, List.nodup_cons]
    by_cases hname : column.name = ""
    · simp [hname]
    by_cases hseen : column.name ∈ seen
    · simp [hname, hseen]
    rw [if_neg hname, if_neg hseen, ih, fresh_cons_iff, and_assoc]
    exact (and_iff_right ⟨hname, hseen⟩).symm

theorem checkIndexColumns_eq_ok_iff {known : List String} {index : String}
    {seen columns : List String} :
    checkIndexColumns known index seen columns = .ok () ↔
      (∀ column ∈ columns, column ∈ known ∧ column ∉ seen) ∧ columns.Nodup := by
  induction columns generalizing seen with
  | nil => simp [checkIndexColumns]
  | cons column rest ih =>
    rw [checkIndexColumns, List.forall_mem_cons, List.nodup_cons]
    by_cases hknown : column ∈ known
    · by_cases hseen : column ∈ seen
      · simp [hknown, hseen]
      have hfresh : ((∀ c ∈ rest, c ∈ known ∧ id c ∉ column :: seen) ∧ (rest.map id).Nodup) ↔
          (∀ c ∈ rest, c ∈ known ∧ id c ∉ seen) ∧ column ∉ rest.map id ∧ (rest.map id).Nodup :=
        fresh_cons_iff
      simp only [id, List.map_id] at hfresh
      rw [if_neg (not_not_intro hknown), if_neg hseen, ih, and_assoc, hfresh]
      exact (and_iff_right ⟨hknown, hseen⟩).symm
    · simp [hknown]

/-- Completing a list of columns adds the missing ones of the primary key, each once. -/
theorem nodup_completed {columns primaryKey : List String} (h : columns.Nodup)
    (hkey : primaryKey.Nodup) : (completed columns primaryKey).Nodup := by
  refine List.nodup_append.mpr ⟨h, hkey.filter _, ?_⟩
  rintro a ha b hb rfl
  exact of_decide_eq_true (List.mem_filter.mp hb).2 ha

theorem mem_completed {columns primaryKey : List String} {name : String} :
    name ∈ completed columns primaryKey ↔ name ∈ columns ∨ name ∈ primaryKey := by
  unfold completed
  rw [List.mem_append, List.mem_filter]
  by_cases h : name ∈ columns <;> simp [h]

/-- A list that was completed lacks no columns. -/
theorem completed_completed (columns primaryKey : List String) :
    completed (completed columns primaryKey) primaryKey = completed columns primaryKey := by
  have hnone : primaryKey.filter (· ∉ completed columns primaryKey) = [] := by
    refine List.filter_eq_nil_iff.mpr fun name hname hmissing => ?_
    exact of_decide_eq_true hmissing (mem_completed.mpr (Or.inr hname))
  rw [completed, hnone, List.append_nil]

/-! ## Indexes -/

/-- The indexes that are made of drafts, in key spaces from `next` on. -/
def numbered (primaryKey : List String) (next : Nat) (drafts : List IndexDraft) : List Index :=
  (drafts.zipIdx next).map fun p => ⟨p.1.name, completed p.1.columns primaryKey, UInt32.ofNat p.2⟩

theorem numbered_cons (primaryKey : List String) (next : Nat) (draft : IndexDraft)
    (rest : List IndexDraft) : numbered primaryKey next (draft :: rest) =
      ⟨draft.name, completed draft.columns primaryKey, UInt32.ofNat next⟩ ::
        numbered primaryKey (next + 1) rest := rfl

@[simp] theorem length_numbered (primaryKey : List String) (next : Nat) (drafts : List IndexDraft) :
    (numbered primaryKey next drafts).length = drafts.length := by
  simp [numbered]

theorem getElem?_numbered (primaryKey : List String) (next : Nat) (drafts : List IndexDraft)
    (i : Nat) : (numbered primaryKey next drafts)[i]? = drafts[i]?.map fun draft =>
      ⟨draft.name, completed draft.columns primaryKey, UInt32.ofNat (next + i)⟩ := by
  rw [numbered, List.getElem?_map, List.getElem?_zipIdx, Option.map_map]
  rfl

theorem map_name_numbered (primaryKey : List String) (next : Nat) (drafts : List IndexDraft) :
    (numbered primaryKey next drafts).map (·.name) = drafts.map (·.name) := by
  induction drafts generalizing next with
  | nil => rfl
  | cons draft rest ih => rw [numbered_cons, List.map_cons, List.map_cons, ih]

/-- What making one more index does when it succeeds. -/
theorem buildIndexes_cons_eq_ok {known primaryKey seen : List String} {next : Nat}
    {draft : IndexDraft} {rest : List IndexDraft} {indexes : List Index}
    (h : buildIndexes known primaryKey seen next (draft :: rest) = .ok indexes) :
    (draft.name ≠ "" ∧ draft.name ∉ seen ∧ draft.columns ≠ []) ∧
    checkIndexColumns known draft.name [] draft.columns = .ok () ∧ next < UInt32.size ∧
    ∃ others, buildIndexes known primaryKey (draft.name :: seen) (next + 1) rest = .ok others ∧
      indexes = ⟨draft.name, completed draft.columns primaryKey, UInt32.ofNat next⟩ :: others := by
  unfold buildIndexes at h
  split at h
  · contradiction
  · next hname =>
    split at h
    · contradiction
    · next hnew =>
      split at h
      · contradiction
      · next hsome =>
        split at h
        · contradiction
        · next hcolumns =>
          split at h
          · contradiction
          · next hspace =>
            split at h
            · contradiction
            · next others hothers =>
              exact ⟨⟨hname, hnew, hsome⟩, hcolumns, Nat.lt_of_not_le hspace, others, hothers,
                (Except.ok.inj h).symm⟩

theorem buildIndexes_eq_ok_iff {known primaryKey seen : List String} {next : Nat}
    {drafts : List IndexDraft} {indexes : List Index} (hnext : next ≤ UInt32.size) :
    buildIndexes known primaryKey seen next drafts = .ok indexes ↔
      ((∀ draft ∈ drafts, draft.Sound known ∧ draft.name ∉ seen) ∧
        (drafts.map (·.name)).Nodup ∧ next + drafts.length ≤ UInt32.size) ∧
      indexes = numbered primaryKey next drafts := by
  induction drafts generalizing seen next indexes with
  | nil =>
    simp only [buildIndexes, Except.ok.injEq, eq_comm (a := ([] : List Index))]
    simp [numbered, hnext]
  | cons draft rest ih =>
    rw [List.forall_mem_cons, List.map_cons, List.nodup_cons, List.length_cons, numbered_cons]
    constructor
    · intro h
      obtain ⟨⟨hname, hseen, hsome⟩, hcolumns, hroom, others, hothers, rfl⟩ :=
        buildIndexes_cons_eq_ok h
      obtain ⟨hall, hnodup⟩ := checkIndexColumns_eq_ok_iff.mp hcolumns
      obtain ⟨⟨hrest, hnames, hlast⟩, rfl⟩ := (ih hroom).mp hothers
      obtain ⟨hrest, hnew, hnames⟩ := fresh_cons_iff.mp ⟨hrest, hnames⟩
      have hdraft : draft.Sound known :=
        ⟨hname, hsome, fun column hmem => (hall column hmem).1, hnodup⟩
      exact ⟨⟨⟨⟨hdraft, hseen⟩, hrest⟩, ⟨hnew, hnames⟩, by omega⟩, rfl⟩
    · rintro ⟨⟨⟨⟨hdraft, hseen⟩, hrest⟩, ⟨hnew, hnames⟩, hlast⟩, rfl⟩
      have hroom : ¬ UInt32.size ≤ next := by omega
      have hcolumns : checkIndexColumns known draft.name [] draft.columns = .ok () :=
        checkIndexColumns_eq_ok_iff.mpr
          ⟨fun column hmem => ⟨hdraft.known column hmem, List.not_mem_nil⟩, hdraft.nodup⟩
      obtain ⟨hrest, hnames⟩ := fresh_cons_iff.mpr ⟨hrest, hnew, hnames⟩
      have hothers : buildIndexes known primaryKey (draft.name :: seen) (next + 1) rest =
          .ok (numbered primaryKey (next + 1) rest) :=
        (ih (by omega)).mpr ⟨⟨hrest, hnames, by omega⟩, rfl⟩
      rw [buildIndexes, if_neg hdraft.name_ne, if_neg hseen, if_neg hdraft.columns_ne, hcolumns]
      simp only [if_neg hroom, hothers]

/-! ## Tables -/

/-- The table that is made of a sound draft. -/
def table (d : Draft) : Table where
  name := d.name
  columns := d.columns
  keyCount := d.keyCount
  keySpace := d.keySpace
  indexes := numbered (d.columnNames.take d.keyCount) (d.keySpace.toNat + 1) d.indexes

/-- What making a table does when it succeeds. -/
theorem build_eq_ok {d : Draft} {t : Table} (h : d.build = .ok t) :
    d.name ≠ "" ∧ 0 < d.keyCount ∧ d.keyCount ≤ d.columns.length ∧ firstKeySpace ≤ d.keySpace ∧
    checkColumns [] d.columns = .ok () ∧
    ∃ indexes, buildIndexes (d.columns.map (·.name)) ((d.columns.map (·.name)).take d.keyCount) []
        (d.keySpace.toNat + 1) d.indexes = .ok indexes ∧
      t = ⟨d.name, d.columns, d.keyCount, d.keySpace, indexes⟩ := by
  unfold build at h
  split at h
  · contradiction
  · next hname =>
    split at h
    · contradiction
    · split at h
      · contradiction
      · next hcount =>
        split at h
        · contradiction
        · next hfirst =>
          split at h
          · contradiction
          · next hcolumns =>
            dsimp only at h
            split at h
            · contradiction
            · next indexes hindexes =>
              exact ⟨hname, by omega, by omega, UInt32.not_lt.mp hfirst, hcolumns, indexes,
                hindexes, (Except.ok.inj h).symm⟩

theorem build_eq_ok_iff {d : Draft} {t : Table} : d.build = .ok t ↔ d.Sound ∧ t = d.table := by
  have hnext : d.keySpace.toNat + 1 ≤ UInt32.size := d.keySpace.toNat_lt_size
  constructor
  · intro h
    obtain ⟨hname, hpos, hle, hfirst, hcolumns, indexes, hindexes, rfl⟩ := build_eq_ok h
    obtain ⟨hnames, hnodup⟩ := checkColumns_eq_ok_iff.mp hcolumns
    have hnames' : ∀ name ∈ d.columnNames, name ≠ "" :=
      List.forall_mem_map.mpr fun column hmem => (hnames column hmem).1
    obtain ⟨⟨hsound, hindexNames, hlast⟩, rfl⟩ := (buildIndexes_eq_ok_iff hnext).mp hindexes
    refine ⟨?_, rfl⟩
    exact {
      name_ne := hname
      columns_ne := List.ne_nil_of_length_pos (by omega)
      columnNames_ne := hnames'
      columnNames_nodup := hnodup
      keyCount_pos := hpos
      keyCount_le := hle
      indexes := fun index hmem => (hsound index hmem).1
      indexNames_nodup := hindexNames
      first_le := UInt32.le_iff_toNat_le.mp hfirst
      last_lt := by omega }
  · rintro ⟨h, rfl⟩
    have hkeyCount : ¬ (d.keyCount = 0 ∨ d.columns.length < d.keyCount) := by
      have hpos := h.keyCount_pos
      have hle := h.keyCount_le
      omega
    have hfirst : ¬ d.keySpace < firstKeySpace :=
      UInt32.not_lt.mpr (UInt32.le_iff_toNat_le.mpr h.first_le)
    have hcolumns : checkColumns [] d.columns = .ok () :=
      checkColumns_eq_ok_iff.mpr
        ⟨fun column hmem => ⟨h.columnNames_ne _ (List.mem_map_of_mem hmem), List.not_mem_nil⟩,
          h.columnNames_nodup⟩
    have hindexes : buildIndexes d.columnNames (d.columnNames.take d.keyCount) []
        (d.keySpace.toNat + 1) d.indexes = .ok d.table.indexes := by
      have hlast := h.last_lt
      exact (buildIndexes_eq_ok_iff hnext).mpr ⟨⟨fun index hmem =>
        ⟨h.indexes index hmem, List.not_mem_nil⟩, h.indexNames_nodup, by omega⟩, rfl⟩
    rw [columnNames] at hindexes
    rw [build, if_neg h.name_ne, if_neg h.columns_ne, if_neg hkeyCount, if_neg hfirst, hcolumns]
    simp only [hindexes]
    rfl

/-- No two indexes of a table share a name. -/
theorem nodup_indexNames_of_build {d : Draft} {t : Table} (h : d.build = .ok t) :
    (t.indexes.map (·.name)).Nodup := by
  obtain ⟨hsound, rfl⟩ := build_eq_ok_iff.mp h
  rw [table, map_name_numbered]
  exact hsound.indexNames_nodup

theorem keyNames_table (d : Draft) : d.table.keyNames = d.columnNames.take d.keyCount :=
  d.table.keyNames_eq

/-- Each index of the table completes the one that was asked for in its place. -/
theorem Sound.completes {d : Draft} (h : d.Sound) {i : Nat} {asked : IndexDraft} {made : Index}
    (hasked : d.indexes[i]? = some asked) (hmade : d.table.indexes[i]? = some made) :
    d.table.Completes i asked made := by
  have hsound := h.indexes asked (List.mem_of_getElem? hasked)
  have hkey : d.table.keyNames.Nodup := by
    rw [keyNames_table]
    exact h.columnNames_nodup.sublist (List.take_sublist _ _)
  -- the number of the key space is one of 32 bits, so it is not cut off
  have hspace : d.keySpace.toNat + 1 + i < UInt32.size := by
    have hlt := (List.getElem?_eq_some_iff.mp hasked).1
    have hlast := h.last_lt
    omega
  rw [table, getElem?_numbered, hasked, ← keyNames_table] at hmade
  obtain rfl := Option.some.inj hmade
  exact {
    name_eq := rfl
    columns_eq := rfl
    nodup := nodup_completed hsound.nodup hkey
    key := fun name hmem => mem_completed.mpr (Or.inr hmem)
    keySpace_eq := UInt32.toNat_ofNat_of_lt' hspace }

/-- A table that was made from a draft is sound. -/
theorem sound_of_build {d : Draft} {t : Table} (h : d.build = .ok t) : t.Sound := by
  obtain ⟨hd, rfl⟩ := build_eq_ok_iff.mp h
  have hcompletes {i : Nat} {made : Index} (hmade : d.table.indexes[i]? = some made) :
      ∃ asked ∈ d.indexes, d.table.Completes i asked made := by
    have hget := hmade
    rw [table, getElem?_numbered] at hget
    obtain ⟨asked, hasked, -⟩ := Option.map_eq_some_iff.mp hget
    exact ⟨asked, List.mem_of_getElem? hasked, hd.completes hasked hmade⟩
  refine ⟨hd.columnNames_nodup, hd.keyCount_pos, hd.keyCount_le,
    UInt32.le_iff_toNat_le.mpr hd.first_le, fun made hmem => ?_, fun i made hmade => ?_⟩
  · obtain ⟨i, hmade⟩ := List.getElem?_of_mem hmem
    obtain ⟨asked, hasked, hmade⟩ := hcompletes hmade
    refine ⟨hmade.nodup, fun name hname => ?_, hmade.key⟩
    rw [hmade.columns_eq] at hname
    rcases List.mem_append.mp hname with hname | hname
    · exact (hd.indexes asked hasked).known name hname
    · exact Table.mem_columnNames_of_mem_keyNames (List.mem_filter.mp hname).1
  · obtain ⟨asked, -, hmade⟩ := hcompletes hmade
    exact hmade.keySpace_eq

/-- A table is made of a draft exactly if the draft is sound. It has the name, the columns, the
primary key and the key space of the draft; its indexes complete those asked for, in their order,
and their key spaces follow that of the table without a gap. -/
theorem build_iff_sound (d : Draft) :
    ((∃ t, d.build = .ok t) ↔ d.Sound) ∧
    ∀ t, d.build = .ok t →
      t.name = d.name ∧ t.columns = d.columns ∧ t.keyCount = d.keyCount ∧
      t.keySpace = d.keySpace ∧ t.indexes.length = d.indexes.length ∧
      (∀ (i : Nat) (asked : IndexDraft) (made : Index), d.indexes[i]? = some asked →
        t.indexes[i]? = some made → t.Completes i asked made) ∧
      t.lastKeySpace.toNat = d.keySpace.toNat + d.indexes.length := by
  constructor
  · constructor
    · rintro ⟨t, ht⟩
      exact (build_eq_ok_iff.mp ht).1
    · intro h
      exact ⟨d.table, build_eq_ok_iff.mpr ⟨h, rfl⟩⟩
  · intro t ht
    have hlast := (sound_of_build ht).toNat_lastKeySpace
    obtain ⟨h, rfl⟩ := build_eq_ok_iff.mp ht
    have hlength : d.table.indexes.length = d.indexes.length := length_numbered ..
    rw [hlength] at hlast
    exact ⟨rfl, rfl, rfl, rfl, hlength, fun _ _ _ => h.completes, hlast⟩

/-! ### Key spaces at the end of the range -/

/-- Moorings by quay and number, with two indexes, from a key space on. -/
def mooringsDraft (keySpace : UInt32) : Draft where
  name := "moorings"
  columns := [⟨"quay", .bytes⟩, ⟨"number", .int64⟩, ⟨"depth", .int64⟩]
  keyCount := 2
  keySpace := keySpace
  indexes := [⟨"byDepth", ["depth"]⟩, ⟨"byNumber", ["number", "depth"]⟩]

/-- The last three key spaces there are hold the moorings; one further on they do not fit. -/
theorem build_iff_sound_moorings :
    (∃ t, (mooringsDraft 4294967293).build = .ok t ∧ t.lastKeySpace.toNat = 4294967295 ∧
      t.indexes.map (·.columns) = [["depth", "quay", "number"], ["number", "depth", "quay"]]) ∧
    ¬ ∃ t, (mooringsDraft 4294967294).build = .ok t := by
  constructor
  · obtain ⟨-, hmade⟩ := build_iff_sound (mooringsDraft 4294967293)
    have hbuild : (mooringsDraft 4294967293).build = .ok (mooringsDraft 4294967293).table := rfl
    obtain ⟨-, -, -, -, -, -, hlast⟩ := hmade _ hbuild
    exact ⟨_, hbuild, hlast, rfl⟩
  · rw [(build_iff_sound _).1]
    intro h
    exact absurd h.last_lt (by decide)

end Draft

end RangeStore
