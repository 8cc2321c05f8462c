import RangeStore.Proofs.Database.Alike
import RangeStore.Proofs.Database.Tables
import RangeStore.Proofs.Storage.Mirror
set_option autoImplicit false

/-! # Databases in files

A database that is built in memory and one that is built of the same tables and rows in a new file
are alike, and so is every database that is opened from that file, whatever the settings it is
opened with: `Database.create_alike`. The file mirrors the memory while both are built
(`Mirrors.lockstep`), so both keep the same tree; and the catalog that is read from the tree is the
one that was written into it (`Built.load_eq`). -/

namespace RangeStore

/-- There is no database because the file has failed. -/
def DatabaseError.IsFile : DatabaseError → Prop
  | store e => e.IsFile
  | build e => e.IsFile
  | catalog (.store e) => e.IsFile
  | _ => False

/-! ## How large entries are -/

/-- The entries of a tree fit on pages, if its nodes are those of drafts. -/
theorem Tree.Stored.payload_le {s : NodeSource} {id : PageId} {t : Tree} (h : t.Stored s id)
    (hdrafted : ∀ (id : PageId) (n : Node), s.fetch id = .ok n →
      ∃ d : NodeDraft, d.Sound ∧ n = d.finish) : ∀ e ∈ t.entries, e.payload ≤ pageSize := by
  induction t generalizing id with
  | leaf n =>
    intro e he
    obtain ⟨d, hd, hnode⟩ := hdrafted _ _ h.fetch
    have hcells : n.cells.toList = d.cells.toList := congrArg (fun n => n.cells.toList) hnode
    exact hd.payload_le (hcells ▸ he)
  | inner n child ih =>
    intro e he
    obtain ⟨i, -, hmem⟩ := List.mem_flatMap.mp he
    obtain ⟨below, -, hbelow⟩ := h.child i
    exact ih i hbelow e hmem

namespace Database

variable {settings : Settings} {tables : List Table} {rows : List (String × Record)}

/-! ## Reading the tables -/

/-- The tables that are read from the tree of a built database are its tables. -/
theorem Built.load_eq {σ : Type} [Storage σ] {db : Database σ} {tree : Tree}
    (h : Built db tables rows tree) (htables : ∀ t ∈ tables, ∃ d : Draft, d.build = .ok t)
    (hnames : Catalog.NamesAscend db.tables.tables)
    (hpayload : ∀ e ∈ tree.entries, e.payload ≤ pageSize) :
    Catalog.load db.source db.root = .ok db.tables := by
  rw [Catalog.load_eq h.rooted h.search]
  have hentries := h.holds.filter_inCatalog hnames.differ h.sound
  refine h.holds.gather_eq hnames h.sound fun t ht => ?_
  obtain ⟨d, hd⟩ := htables t (h.lists.perm.mem_iff.mp ht)
  -- the entry of the table is in the tree, so it has not too many things to be read
  have hmem : Catalog.entry t ∈ tree.entries :=
    (List.mem_filter.mp (hentries.mem_iff.mpr (List.mem_map_of_mem ht))).1
  have hlen : (Catalog.entry t).value.length < Catalog.countLimit :=
    Nat.lt_of_le_of_lt (Nat.le_trans (Nat.le_add_left _ _) (hpayload _ hmem)) (by decide)
  have hcolumns := Nat.lt_of_le_of_lt (Catalog.length_columns_le t) hlen
  exact Catalog.readTable_entry hd (Catalog.countable_of_sound (h.sound t ht) hcolumns)

/-! ## Building in memory and in a file -/

/-- A built database in memory and the same one in a file: the file mirrors the memory, and its
superblock is written. -/
structure Twins (mem : Database MemoryStore) (file : Database PageFile) : Prop where
  mirrors : Mirrors mem.store file.store
  drafted : mem.store.Drafted
  root_eq : mem.root = file.root
  tables_eq : mem.tables = file.tables
  committed : file.store.root = file.root
  root_lt : file.root < file.store.pageCount
  written : file.store.file.readPage 0 = .ok file.store.superblock.toPage
  ascend : Catalog.NamesAscend mem.tables.tables

/-- The same is built in memory and in a file, unless the file fails. -/
theorem build_twins {f : PageFile} (hmirrors : Mirrors {} f) (settings : Settings)
    (tables : List Table) (rows : List (String × Record)) :
    (∃ e, (build ({} : MemoryStore) settings tables rows).1 = .error e ∧
      (build f settings tables rows).1 = .error e) ∨
    (∃ e, (build f settings tables rows).1 = .error e ∧ e.IsFile) ∨
    ∃ mem file, build ({} : MemoryStore) settings tables rows = (.ok mem, mem.store) ∧
      build f settings tables rows = (.ok file, file.store) ∧ Twins mem file := by
  unfold build
  cases hrows : Content.ofRows tables rows with
  | error e => exact Or.inl ⟨e, rfl, rfl⟩
  | ok pair =>
    obtain ⟨c, entries⟩ := pair
    dsimp only
    have hload : InStep Mirrors BuildError.IsFile
        (bulkLoad settings.maxNodeKeys entries ({} : MemoryStore))
        (bulkLoad settings.maxNodeKeys entries f) := Mirrors.lockstep.bulkLoad entries hmirrors
    generalize hx : bulkLoad settings.maxNodeKeys entries ({} : MemoryStore) = x at hload ⊢
    generalize bulkLoad settings.maxNodeKeys entries f = y at hload ⊢
    cases hload with
    | error e => exact Or.inl ⟨.build e, rfl, rfl⟩
    | alone hfile => exact Or.inr (Or.inl ⟨_, rfl, hfile⟩)
    | @ok store loaded root hloaded =>
      -- the root is committed in both: in memory that cannot fail, and in the file it does not
      obtain ⟨f', hcommit, hcommitted, hroot, hcount, hwritten⟩ := hloaded.commitRoot root
      obtain ⟨made, tree, hputs, htree⟩ := bulkLoad_loaded trivial hx
      have hdrafted : store.Drafted := MemoryStore.drafted_empty.puts hputs
      -- the root has a page, so it is one that the superblock counts
      have hlt : root < loaded.pageCount :=
        (PageFile.readPage_eq_ok (hloaded.read htree.fetch)).1
      refine Or.inr (Or.inr ⟨⟨{ store with root := root }, root, c, settings⟩,
        ⟨f', root, c, settings⟩, rfl, ?_, ⟨hcommitted, hdrafted, rfl, rfl,
          hroot, ?_, hwritten, Content.ofRows_ascend hrows⟩⟩)
      · have hcommit' : Storage.commitRoot loaded root = (.ok (), f') := hcommit
        dsimp only
        rw [hcommit']
      · show root < f'.pageCount
        rw [hcount]
        exact hlt

namespace Twins

variable {mem : Database MemoryStore} {file : Database PageFile} {tree : Tree}

/-- The file with other settings. -/
theorem reopen (h : Twins mem file) (settings : Settings) :
    Twins mem ⟨{ file.store with verify := settings.verifyChecksums }, file.root, file.tables,
      settings⟩ :=
  { h with mirrors := h.mirrors.withVerify _ }

theorem sameNodes (h : Twins mem file) : mem.source.SameNodes file.source :=
  (h.mirrors.fetch_iff h.drafted).symm

theorem built (h : Twins mem file) (hbuilt : Built mem tables rows tree) :
    Built file tables rows tree where
  rooted := h.root_eq ▸ hbuilt.rooted.keep fun hfetch => h.sameNodes.mp hfetch
  search := hbuilt.search
  sound := h.tables_eq ▸ hbuilt.sound
  lists := h.tables_eq ▸ hbuilt.lists
  holds := h.tables_eq ▸ hbuilt.holds

theorem alike (h : Twins mem file) (hbuilt : Built mem tables rows tree) : Alike mem file :=
  hbuilt.alike (h.built hbuilt) h.tables_eq h.root_eq h.sameNodes

/-- The file is opened with the root and the tables that were put into it. -/
theorem load_eq (h : Twins mem file) (hbuilt : Built mem tables rows tree)
    (htables : ∀ t ∈ tables, ∃ d : Draft, d.build = .ok t) (settings : Settings) :
    load (some file.store.file) settings =
      .ok ⟨{ file.store with verify := settings.verifyChecksums }, file.root, file.tables,
        settings⟩ := by
  have hroot : file.store.root < file.store.pageCount := h.committed ▸ h.root_lt
  have hfile := h.mirrors.load_eq hroot h.written
  have hpayload := hbuilt.rooted.toStored.payload_le h.drafted
  have hcatalog := ((h.reopen settings).built hbuilt).load_eq htables
    (h.tables_eq ▸ h.ascend) hpayload
  have hcommitted : ({ file.store with verify := settings.verifyChecksums } : PageFile).root =
      file.root := h.committed
  unfold load
  rw [hfile]
  dsimp only
  rw [hcommitted]
  have hread : Catalog.load
      ({ file.store with verify := settings.verifyChecksums } : PageFile).source file.root =
        .ok file.tables := hcatalog
  rw [hread]

end Twins

/-- A database that is built in memory, the one that is built of the same in a new file, and every
database that is opened from that file are alike, whatever the settings of the last; or neither of
the first two is built, for the same reason. This is so unless the file fails. -/
theorem create_alike (path : String) (settings : Settings) {tables : List Table}
    (rows : List (String × Record)) (htables : ∀ t ∈ tables, ∃ d : Draft, d.build = .ok t)
    (hfile : ∀ e, (create path none settings tables rows).1 = .error e → ¬ e.IsFile) :
    (∃ e, (build ({} : MemoryStore) settings tables rows).1 = .error e ∧
      (create path none settings tables rows).1 = .error e) ∨
    ∃ mem file stored, (build ({} : MemoryStore) settings tables rows).1 = .ok mem ∧
      create path none settings tables rows = (.ok file, some stored) ∧ Alike mem file ∧
      ∀ reopened : Settings, ∃ opened, load (some stored) reopened = .ok opened ∧
        Alike mem opened := by
  obtain ⟨f, hf⟩ : ∃ f, PageFile.create path none = .ok f := ⟨_, rfl⟩
  have hmirrors := (Mirrors.create hf).withVerify settings.verifyChecksums
  have hcreate : create path none settings tables rows =
      ((build { f with verify := settings.verifyChecksums } settings tables rows).1,
        some
          (build { f with verify := settings.verifyChecksums } settings tables rows).2.file) := by
    rw [create, hf]
  rw [hcreate] at hfile ⊢
  rcases build_twins hmirrors settings tables rows with
    hfails | ⟨e, hfails, hexcused⟩ | ⟨mem, file, hmem, hbuild, htwins⟩
  · exact Or.inl hfails
  · exact absurd hexcused (hfile e hfails)
  · obtain ⟨tree, hbuilt⟩ := build_built trivial htables hmem
    refine Or.inr ⟨mem, file, file.store.file, by rw [hmem], by rw [hbuild], htwins.alike hbuilt,
      fun reopened => ⟨_, htwins.load_eq hbuilt htables reopened, ?_⟩⟩
    exact (htwins.reopen reopened).alike hbuilt

/-- The three towns in a new file. They, their index and the catalog make seven nodes in three
levels, which lie behind the superblock. -/
theorem create_alike_towns :
    ∃ mem file stored,
      (build ({} : MemoryStore) { maxNodeKeys := 2 } [towns] townRows).1 = .ok mem ∧
      create "towns.db" none { maxNodeKeys := 2 } [towns] townRows = (.ok file, some stored) ∧
      mem.root = 7 ∧ file.store.pageCount = 8 ∧
      Alike mem file ∧
      ∀ reopened : Settings, ∃ opened, load (some stored) reopened = .ok opened ∧
        Alike mem opened := by
  have hdraft : Draft.build ⟨"towns", [⟨"id", .int64⟩, ⟨"name", .bytes⟩], 1, 100,
      [⟨"byName", ["name"]⟩]⟩ = .ok towns := rfl
  have hruns : (match (create "towns.db" none { maxNodeKeys := 2 } [towns] townRows).1 with
      | .ok file => decide (file.root = 7 ∧ file.store.pageCount = 8)
      | .error _ => false) = true := by decide +kernel
  have hfile (e) : (create "towns.db" none { maxNodeKeys := 2 } [towns] townRows).1 ≠
      .error e := by
    intro he
    rw [he] at hruns
    contradiction
  rcases create_alike "towns.db" { maxNodeKeys := 2 } townRows
      (fun t ht => ⟨_, List.mem_singleton.mp ht ▸ hdraft⟩) (fun e he => absurd he (hfile e)) with
    ⟨e, -, he⟩ | ⟨mem, file, stored, hmem, hcreate, halike, hloads⟩
  · exact absurd he (hfile e)
  · rw [hcreate] at hruns
    obtain ⟨hroot, hcount⟩ := of_decide_eq_true hruns
    exact ⟨mem, file, stored, hmem, hcreate, halike.root_eq.trans hroot, hcount, halike, hloads⟩

end Database

end RangeStore
