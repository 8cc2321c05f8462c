import RangeStore.Database.Basic
import RangeStore.Proofs.Storage.History
import RangeStore.Proofs.Tree.Lockstep
set_option autoImplicit false

/-! # Builds that fail

Loading a tree only ever adds nodes behind those that are there, and it makes no difference for them
at which point it fails (`bulkLoad_keeps`): in memory and in a file, every node is still found and
the committed root stays. The superblock of a file is written last, when nothing can fail any more,
so a database that could not be made in a new file leaves a file that is opened as an empty one. -/

namespace RangeStore

/-! ## In memory -/

namespace MemoryStore

/-- A store with more nodes, and the same root. -/
structure Extends (m m' : MemoryStore) : Prop where
  root_eq : m'.root = m.root
  fetch : ∀ {id : PageId} {n : Node}, m.fetch id = .ok n → m'.fetch id = .ok n

theorem extends_put (m : MemoryStore) (n : Node) : m.Extends (m.put n).2 := by
  unfold put
  split
  · exact ⟨rfl, fun h => fetch_push h n⟩
  · exact ⟨rfl, fun h => h⟩

theorem extends_bulkLoad (m : MemoryStore) (maxKeys : Nat) (entries : List Cell) :
    m.Extends (bulkLoad maxKeys entries m).2 := by
  refine bulkLoad_keeps (fun store n h => ?_) maxKeys entries ⟨rfl, fun h => h⟩
  have hput := extends_put store n
  exact ⟨hput.root_eq.trans h.root_eq, fun hfetch => hput.fetch (h.fetch hfetch)⟩

end MemoryStore

/-! ## In a file -/

namespace PageFile

variable {f f' : PageFile} {j : Journal} {id : PageId}

/-- The same file, or one that has grown. -/
def Extends (f f' : PageFile) : Prop := f' = f ∨ ∃ count, f.Grows count f'

namespace Extends

theorem put (h : f.Extends f') (n : Node) : f.Extends (f'.put n).2 := by
  rcases put_grows f' n with heq | hgrows
  · rwa [heq]
  · rcases h with rfl | ⟨count, hcount⟩
    · exact Or.inr ⟨1, hgrows⟩
    · exact Or.inr ⟨count + 1, hcount.trans hgrows⟩

theorem root_eq (h : f.Extends f') : f'.root = f.root := by
  rcases h with rfl | ⟨count, hgrows⟩
  · rfl
  · exact hgrows.root_eq

theorem readPage {page : Page} (h : f.Extends f') (hread : f.readPage id = .ok page) :
    f'.readPage id = .ok page := by
  rcases h with rfl | ⟨count, hgrows⟩
  · exact hread
  · exact hgrows.readPage hread

theorem fetch {n : Node} (h : f.Extends f') (hfetch : f.fetch id = .ok n) :
    f'.fetch id = .ok n := by
  have hverify : f'.verify = f.verify := by
    rcases h with rfl | ⟨count, hgrows⟩
    · rfl
    · exact hgrows.verify_eq
  exact fetch_keep hverify (fun _ _ hread => h.readPage hread) hfetch

/-- The superblock that was written stays. -/
theorem follows (h : f.Extends f') (hfollows : f.Follows j) :
    f'.Follows j ∧ f'.stored j = f.stored j := by
  rcases h with rfl | ⟨count, hgrows⟩
  · exact ⟨hfollows, rfl⟩
  · refine ⟨hfollows.grow hgrows, ?_⟩
    rw [stored, stored, hgrows.superblock_eq]

end Extends

theorem extends_bulkLoad (f : PageFile) (maxKeys : Nat) (entries : List Cell) :
    f.Extends (bulkLoad maxKeys entries f).2 :=
  bulkLoad_keeps (fun _ n h => h.put n) maxKeys entries (Or.inl rfl)

end PageFile

/-! ## Databases -/

/-- The tree without a root holds no tables. -/
theorem Catalog.load_zero (s : NodeSource) : Catalog.load s 0 = .ok .empty := by
  have hseek : Cursor.seek s 0 keyStart .ge = .ok Cursor.none := rfl
  have hbound : Cursor.none.walkBound s = 1 := by
    rw [Cursor.walkBound]
    exact congrArg (· + 1) (Nat.zero_mul _)
  rw [load, hseek]
  show loadFrom s (Cursor.none.walkBound s) Cursor.none empty = _
  rw [hbound]
  rfl

namespace Database

def notes : Table := ⟨"notes", [⟨"id", .int64⟩, ⟨"text", .bytes⟩], 1, 100, []⟩

def noteRow (id : Int64) (length : Nat) : String × Record :=
  ("notes", ⟨["id", "text"], [.int id, .bytes (List.replicate length 2)]⟩)

open PageFile (Follows Run Step Journal)

variable {settings : Settings} {tables : List Table} {rows : List (String × Record)}

/-- The superblock of a file stays as it was when no database could be built in it. -/
theorem follows_of_build_eq_error {f f' : PageFile} {j : Journal} {e : DatabaseError}
    (hfollows : f.Follows j) (h : build f settings tables rows = (.error e, f')) :
    f'.Follows j := by
  unfold build at h
  split at h
  · obtain ⟨-, rfl⟩ := Prod.mk.inj h
    exact hfollows
  · next c entries _ =>
    have hextends := f.extends_bulkLoad settings.maxNodeKeys entries
    split at h
    · next loaded hload =>
      obtain ⟨-, rfl⟩ := Prod.mk.inj h
      rw [hload] at hextends
      exact (hextends.follows hfollows).1
    · next root loaded hload =>
      rw [hload] at hextends
      -- once the tree is built, its root is committed without fail
      have hcommit : Storage.commitRoot loaded root = _ :=
        (hextends.follows hfollows).1.commitRoot_ok root
      rw [hcommit] at h
      cases h

/-- A file of which only the first superblock was written is opened without tables. -/
theorem load_of_follows {f : PageFile} (h : f.Follows {}) (settings : Settings) :
    ∃ db, load (some f.file) settings = .ok db ∧ db.root = 0 ∧ db.tables = .empty := by
  have hroot (verify : Bool) : PageFile.root ⟨f.file, f.stored {}, verify⟩ = 0 := rfl
  have hfile := h.load_eq
  rw [if_neg (by decide)] at hfile
  refine ⟨⟨⟨f.file, f.stored {}, settings.verifyChecksums⟩, 0, .empty, settings⟩, ?_, rfl, rfl⟩
  simp only [load, hfile, hroot, Catalog.load_zero]

/-- A file in which no database could be made is opened as one without tables. -/
theorem load_of_create_eq_error {path : String} {e : DatabaseError} {found : Option File}
    (h : create path none settings tables rows = (.error e, found)) (reopened : Settings) :
    ∃ db, load found reopened = .ok db ∧ db.root = 0 ∧ db.tables = .empty := by
  obtain ⟨f, hf⟩ : ∃ f, PageFile.create path none = .ok f := ⟨_, rfl⟩
  have hnew : Follows { f with verify := settings.verifyChecksums } {} :=
    { Follows.create hf with }
  unfold create at h
  rw [hf] at h
  obtain ⟨hresult, rfl⟩ := Prod.mk.inj h
  exact load_of_follows (follows_of_build_eq_error hnew (Prod.ext hresult rfl)) reopened

/-- Building a tree, whether it succeeds or not, loses no node and leaves the committed root and the
superblock as they were, in memory and in every file that is in use; and a file in which no database
could be made is opened as one without tables. -/
theorem failure_exposes_nothing :
    (∀ (m : MemoryStore) (maxKeys : Nat) (entries : List Cell),
      (bulkLoad maxKeys entries m).2.root = m.root ∧
      ∀ id n, m.fetch id = .ok n → (bulkLoad maxKeys entries m).2.fetch id = .ok n) ∧
    (∀ (path : String) (steps : List Step) (j : Journal) (f : PageFile), Run path steps j f →
      ∀ (maxKeys : Nat) (entries : List Cell),
      (bulkLoad maxKeys entries f).2.root = f.root ∧
      (∃ page, f.file.readPage 0 = .ok page ∧
        (bulkLoad maxKeys entries f).2.file.readPage 0 = .ok page) ∧
      (∀ id page, f.readPage id = .ok page →
        (bulkLoad maxKeys entries f).2.readPage id = .ok page) ∧
      ∀ id n, f.fetch id = .ok n → (bulkLoad maxKeys entries f).2.fetch id = .ok n) ∧
    ∀ (path : String) (settings : Settings) (tables : List Table) (rows : List (String × Record))
      (e : DatabaseError) (found : Option File),
      create path none settings tables rows = (.error e, found) → ∀ reopened : Settings,
      ∃ db, load found reopened = .ok db ∧ db.root = 0 ∧ db.tables = .empty := by
  refine ⟨fun m maxKeys entries => ?_, fun path steps j f hrun maxKeys entries => ?_,
    fun path settings tables rows e found h reopened => load_of_create_eq_error h reopened⟩
  · have hextends := m.extends_bulkLoad maxKeys entries
    exact ⟨hextends.root_eq, fun _ _ hfetch => hextends.fetch hfetch⟩
  · have hextends := f.extends_bulkLoad maxKeys entries
    obtain ⟨hfollows, hstored⟩ := hextends.follows hrun.follows
    exact ⟨hextends.root_eq, ⟨_, hrun.follows.readPage_zero, hstored ▸ hfollows.readPage_zero⟩,
      fun _ _ hread => hextends.readPage hread, fun _ _ hfetch => hextends.fetch hfetch⟩

/-- The third note is too long for a page, which shows when two leaves are in the file already. And
nothing is loaded into a file that has a leaf, since the entries are not in order. -/
theorem failure_exposes_nothing_notes :
    (∃ n file, create "notes.db" none { maxNodeKeys := 2 } [notes]
        [noteRow 1 0, noteRow 2 0, noteRow 3 8192] =
          (.error (.build (.node (.cellTooLarge n))), some file) ∧
      file.size = 3 * pageSize ∧
      ∃ db, load (some file) {} = .ok db ∧ db.root = 0 ∧ db.tables = .empty) ∧
    ∃ f, Run "a" [.put (PageFile.draftOf .leaf 1).finish]
        ⟨0, 1, [(1, (PageFile.draftOf .leaf 1).finish)]⟩ f ∧
      (bulkLoad 2 [⟨[7], []⟩, ⟨[6], []⟩] f).1 = .error (.unsorted 1) ∧
      (bulkLoad 2 [⟨[7], []⟩, ⟨[6], []⟩] f).2.root = f.root ∧
      (bulkLoad 2 [⟨[7], []⟩, ⟨[6], []⟩] f).2.fetch 1 =
        .ok (PageFile.draftOf .leaf 1).finish := by
  obtain ⟨-, hfiles, hdatabases⟩ := failure_exposes_nothing
  constructor
  · have herror : (create "notes.db" none { maxNodeKeys := 2 } [notes]
        [noteRow 1 0, noteRow 2 0, noteRow 3 8192]).1 =
          .error (.build (.node (.cellTooLarge 8205))) := eq_error_of_errorOf (by decide +kernel)
    have hsize : (create "notes.db" none { maxNodeKeys := 2 } [notes]
        [noteRow 1 0, noteRow 2 0, noteRow 3 8192]).2.map File.size = some (3 * pageSize) := by
      decide +kernel
    obtain ⟨file, hfile, hpages⟩ := Option.map_eq_some_iff.mp hsize
    have hcreate : create "notes.db" none { maxNodeKeys := 2 } [notes]
        [noteRow 1 0, noteRow 2 0, noteRow 3 8192] = (_, some file) := Prod.ext herror hfile
    exact ⟨_, file, hcreate, hpages, hdatabases _ _ _ _ _ _ hcreate {}⟩
  · obtain ⟨f₀, h₀, hcount₀⟩ := Run.exists_create "a"
    obtain ⟨f, hput⟩ := PageFile.put_of_room (f := f₀) (by rw [hcount₀]; decide)
      (PageFile.draftOf .leaf 1).finish
    rw [hcount₀] at hput
    have hrun := Run.put h₀ hput
    obtain ⟨hroot, -, -, hfetch⟩ := hfiles _ _ _ _ hrun 2 [⟨[7], []⟩, ⟨[6], []⟩]
    exact ⟨f, hrun, rfl, hroot, hfetch _ _ (PageFile.fetch_put
      (PageFile.sound_draftOf_leaf 1) (by decide) hput)⟩

end Database

end RangeStore
