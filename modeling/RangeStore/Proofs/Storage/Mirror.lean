import RangeStore.Proofs.Page.Superblock
import RangeStore.Proofs.Storage.PageFile
import RangeStore.Proofs.Tree.Lockstep
set_option autoImplicit false

/-! # Files that mirror memory

A new file and a new store in memory give out the same page ids, and go on to do so as long as the
file has room: the file mirrors the store (`Mirrors`). Such a file has the page of each node under
the node's id, and no other pages of nodes; so both have the same nodes, whether the checksums of
the file are verified or not (`Mirrors.fetch_iff`). Once the root has been committed, what the file
is opened with is what it was closed with (`Mirrors.load_eq`). -/

namespace RangeStore

namespace MemoryStore

variable {m m' : MemoryStore}

/-- A node that is found after one more was put is an older one or this one. -/
theorem fetch_push_eq_ok {id : PageId} {n found : Node}
    (h : { m with nodes := m.nodes.push n }.fetch id = .ok found) :
    m.fetch id = .ok found ∨ (id.toNat = m.nodes.size + 1 ∧ found = n) := by
  obtain ⟨hne, hget⟩ := fetch_eq_ok h
  change (m.nodes.push n)[id.toNat - 1]? = some found at hget
  have hpos : id.toNat ≠ 0 := fun hzero => hne (UInt64.toNat_inj.mp hzero)
  rw [Array.getElem?_push] at hget
  split at hget
  · next heq => exact Or.inr ⟨by omega, (Option.some.inj hget).symm⟩
  · exact Or.inl (fetch_of_getElem? hne hget)

/-- All nodes of the store are those of sound drafts. -/
def Drafted (m : MemoryStore) : Prop :=
  ∀ (id : PageId) (n : Node), m.fetch id = .ok n → ∃ d : NodeDraft, d.Sound ∧ n = d.finish

theorem drafted_empty : ({} : MemoryStore).Drafted := by
  intro id n hfetch
  obtain ⟨-, hget⟩ := fetch_eq_ok hfetch
  contradiction

theorem Drafted.puts {ids : List PageId} (hm : m.Drafted) (h : Puts m ids m') : m'.Drafted := by
  induction h with
  | done => exact hm
  | @put m next m' d id ids hd hput _ ih =>
    refine ih fun old found hfetch => ?_
    obtain ⟨-, rfl⟩ := put_eq_ok hput
    rcases fetch_push_eq_ok hfetch with hold | ⟨-, rfl⟩
    · exact hm old found hold
    · exact ⟨d, hd, rfl⟩

end MemoryStore

namespace PageFile

variable {f f' : PageFile} {id : PageId} {n : Node}

/-- One more page is refused only for the length of the file. -/
theorem allocate_one {e : StoreError} (hroom : f.pageCount.toNat * pageSize < File.positionLimit)
    (h : f.allocate 1 = .error e) : e = .file .invalidLength := by
  have hone : (1 : UInt64).toNat = 1 := rfl
  have hlimit : File.positionLimit + pageSize ≤ UInt64.size := by decide
  unfold allocate at h
  dsimp only at h
  split at h
  · next hrange =>
    have hpage : pageSize = 8192 := rfl
    rw [hone, Nat.add_mul, Nat.one_mul, hpage] at hrange
    rw [hpage] at hroom hlimit
    omega
  · split at h
    · exact (Except.error.inj h).symm
    · contradiction

/-- A node is put on the next page, unless the file would become too long. -/
theorem put_cases (hroom : f.pageCount.toNat * pageSize < File.positionLimit) (n : Node) :
    (∃ f', f.put n = (.error (.file .invalidLength), f')) ∨
      ∃ f', f.put n = (.ok f.pageCount, f') := by
  cases hgrown : f.allocate 1 with
  | error e => exact Or.inl ⟨f, by rw [put, hgrown, allocate_one hroom hgrown]⟩
  | ok pair =>
    obtain ⟨id, grown⟩ := pair
    obtain rfl := (grows_allocate hgrown).1
    exact Or.inr (put_of_allocate hgrown n)

end PageFile

/-- The file has the pages of the store's nodes, each under the node's id, and no others. -/
structure Mirrors (m : MemoryStore) (f : PageFile) : Prop where
  count_eq : f.pageCount.toNat = m.nodes.size + 1
  room : f.pageCount.toNat * pageSize < File.positionLimit
  version_eq : f.superblock.version = 1
  pageSize_eq : f.superblock.pageSize = 8192
  read : ∀ {id : PageId} {n : Node}, m.fetch id = .ok n → f.readPage id = .ok n.page

namespace Mirrors

variable {m : MemoryStore} {f f' : PageFile} {id : PageId} {n : Node}

/-- A new file mirrors a new store. -/
theorem create {path : String} (h : PageFile.create path none = .ok f) : Mirrors {} f := by
  obtain rfl := Except.ok.inj h
  refine ⟨rfl, by decide, rfl, rfl, fun {id n} hfetch => ?_⟩
  obtain ⟨-, hget⟩ := MemoryStore.fetch_eq_ok hfetch
  contradiction

/-- Whether checksums are verified makes no difference. -/
theorem withVerify (h : Mirrors m f) (verify : Bool) : Mirrors m { f with verify := verify } :=
  ⟨h.count_eq, h.room, h.version_eq, h.pageSize_eq, h.read⟩

/-- A node that is put into both gets the next id. -/
theorem grow (h : Mirrors m f) (hput : f.put n = (.ok id, f')) :
    Mirrors { m with nodes := m.nodes.push n } f' := by
  have hread := PageFile.readPage_put hput
  obtain ⟨rfl, hgrows, -⟩ := PageFile.grows_put hput
  have hcount := h.count_eq
  refine ⟨?_, hgrows.room, ?_, ?_, fun {old found} hfetch => ?_⟩
  · show f'.pageCount.toNat = (m.nodes.push n).size + 1
    rw [Array.size_push, hgrows.count_eq, hcount]
  · rw [hgrows.superblock_eq]
    exact h.version_eq
  · rw [hgrows.superblock_eq]
    exact h.pageSize_eq
  · rcases MemoryStore.fetch_push_eq_ok hfetch with hold | ⟨hlast, rfl⟩
    · -- an older node stays where it is
      exact hgrows.readPage (h.read hold)
    · -- the last one is on the new page
      obtain rfl : old = f.pageCount := UInt64.toNat_inj.mp (hlast.trans hcount.symm)
      exact hread

/-- Memory and file go on in lockstep. -/
theorem lockstep : BulkLoad.Lockstep BuildError.IsFile Mirrors := by
  intro m f n h
  show InStep Mirrors StoreError.IsFile (m.put n) (f.put n)
  rcases PageFile.put_cases h.room n with ⟨f', hfile⟩ | ⟨f', hfile⟩
  · rw [hfile]
    exact InStep.alone trivial
  · have hlt : m.nodes.size + 1 < UInt64.size := h.count_eq ▸ f.pageCount.toNat_lt
    have hid : UInt64.ofNat (m.nodes.size + 1) = f.pageCount := by
      rw [← h.count_eq, UInt64.ofNat_toNat]
    rw [hfile, MemoryStore.put, if_pos hlt, hid]
    exact InStep.ok _ (h.grow hfile)

/-- A node of the file is one of the store, and the other way around. -/
theorem fetch_iff (h : Mirrors m f) (hdrafted : m.Drafted) :
    f.fetch id = .ok n ↔ m.fetch id = .ok n := by
  constructor
  · intro hfetch
    obtain ⟨page, hpage, hnode⟩ := PageFile.fetch_eq_ok hfetch
    have hne : id ≠ 0 := by
      rintro rfl
      rw [PageFile.fetch, if_pos rfl] at hfetch
      contradiction
    have hlt := UInt64.lt_iff_toNat_lt.mp (PageFile.readPage_eq_ok hpage).1
    have hpos : id.toNat ≠ 0 := fun hzero => hne (UInt64.toNat_inj.mp hzero)
    have hcount := h.count_eq
    have hfound := MemoryStore.fetch_of_getElem? (m := m) hne
      (Array.getElem?_eq_getElem (show id.toNat - 1 < m.nodes.size by omega))
    -- the page is that of the store's node, and is read as this node
    obtain ⟨d, hd, heq⟩ := hdrafted _ _ hfound
    have hsame : page = m.nodes[id.toNat - 1].page :=
      Except.ok.inj (hpage.symm.trans (h.read hfound))
    rw [hsame, heq, hd.ofPage_finish, ← heq] at hnode
    rwa [← Except.ok.inj hnode]
  · intro hfetch
    obtain ⟨d, hd, rfl⟩ := hdrafted _ _ hfetch
    exact PageFile.fetch_finish hd (MemoryStore.fetch_eq_ok hfetch).1 (h.read hfetch)

/-! ## The root -/

/-- Page 0 becomes the superblock. -/
theorem writeSuperblock (h : Mirrors m f) :
    ∃ f', f.writeSuperblock = .ok f' ∧ Mirrors m f' ∧ f'.superblock = f.superblock ∧
      f'.file.readPage 0 = .ok f.superblock.toPage := by
  have hnumber : f.pageNumber 0 = .ok 0 :=
    PageFile.pageNumber_eq_ok (UInt64.lt_iff_toNat_lt.mpr (h.count_eq ▸ Nat.succ_pos _)) (by decide)
  refine ⟨{ f with file := f.file.writePage 0 f.superblock.toPage }, ?_,
    ⟨h.count_eq, h.room, h.version_eq, h.pageSize_eq, fun {id n} hfetch => ?_⟩, rfl,
    File.readPage_writePage _ _ _⟩
  · simp only [PageFile.writeSuperblock, PageFile.writePage, hnumber]
  · have hne : (0 : PageId) ≠ id := (MemoryStore.fetch_eq_ok hfetch).1.symm
    have hkept : ({ f with file := f.file.writePage (0 : PageId).toNat f.superblock.toPage } :
        PageFile).readPage id = .ok n.page :=
      PageFile.readPage_writePage_of_ne hne (h.read hfetch)
    exact hkept

/-- Committing the root changes the superblock, and then writes it. -/
theorem commitRoot (h : Mirrors m f) (root : PageId) :
    ∃ f', f.commitRoot root = (.ok (), f') ∧ Mirrors { m with root := root } f' ∧
      f'.root = root ∧ f'.pageCount = f.pageCount ∧
      f'.file.readPage 0 = .ok f'.superblock.toPage := by
  have hchanged : Mirrors { m with root := root }
      { f with superblock := { f.superblock with root := root } } :=
    ⟨h.count_eq, h.room, h.version_eq, h.pageSize_eq, h.read⟩
  obtain ⟨f', hwrite, hmirrors, hsuper, hpage⟩ := hchanged.writeSuperblock
  refine ⟨f', ?_, hmirrors, ?_, ?_, ?_⟩
  · simp only [PageFile.commitRoot, hwrite]
  · rw [PageFile.root, hsuper]
  · rw [PageFile.pageCount, hsuper, PageFile.pageCount]
  · rw [hpage, hsuper]

/-- A file whose superblock has been written is opened as it was. -/
theorem load_eq (h : Mirrors m f) (hroot : f.root < f.pageCount)
    (hpage : f.file.readPage 0 = .ok f.superblock.toPage) :
    PageFile.load (some f.file) = .ok { f with verify := true } := by
  have hsuper : Superblock.ofPage f.superblock.toPage = .ok f.superblock :=
    Superblock.ofPage_toPage h.version_eq h.pageSize_eq hroot
  simp only [PageFile.load, hpage, hsuper]

end Mirrors

end RangeStore
