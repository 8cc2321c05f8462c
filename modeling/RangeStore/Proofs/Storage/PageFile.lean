import RangeStore.Proofs.Page.Superblock
import RangeStore.Proofs.Storage.Serial
import RangeStore.Proofs.Tree.Image
import RangeStore.Storage.PageFile
set_option autoImplicit false

/-! # Page files keep their nodes

A file grows by pages behind those that it has, and these stay as they are (`PageFile.Grows`). So a
file that has its superblock is a lawful store: a node is put on a new page, and the superblock is
written on page 0, where no node is. -/

namespace RangeStore

/-- The page of a node is accepted as this node, and carries its checksum. -/
def Node.Intact (n : Node) : Prop :=
  Node.ofPage n.page = .ok n ∧ n.page.storedChecksum = n.page.checksum

/-- The nodes of drafts are intact, unless an internal one has values that are no page ids. -/
theorem NodeDraft.Sound.intact {d : NodeDraft} (hd : d.Sound) : d.finish.Intact :=
  ⟨hd.ofPage_finish, Page.storedChecksum_sealed _⟩

namespace PageFile

variable {f f' : PageFile} {id : PageId} {n : Node}

/-! ## Pages -/

theorem pageNumber_eq_ok (hcount : id < f.pageCount)
    (hposition : id.toNat * pageSize < File.positionLimit) : f.pageNumber id = .ok id.toNat := by
  have hlimit : File.positionLimit ≤ UInt64.size := by decide
  rw [pageNumber, if_neg (UInt64.not_le.mpr hcount),
    if_neg (Nat.not_le.mpr (Nat.lt_of_lt_of_le hposition hlimit)),
    if_neg (Nat.not_le.mpr hposition)]

/-- What a page that is read satisfies. -/
theorem readPage_eq_ok {page : Page} (h : f.readPage id = .ok page) :
    id < f.pageCount ∧ id.toNat * pageSize < File.positionLimit ∧
      (id.toNat + 1) * pageSize ≤ f.file.size ∧ f.file.page id.toNat = page := by
  unfold readPage at h
  split at h
  · contradiction
  · next number hnumber =>
    obtain rfl := eq_of_pageNumber hnumber
    split at h
    · contradiction
    · next found hfound =>
      obtain rfl := Except.ok.inj h
      unfold pageNumber at hnumber
      split at hnumber
      · contradiction
      · next hcount =>
        split at hnumber
        · contradiction
        · split at hnumber
          · contradiction
          · next hposition =>
            exact ⟨UInt64.not_le.mp hcount, Nat.not_le.mp hposition,
              File.size_of_readPage hfound, (File.page_of_readPage hfound).symm⟩

theorem readPage_of_page {page : Page} (hcount : id < f.pageCount)
    (hposition : id.toNat * pageSize < File.positionLimit)
    (hsize : (id.toNat + 1) * pageSize ≤ f.file.size) (hpage : f.file.page id.toNat = page) :
    f.readPage id = .ok page := by
  rw [readPage, pageNumber_eq_ok hcount hposition]
  simp only [File.readPage, if_pos hsize, hpage]

/-- A page that can still be read gives the same node. -/
theorem fetch_keep (hverify : f'.verify = f.verify)
    (hread : id ≠ 0 → ∀ page, f.readPage id = .ok page → f'.readPage id = .ok page)
    (h : f.fetch id = .ok n) : f'.fetch id = .ok n := by
  unfold fetch at h ⊢
  split at h
  · contradiction
  · next hid =>
    split at h
    · contradiction
    · next page hpage =>
      rw [if_neg hid, hread hid page hpage, hverify]
      exact h

/-- A node is found on its page if the page is intact, whether checksums are verified or not. -/
theorem fetch_of_intact (hn : n.Intact) (hid : id ≠ 0) (h : f.readPage id = .ok n.page) :
    f.fetch id = .ok n := by
  rw [fetch, if_neg hid, h]
  simp only [hn.1]
  exact if_neg fun hboth => hboth.2 hn.2

/-- Where checksums are verified, no other node is found on its own page. -/
theorem intact_of_fetch (hverify : f.verify = true) (hread : f.readPage id = .ok n.page)
    (h : f.fetch id = .ok n) : n.Intact := by
  unfold fetch at h
  split at h
  · contradiction
  · simp only [hread, hverify, true_and] at h
    split at h
    · contradiction
    · next hsum =>
      split at h
      · contradiction
      · next found hfound =>
        obtain rfl := Except.ok.inj h
        exact ⟨hfound, Decidable.not_not.mp hsum⟩

/-! ## New pages -/

/-- New pages lie behind the others, and all pages have room in the file. -/
theorem allocate_eq_ok {count : UInt64} {grown : PageFile}
    (h : f.allocate count = .ok (id, grown)) :
    id = f.pageCount ∧ grown.pageCount.toNat = f.pageCount.toNat + count.toNat ∧
      grown.pageCount.toNat * pageSize < File.positionLimit ∧
      grown.file = f.file.resize (grown.pageCount.toNat * pageSize) ∧ grown.verify = f.verify := by
  unfold allocate at h
  dsimp only at h
  split at h
  · contradiction
  · next hrange =>
    split at h
    · contradiction
    · next hposition =>
      obtain ⟨rfl, rfl⟩ := Prod.mk.inj (Except.ok.inj h)
      have htotal : (UInt64.ofNat (f.pageCount.toNat + count.toNat)).toNat =
          f.pageCount.toNat + count.toNat :=
        UInt64.toNat_ofNat_of_lt' (Nat.not_le.mp fun hle => hrange (Or.inl hle))
      refine ⟨rfl, htotal, ?_, ?_, rfl⟩
      · show (UInt64.ofNat _).toNat * pageSize < File.positionLimit
        rw [htotal]
        exact Nat.not_le.mp hposition
      · show f.file.resize _ = f.file.resize ((UInt64.ofNat _).toNat * pageSize)
        rw [htotal]

theorem writePage_eq_ok {page : Page} {written : PageFile}
    (h : f.writePage id page = .ok written) :
    written = { f with file := f.file.writePage id.toNat page } := by
  unfold writePage at h
  split at h
  · contradiction
  · next number hnumber =>
    obtain rfl := eq_of_pageNumber hnumber
    exact (Except.ok.inj h).symm

/-- Writing on another page leaves a page as it is. -/
theorem readPage_writePage_of_ne {other : PageId} {page written : Page} (hne : other ≠ id)
    (h : f.readPage id = .ok page) :
    ({ f with file := f.file.writePage other.toNat written } : PageFile).readPage id =
      .ok page := by
  obtain ⟨hcount, hposition, hsize, hpage⟩ := readPage_eq_ok h
  refine readPage_of_page hcount hposition (Nat.le_trans hsize (Nat.le_max_left _ _)) ?_
  have hnumber : other.toNat ≠ id.toNat := fun heq => hne (UInt64.toNat_inj.mp heq)
  rw [File.page_writePage, if_neg hnumber]
  exact hpage

/-- New pages change the superblock in their number only. -/
theorem superblock_allocate {count : UInt64} {grown : PageFile}
    (h : f.allocate count = .ok (id, grown)) :
    grown.superblock = { f.superblock with pageCount := grown.pageCount } := by
  unfold allocate at h
  dsimp only at h
  split at h
  · contradiction
  · split at h
    · contradiction
    · obtain ⟨-, rfl⟩ := Prod.mk.inj (Except.ok.inj h)
      rfl

/-! ## Growing -/

/-- A file with more pages: they lie behind the others, which stay as they are. -/
structure Grows (f : PageFile) (count : Nat) (f' : PageFile) : Prop where
  count_eq : f'.pageCount.toNat = f.pageCount.toNat + count
  room : f'.pageCount.toNat * pageSize < File.positionLimit
  size_eq : f'.file.size = f'.pageCount.toNat * pageSize
  superblock_eq : f'.superblock = { f.superblock with pageCount := f'.pageCount }
  verify_eq : f'.verify = f.verify
  page_eq : ∀ number < f.pageCount.toNat, f'.file.page number = f.file.page number

namespace Grows

variable {count : Nat}

theorem trans {f'' : PageFile} {more : Nat} (h : f.Grows count f') (h' : f'.Grows more f'') :
    f.Grows (count + more) f'' where
  count_eq := by rw [h'.count_eq, h.count_eq, Nat.add_assoc]
  room := h'.room
  size_eq := h'.size_eq
  superblock_eq := by rw [h'.superblock_eq, h.superblock_eq]
  verify_eq := h'.verify_eq.trans h.verify_eq
  page_eq := fun number hnumber => by
    have hcount := h.count_eq
    rw [h'.page_eq number (by omega), h.page_eq number hnumber]

theorem root_eq (h : f.Grows count f') : f'.root = f.root := by
  rw [root, h.superblock_eq, root]

/-- A page that can be read is still read. -/
theorem readPage {page : Page} (h : f.Grows count f') (hread : f.readPage id = .ok page) :
    f'.readPage id = .ok page := by
  obtain ⟨hlt, hposition, -, hpage⟩ := readPage_eq_ok hread
  have hold : id.toNat < f.pageCount.toNat := UInt64.lt_iff_toNat_lt.mp hlt
  have hcount := h.count_eq
  refine readPage_of_page (UInt64.lt_iff_toNat_lt.mpr (by omega)) hposition ?_ ?_
  · rw [h.size_eq]
    exact Nat.mul_le_mul_right pageSize (by omega)
  · rw [h.page_eq _ hold, hpage]

/-- A node that is found is still found. -/
theorem fetch (h : f.Grows count f') (hfetch : f.fetch id = .ok n) : f'.fetch id = .ok n :=
  fetch_keep h.verify_eq (fun _ _ hread => h.readPage hread) hfetch

/-- Writing the last page leaves a file that has grown by it. -/
theorem write (h : f.Grows 1 f') (page : Page) :
    f.Grows 1 { f' with file := f'.file.writePage f.pageCount.toNat page } where
  count_eq := h.count_eq
  room := h.room
  size_eq := by
    show Nat.max f'.file.size ((f.pageCount.toNat + 1) * pageSize) = f'.pageCount.toNat * pageSize
    rw [h.size_eq, h.count_eq]
    exact Nat.max_self _
  superblock_eq := h.superblock_eq
  verify_eq := h.verify_eq
  page_eq := fun number hnumber => by
    rw [File.page_writePage, if_neg (Nat.ne_of_gt hnumber), h.page_eq number hnumber]

end Grows

theorem grows_allocate {count : UInt64} (h : f.allocate count = .ok (id, f')) :
    id = f.pageCount ∧ f.Grows count.toNat f' := by
  obtain ⟨hid, htotal, hroom, hfile, hverify⟩ := allocate_eq_ok h
  refine ⟨hid, htotal, hroom, by rw [hfile, File.size_resize], superblock_allocate h, hverify,
    fun number hnumber => ?_⟩
  rw [hfile, File.page_resize f.file (Nat.mul_le_mul_right pageSize (by omega))]

/-- A node that is put makes the file grow by a page, or is refused. -/
theorem put_grows (f : PageFile) (n : Node) : (f.put n).2 = f ∨ f.Grows 1 (f.put n).2 := by
  unfold put
  split
  · exact Or.inl rfl
  · next id grown hgrown =>
    have hgrows := (grows_allocate hgrown).2
    split
    · exact Or.inr hgrows
    · next written hwritten =>
      obtain rfl := writePage_eq_ok hwritten
      obtain ⟨rfl, -⟩ := grows_allocate hgrown
      exact Or.inr (hgrows.write n.page)

/-- A node that is put is written on a page that was added for it. -/
theorem put_eq_ok (h : f.put n = (.ok id, f')) :
    ∃ grown : PageFile, f.allocate 1 = .ok (id, grown) ∧
      f' = { grown with file := grown.file.writePage id.toNat n.page } := by
  unfold put at h
  split at h
  · cases h
  · next newId grown hgrown =>
    split at h
    · cases h
    · next written hwritten =>
      obtain ⟨hid, rfl⟩ := Prod.mk.inj h
      obtain rfl := Except.ok.inj hid
      exact ⟨grown, hgrown, writePage_eq_ok hwritten⟩

/-- The node that was put is on the last page. -/
theorem grows_put (h : f.put n = (.ok id, f')) :
    id = f.pageCount ∧ f.Grows 1 f' ∧ f'.file.page id.toNat = n.page := by
  obtain ⟨grown, hgrown, rfl⟩ := put_eq_ok h
  obtain ⟨rfl, hgrows⟩ := grows_allocate hgrown
  exact ⟨rfl, hgrows.write n.page, by rw [File.page_writePage, if_pos rfl]⟩

/-- A node can be put if a page can be added. -/
theorem put_of_allocate {grown : PageFile} (h : f.allocate 1 = .ok (id, grown)) (n : Node) :
    ∃ f', f.put n = (.ok id, f') := by
  obtain ⟨rfl, hgrows⟩ := grows_allocate h
  have hcount : grown.pageCount.toNat = f.pageCount.toNat + 1 := hgrows.count_eq
  have hlt : f.pageCount < grown.pageCount := UInt64.lt_iff_toNat_lt.mpr (by omega)
  have hposition : f.pageCount.toNat * pageSize < File.positionLimit :=
    Nat.lt_of_le_of_lt (Nat.mul_le_mul_right pageSize (by omega)) hgrows.room
  have hnumber := pageNumber_eq_ok hlt hposition
  unfold put
  rw [h]
  simp only [writePage, hnumber]
  exact ⟨_, rfl⟩

/-- The page that was put can be read. -/
theorem readPage_put (h : f.put n = (.ok id, f')) : f'.readPage id = .ok n.page := by
  obtain ⟨rfl, hgrows, hpage⟩ := grows_put h
  have hcount := hgrows.count_eq
  refine readPage_of_page (UInt64.lt_iff_toNat_lt.mpr (by omega)) ?_ ?_ hpage
  · exact Nat.lt_of_le_of_lt (Nat.mul_le_mul_right pageSize (by omega)) hgrows.room
  · exact Nat.le_of_eq (by rw [hgrows.size_eq, hcount])

/-! ## The store -/

/-- The page of a draft is the page of its node. -/
theorem fetch_finish {d : NodeDraft} (hd : d.Sound) (hid : id ≠ 0)
    (h : f.readPage id = .ok d.finish.page) : f.fetch id = .ok d.finish :=
  fetch_of_intact hd.intact hid h

/-- A node of a draft is found on the page where it was put. -/
theorem fetch_put {d : NodeDraft} (hd : d.Sound) (hid : id ≠ 0)
    (h : f.put d.finish = (.ok id, f')) : f'.fetch id = .ok d.finish :=
  fetch_finish hd hid (readPage_put h)

theorem commitRoot_eq_ok {root : PageId} (h : f.commitRoot root = (.ok (), f')) :
    ∃ superblock : Superblock, superblock.pageCount = f.pageCount ∧
      f' = ⟨f.file.writePage (0 : PageId).toNat superblock.toPage, superblock, f.verify⟩ := by
  unfold commitRoot writeSuperblock at h
  dsimp only at h
  split at h
  · cases h
  · next written hwritten =>
    obtain ⟨-, rfl⟩ := Prod.mk.inj h
    exact ⟨{ f.superblock with root := root }, rfl, writePage_eq_ok hwritten⟩

/-- A file is in order when its page 0 is counted, so that no node is put there. -/
instance : LawfulStorage PageFile where
  Sound f := f.pageCount ≠ 0
  put_ok := by
    intro f f' d id hf hd hput
    change f.put d.finish = (.ok id, f') at hput
    obtain ⟨hid, hgrows, -⟩ := grows_put hput
    have hne : id ≠ 0 := hid ▸ hf
    refine ⟨?_, hne, fetch_put hd hne hput, fun hold => hgrows.fetch hold⟩
    -- the number of pages has grown and did not wrap around
    intro hzero
    have hcount := hgrows.count_eq
    rw [hzero] at hcount
    exact Nat.succ_ne_zero _ hcount.symm
  commitRoot_ok := by
    intro f f' root _ hcommit id n hfetch
    obtain ⟨superblock, hcount, rfl⟩ := commitRoot_eq_ok hcommit
    refine fetch_keep (f := f) rfl (fun hid page hpage => ?_) hfetch
    obtain ⟨hlt, hposition, hsize, hpage⟩ :=
      readPage_eq_ok (readPage_writePage_of_ne hid.symm hpage)
    refine readPage_of_page ?_ hposition hsize hpage
    show id < superblock.pageCount
    rw [hcount]
    exact hlt

/-- Pages are numbered from 0 on, and the superblock is the first. -/
instance : SerialStorage PageFile where
  taken f := (List.range f.pageCount.toNat).map UInt64.ofNat
  put_taken := by
    intro f f' n id _ hput
    change f.put n = (.ok id, f') at hput
    obtain ⟨rfl, hgrows, -⟩ := grows_put hput
    constructor
    · show (List.range f'.pageCount.toNat).map UInt64.ofNat = _
      rw [hgrows.count_eq, List.range_succ, List.map_append, List.map_singleton,
        UInt64.ofNat_toNat]
    · intro old hold
      obtain ⟨i, hi, rfl⟩ := List.mem_map.mp hold
      have hlt : i < f.pageCount.toNat := List.mem_range.mp hi
      have hrange : i < UInt64.size := Nat.lt_trans hlt f.pageCount.toNat_lt
      rw [UInt64.lt_iff_toNat_lt, UInt64.toNat_ofNat_of_lt' hrange]
      exact hlt

/-! ## Opening -/

/-- A file that was just made is in order. -/
theorem sound_create {path : String} {found : Option File} (h : create path found = .ok f) :
    LawfulStorage.Sound f := by
  unfold create at h
  split at h
  · contradiction
  · obtain rfl := Except.ok.inj h
    exact (by decide : (1 : UInt64) ≠ 0)

/-- A file that was opened is in order. -/
theorem sound_load {found : Option File} (h : load found = .ok f) : LawfulStorage.Sound f := by
  unfold load at h
  split at h
  · contradiction
  · split at h
    · contradiction
    · split at h
      · contradiction
      · next superblock hsuperblock =>
        obtain ⟨-, -, ⟨-, -, hroot⟩, -⟩ := Superblock.ofPage_eq_ok_iff.mp hsuperblock
        obtain rfl := Except.ok.inj h
        intro hzero
        have hcount : superblock.pageCount = 0 := hzero
        rw [hcount] at hroot
        exact UInt64.not_lt_zero hroot

end PageFile

end RangeStore
