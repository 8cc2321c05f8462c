import RangeStore.Proofs.Storage.History
set_option autoImplicit false

/-! # Where pages lie

The position of a page is its id times the size of a page, a product of 64-bit numbers. It is the
true position for the first 2^51 ids, and that of another page for the others
(`PageFile.toNat_position`). A file that was made and used through its operations has far fewer
pages (`PageFile.Run.addressable`). But how many pages there are is read from the superblock, and
any number of them is accepted there. So a file may be opened with pages that have no position, and
all that can be said of reading and adding pages stands under the condition that the numbers are in
their range (`PageFile.load_exact_iff`). -/

namespace RangeStore

namespace File

/-- A whole page is the bytes of the file from its position on. -/
theorem toList_page (f : File) {number : Nat} (h : (number + 1) * pageSize ≤ f.size) :
    (f.page number).toList = f.slice (number * pageSize) pageSize := by
  have hroom : Nat.min pageSize (f.size - number * pageSize) = pageSize := by
    rw [Nat.add_mul] at h
    exact Nat.min_eq_left (by omega)
  apply List.ext_getElem
  · rw [Page.length_toList, slice, List.length_map, List.length_range, hroom]
  · intro i hi _
    rw [Page.length_toList] at hi
    have hnumber : (number * pageSize + i) / pageSize = number := by
      rw [Nat.mul_comm, Nat.mul_add_div (by decide), Nat.div_eq_of_lt hi, Nat.add_zero]
    have hplace : (number * pageSize + i) % pageSize = i := by
      rw [Nat.mul_comm, Nat.mul_add_mod, Nat.mod_eq_of_lt hi]
    simp only [slice, List.getElem_map, List.getElem_range, byte, hnumber, hplace]
    rfl

end File

namespace PageFile

variable {f f' : PageFile} {id : PageId} {e : StoreError} {n : Node} {count : UInt64}

/-! ## Positions -/

/-- The position of a page as it is computed. -/
def position (id : PageId) : UInt64 := id * UInt64.ofNat pageSize

/-- Every 2^51 ids the positions begin anew. -/
theorem toNat_position (id : PageId) :
    (position id).toNat = id.toNat % (UInt64.size / pageSize) * pageSize := by
  have hsize : UInt64.size = UInt64.size / pageSize * pageSize := by decide
  have hpage : (UInt64.ofNat pageSize).toNat = pageSize := rfl
  have hpower : 2 ^ 64 = UInt64.size := rfl
  rw [position, UInt64.toNat_mul, hpage, hpower]
  conv_lhs => rw [hsize]
  exact Nat.mul_mod_mul_right ..

/-- The position computed is the true one if that is a 64-bit number. -/
theorem position_exact_iff :
    (position id).toNat = id.toNat * pageSize ↔ id.toNat * pageSize < UInt64.size := by
  constructor
  · intro h
    rw [← h]
    exact (position id).toNat_lt_size
  · intro h
    have hlt : id.toNat < UInt64.size / pageSize :=
      Nat.lt_of_mul_lt_mul_right (Nat.lt_of_lt_of_eq h (by decide))
    rw [toNat_position, Nat.mod_eq_of_lt hlt]

/-- All positions of a file's pages are 64-bit numbers. -/
def Addressable (f : PageFile) : Prop := f.pageCount.toNat * pageSize ≤ UInt64.size

theorem addressable_iff :
    f.Addressable ↔ ∀ id < f.pageCount, id.toNat * pageSize < UInt64.size := by
  constructor
  · intro h id hid
    have hlt : id.toNat * pageSize < f.pageCount.toNat * pageSize :=
      Nat.mul_lt_mul_of_pos_right (UInt64.lt_iff_toNat_lt.mp hid) (by decide)
    exact Nat.lt_of_lt_of_le hlt h
  · intro h
    show f.pageCount.toNat * pageSize ≤ UInt64.size
    by_cases hzero : f.pageCount.toNat = 0
    · rw [hzero, Nat.zero_mul]
      exact Nat.zero_le _
    · -- the last page lies before 2^64, and this is a multiple of the size of a page
      have hlast : (f.pageCount - 1).toNat = f.pageCount.toNat - 1 :=
        UInt64.toNat_sub_of_le _ _ (UInt64.le_iff_toNat_le.mpr (Nat.pos_of_ne_zero hzero))
      have hposition := h (f.pageCount - 1) (UInt64.lt_iff_toNat_lt.mpr (by omega))
      have hsize : UInt64.size = 2251799813685248 * pageSize := by decide
      rw [hlast, hsize] at hposition
      have hlt : f.pageCount.toNat - 1 < 2251799813685248 := Nat.lt_of_mul_lt_mul_right hposition
      rw [hsize]
      exact Nat.mul_le_mul_right pageSize (by omega)

/-! ## Reading -/

theorem readPage_eq_error (h : f.readPage id = .error e) :
    (e = .pageOutOfBounds id f.pageCount ∧ f.pageCount ≤ id) ∨
      (e = .outOfRange ∧ id < f.pageCount ∧ UInt64.size ≤ id.toNat * pageSize) ∨
      ∃ failure, e = .file failure := by
  unfold readPage pageNumber at h
  split at h
  · next hnumber =>
    cases h
    split at hnumber
    · next hbehind =>
      cases hnumber
      exact Or.inl ⟨rfl, hbehind⟩
    · next hcount =>
      split at hnumber
      · next hrange =>
        cases hnumber
        exact Or.inr (Or.inl ⟨rfl, UInt64.not_le.mp hcount, hrange⟩)
      · split at hnumber
        · cases hnumber
          exact Or.inr (Or.inr ⟨_, rfl⟩)
        · cases hnumber
  · split at h
    · cases h
      exact Or.inr (Or.inr ⟨_, rfl⟩)
    · cases h

/-- A page is read from its position, or the file does not have it. -/
structure ReadsExactly (f : PageFile) (id : PageId) : Prop where
  position_eq : (position id).toNat = id.toNat * pageSize
  outcome : (∃ page, f.readPage id = .ok page ∧ (id.toNat + 1) * pageSize ≤ f.file.size ∧
      page.toList = f.file.slice (id.toNat * pageSize) pageSize) ∨
    ∃ e, f.readPage id = .error (.file e)

theorem readPage_eq_outOfRange (hid : id < f.pageCount)
    (h : UInt64.size ≤ id.toNat * pageSize) : f.readPage id = .error .outOfRange := by
  rw [readPage, pageNumber, if_neg (UInt64.not_le.mpr hid), if_pos h]

/-- Below the number of pages a page is read exactly if its position is a 64-bit number. -/
theorem readsExactly_iff (hid : id < f.pageCount) :
    f.ReadsExactly id ↔ id.toNat * pageSize < UInt64.size := by
  constructor
  · intro h
    exact position_exact_iff.mp h.position_eq
  · intro h
    refine ⟨position_exact_iff.mpr h, ?_⟩
    cases hread : f.readPage id with
    | ok page =>
      obtain ⟨-, -, hsize, hpage⟩ := readPage_eq_ok hread
      exact Or.inl ⟨page, rfl, hsize, hpage ▸ f.file.toList_page hsize⟩
    | error e =>
      rcases readPage_eq_error hread with ⟨-, hbehind⟩ | ⟨-, -, hrange⟩ | ⟨failure, rfl⟩
      · exact absurd hid (UInt64.not_lt.mpr hbehind)
      · exact absurd hrange (Nat.not_le.mpr h)
      · exact Or.inr ⟨failure, rfl⟩

/-! ## Growing -/

/-- What can be read of a file can be read of another. -/
def Keeps (f f' : PageFile) : Prop :=
  ∀ (id : PageId) (page : Page), f.readPage id = .ok page → f'.readPage id = .ok page

/-- Pages are added behind the others, and their number and the length of the file are computed as
they are; or the file has no such length. -/
def AllocatesExactly (f : PageFile) (count : UInt64) : Prop :=
  (∃ f', f.allocate count = .ok (f.pageCount, f') ∧ f.Grows count.toNat f' ∧
    (f.pageCount + count).toNat = f.pageCount.toNat + count.toNat ∧
    (position (f.pageCount + count)).toNat = (f.pageCount.toNat + count.toNat) * pageSize) ∨
  ∃ e, f.allocate count = .error (.file e)

/-- A node is written on a page behind the others; or the file has no such length and stays as it
is. -/
def PutsExactly (f : PageFile) (n : Node) : Prop :=
  (∃ f', f.put n = (.ok f.pageCount, f') ∧ f.Grows 1 f' ∧ f'.readPage f.pageCount = .ok n.page) ∨
  ∃ e, f.put n = (.error (.file e), f)

theorem allocate_eq_outOfRange
    (h : UInt64.size ≤ (f.pageCount.toNat + count.toNat) * pageSize) :
    f.allocate count = .error .outOfRange :=
  if_pos (Or.inr h)

theorem allocate_eq_error (h : f.allocate count = .error e) :
    (e = .outOfRange ∧ UInt64.size ≤ (f.pageCount.toNat + count.toNat) * pageSize) ∨
      e = .file .invalidLength := by
  unfold allocate at h
  dsimp only at h
  split at h
  · next hrange =>
    have hle : f.pageCount.toNat + count.toNat ≤ (f.pageCount.toNat + count.toNat) * pageSize :=
      Nat.le_mul_of_pos_right _ (by decide)
    exact Or.inl ⟨(Except.error.inj h).symm, hrange.elim (fun hsum => Nat.le_trans hsum hle) id⟩
  · split at h
    · exact Or.inr (Except.error.inj h).symm
    · contradiction

/-- Pages are added as they should be exactly if the new length of the file is a 64-bit number. -/
theorem allocatesExactly_iff :
    f.AllocatesExactly count ↔
      (f.pageCount.toNat + count.toNat) * pageSize < UInt64.size := by
  constructor
  · intro h
    refine Nat.not_le.mp fun hrange => ?_
    rw [AllocatesExactly, allocate_eq_outOfRange hrange] at h
    rcases h with ⟨f', hok, -⟩ | ⟨e, herror⟩
    · contradiction
    · simp only [Except.error.injEq, reduceCtorEq] at herror
  · intro h
    cases hallocate : f.allocate count with
    | error e =>
      rcases allocate_eq_error hallocate with ⟨-, hrange⟩ | rfl
      · exact absurd hrange (Nat.not_le.mpr h)
      · exact Or.inr ⟨_, hallocate⟩
    | ok added =>
      obtain ⟨id, f'⟩ := added
      obtain ⟨rfl, hgrows⟩ := grows_allocate hallocate
      have hsum : (f.pageCount + count).toNat = f.pageCount.toNat + count.toNat := by
        rw [UInt64.toNat_add, ← hgrows.count_eq]
        exact Nat.mod_eq_of_lt f'.pageCount.toNat_lt
      refine Or.inl ⟨f', hallocate, hgrows, hsum, ?_⟩
      rw [← hsum] at h ⊢
      exact position_exact_iff.mpr h

/-- A node is put as it should be exactly if the file may have one more page. -/
theorem putsExactly_iff :
    f.PutsExactly n ↔ (f.pageCount.toNat + 1) * pageSize < UInt64.size := by
  constructor
  · intro h
    refine Nat.not_le.mp fun hrange => ?_
    have hallocate : f.allocate 1 = .error .outOfRange := allocate_eq_outOfRange hrange
    have hput : f.put n = (.error .outOfRange, f) := by rw [put, hallocate]
    rw [PutsExactly, hput] at h
    rcases h with ⟨f', hok, -⟩ | ⟨e, herror⟩
    · simp only [Prod.mk.injEq, reduceCtorEq, false_and] at hok
    · simp only [Prod.mk.injEq, Except.error.injEq, reduceCtorEq, false_and] at herror
  · intro h
    cases hallocate : f.allocate 1 with
    | error e =>
      rcases allocate_eq_error hallocate with ⟨-, hrange⟩ | rfl
      · exact absurd hrange (Nat.not_le.mpr h)
      · exact Or.inr ⟨_, by rw [put, hallocate]⟩
    | ok added =>
      obtain ⟨id, grown⟩ := added
      obtain ⟨f', hput⟩ := put_of_allocate hallocate n
      obtain ⟨rfl, hgrows, -⟩ := grows_put hput
      exact Or.inl ⟨f', hput, hgrows, readPage_put hput⟩

/-- Nothing is cut off. -/
theorem keeps_allocate (h : f.allocate count = .ok (id, f')) : f.Keeps f' :=
  fun _ _ hread => (grows_allocate h).2.readPage hread

theorem keeps_put (f : PageFile) (n : Node) : f.Keeps (f.put n).2 := by
  intro id page hread
  rcases put_grows f n with heq | hgrows
  · rwa [heq]
  · exact hgrows.readPage hread

/-! ## Opening -/

/-- Any number of pages is accepted, as long as the root is one of them. -/
theorem exists_load_iff {s : Superblock} :
    (∃ file f, load (some file) = .ok f ∧ f.superblock = s) ↔
      s.version = 1 ∧ s.pageSize = 8192 ∧ s.root < s.pageCount := by
  constructor
  · rintro ⟨file, f, hload, rfl⟩
    unfold load at hload
    dsimp only at hload
    split at hload
    · contradiction
    · split at hload
      · contradiction
      · next superblock hsuperblock =>
        obtain rfl := Except.ok.inj hload
        exact (Superblock.ofPage_eq_ok_iff.mp hsuperblock).2.2.1
  · rintro ⟨hversion, hsize, hroot⟩
    refine ⟨File.empty.writePage 0 s.toPage, ⟨File.empty.writePage 0 s.toPage, s, true⟩, ?_, rfl⟩
    simp only [load, File.readPage_writePage, Superblock.ofPage_toPage hversion hsize hroot]

/-- All pages of a file that was made and used through its operations have positions. -/
theorem Run.addressable {path : String} {steps : List Step} {j : Journal} (h : Run path steps j f) :
    f.Addressable :=
  Nat.le_of_lt (Nat.lt_trans h.follows.room (by decide))

/-- Which numbers of pages are safe, for every file that is opened. Any number of pages is accepted,
from one on. All pages that are counted are read from their positions, or not read because the file
does not have them, exactly if all their positions are 64-bit numbers; a page whose position is none
is neither read nor refused by the file. Adding pages or putting a node behind them gives the pages
that were asked for, or is refused by the file, exactly if the new length of the file is a 64-bit
number. Whatever the numbers are, every page that could be read before can be read afterwards. -/
theorem load_exact_iff (f : PageFile) :
    ((∃ file g, load (some file) = .ok g ∧ g.superblock = f.superblock) ↔
      f.superblock.version = 1 ∧ f.superblock.pageSize = 8192 ∧ f.root < f.pageCount) ∧
    ((∀ id < f.pageCount, f.ReadsExactly id) ↔ f.Addressable) ∧
    (∀ id < f.pageCount, UInt64.size ≤ id.toNat * pageSize →
      f.readPage id = .error .outOfRange) ∧
    (∀ count, f.AllocatesExactly count ↔
      (f.pageCount.toNat + count.toNat) * pageSize < UInt64.size) ∧
    (∀ n, f.PutsExactly n ↔ (f.pageCount.toNat + 1) * pageSize < UInt64.size) ∧
    (∀ count first f', f.allocate count = .ok (first, f') → f.Keeps f') ∧
    ∀ n, f.Keeps (f.put n).2 := by
  refine ⟨exists_load_iff, ?_, fun id => readPage_eq_outOfRange, fun count => allocatesExactly_iff,
    fun n => putsExactly_iff, fun count first f' => keeps_allocate, keeps_put f⟩
  rw [addressable_iff]
  exact forall₂_congr fun id hid => readsExactly_iff hid

/-- A file whose superblock counts 2^64 - 1 pages is opened. The position of page 2^51 comes out as
that of the superblock, and the page is neither read nor refused by the file. To a file with nothing
but its superblock 2^64 - 1 pages are added: their number comes out as 0, and the file does not
refuse them either. -/
theorem load_unaddressable :
    (∃ file f, load (some file) = .ok f ∧ 2251799813685248 < f.pageCount ∧
      position 2251799813685248 = 0 ∧ f.readPage 2251799813685248 = .error .outOfRange ∧
      ¬ f.ReadsExactly 2251799813685248) ∧
    ∃ f g, create "a" none = .ok f ∧ load (some f.file) = .ok g ∧
      g.pageCount + 18446744073709551615 = 0 ∧
      g.allocate 18446744073709551615 = .error .outOfRange ∧
      ¬ g.AllocatesExactly 18446744073709551615 := by
  constructor
  · obtain ⟨file, f, hload, hsuperblock⟩ :=
      (exists_load_iff (s := { pageCount := 18446744073709551615 })).mpr (by decide)
    have hid : 2251799813685248 < f.pageCount := by
      rw [pageCount, hsuperblock]
      decide
    have hrange : UInt64.size ≤ (2251799813685248 : PageId).toNat * pageSize := by decide
    exact ⟨file, f, hload, hid, by decide, readPage_eq_outOfRange hid hrange,
      fun h => absurd ((readsExactly_iff hid).mp h) (Nat.not_lt.mpr hrange)⟩
  · obtain ⟨f, hcreate⟩ : ∃ f, create "a" none = .ok f := ⟨_, rfl⟩
    obtain ⟨g, -, hload, -, hcount⟩ := (Run.create hcreate).exists_reopen (by decide)
    have hcount : g.pageCount = 1 := hcount
    have hrange : UInt64.size ≤
        (g.pageCount.toNat + (18446744073709551615 : UInt64).toNat) * pageSize := by
      rw [hcount]
      decide
    exact ⟨f, g, hcreate, hload, by rw [hcount]; decide, allocate_eq_outOfRange hrange,
      fun h => absurd (allocatesExactly_iff.mp h) (Nat.not_lt.mpr hrange)⟩

end PageFile

end RangeStore
