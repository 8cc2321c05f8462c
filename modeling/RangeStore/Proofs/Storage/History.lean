import RangeStore.Proofs.Page.Superblock
import RangeStore.Proofs.Storage.Mirror
set_option autoImplicit false

/-! # The history of a page file

A page file counts its pages in memory and writes the count only with the superblock, so a file that
is opened again may be longer than its superblock says: what was put since is forgotten, and its
ids are given out once more.

A run of a file (`PageFile.Run`) is noted in a journal, and the file follows its journal through
every step (`PageFile.Run.follows`): it has all pages that it counts, and on page 0 the superblock
as it was last written. What is opened is therefore what was written (`PageFile.Follows.load_eq`),
and a page that was counted then still holds the node that was last put there
(`PageFile.Run.holds`). -/

namespace RangeStore

/-- The error that a call has ended with. -/
def errorOf {ε α : Type} : Except ε α → Option ε
  | .error e => some e
  | .ok _ => none

theorem eq_error_of_errorOf {ε α : Type} {result : Except ε α} {e : ε}
    (h : errorOf result = some e) : result = .error e := by
  cases result with
  | error found => exact congrArg _ (Option.some.inj h)
  | ok a => contradiction

namespace PageFile

variable {f f' : PageFile} {id : PageId} {n : Node}

/-! ## What each operation does -/

theorem fetch_of_count_le (hid : id ≠ 0) (h : f.pageCount ≤ id) :
    f.fetch id = .error (.pageOutOfBounds id f.pageCount) := by
  rw [fetch, if_neg hid, readPage, pageNumber, if_pos h]

theorem writeSuperblock_eq_ok (h : f.writeSuperblock = .ok f') :
    f' = { f with file := f.file.writePage 0 f.superblock.toPage } := by
  have hzero : (0 : PageId).toNat = 0 := rfl
  have hwritten := writePage_eq_ok h
  rwa [hzero] at hwritten

/-- Committing a root is writing the superblock with it. -/
theorem writeSuperblock_of_commitRoot {root : PageId} (h : f.commitRoot root = (.ok (), f')) :
    { f with superblock := { f.superblock with root := root } }.writeSuperblock = .ok f' := by
  unfold commitRoot at h
  dsimp only at h
  split at h
  · cases h
  · next written hwritten =>
    rw [hwritten, (Prod.mk.inj h).2]

/-! ## Runs -/

/-- What is done to an open file. -/
inductive Step where
  | put (n : Node)
  | allocate (count : UInt64)
  | commitRoot (root : PageId)
  | writeSuperblock
  /-- The file is closed and opened again. -/
  | reopen

/-- What is noted of a run: root and number of pages when the superblock was last written, and the
nodes that were put, with their ids, the last one first. -/
structure Journal where
  root : PageId := 0
  count : UInt64 := 1
  puts : List (PageId × Node) := []

/-- The superblock of a file has been written. -/
def Journal.written (j : Journal) (f : PageFile) : Journal :=
  { j with root := f.root, count := f.pageCount }

/-- A node has been put. -/
def Journal.noted (j : Journal) (id : PageId) (n : Node) : Journal :=
  { j with puts := (id, n) :: j.puts }

/-- The file that a run comes to, with the steps that led there, the last one first, and what has
been noted of them. -/
inductive Run (path : String) : List Step → Journal → PageFile → Prop
  | create {f : PageFile} (h : create path none = .ok f) : Run path [] {} f
  | put {steps : List Step} {j : Journal} {f f' : PageFile} {n : Node} {id : PageId}
      (before : Run path steps j f) (h : f.put n = (.ok id, f')) :
      Run path (.put n :: steps) (j.noted id n) f'
  | allocate {steps : List Step} {j : Journal} {f f' : PageFile} {count : UInt64} {first : PageId}
      (before : Run path steps j f) (h : f.allocate count = .ok (first, f')) :
      Run path (.allocate count :: steps) j f'
  | commitRoot {steps : List Step} {j : Journal} {f f' : PageFile} {root : PageId}
      (before : Run path steps j f) (h : f.commitRoot root = (.ok (), f')) :
      Run path (.commitRoot root :: steps) (j.written f') f'
  | writeSuperblock {steps : List Step} {j : Journal} {f f' : PageFile}
      (before : Run path steps j f) (h : f.writeSuperblock = .ok f') :
      Run path (.writeSuperblock :: steps) (j.written f') f'
  | reopen {steps : List Step} {j : Journal} {f f' : PageFile} (before : Run path steps j f)
      (h : load (some f.file) = .ok f') : Run path (.reopen :: steps) j f'

/-! ## Files follow their journals -/

/-- The superblock that was written last. -/
def stored (f : PageFile) (j : Journal) : Superblock :=
  { f.superblock with root := j.root, pageCount := j.count }

/-- What holds of a file in use: it has all pages that it counts, those that the written superblock
counts among them, and on page 0 this superblock. -/
structure Follows (f : PageFile) (j : Journal) : Prop where
  count_pos : 0 < j.count
  count_le : j.count ≤ f.pageCount
  room : f.pageCount.toNat * pageSize < File.positionLimit
  size_le : f.pageCount.toNat * pageSize ≤ f.file.size
  version_eq : f.superblock.version = 1
  pageSize_eq : f.superblock.pageSize = 8192
  page_zero : f.file.page 0 = (f.stored j).toPage

namespace Follows

variable {j : Journal}

theorem pageCount_pos (h : f.Follows j) : 0 < f.pageCount :=
  UInt64.lt_of_lt_of_le h.count_pos h.count_le

/-- Every page that is counted can be read. -/
theorem readPage_eq (h : f.Follows j) (hid : id < f.pageCount) :
    f.readPage id = .ok (f.file.page id.toNat) := by
  have hlt : id.toNat < f.pageCount.toNat := UInt64.lt_iff_toNat_lt.mp hid
  have hend : (id.toNat + 1) * pageSize ≤ f.pageCount.toNat * pageSize :=
    Nat.mul_le_mul_right pageSize hlt
  exact readPage_of_page hid (Nat.lt_of_le_of_lt (Nat.mul_le_mul_right pageSize (Nat.le_of_lt hlt))
    h.room) (Nat.le_trans hend h.size_le) rfl

/-- A new file has its superblock. -/
theorem create {path : String} (h : PageFile.create path none = .ok f) : f.Follows {} := by
  obtain rfl := Except.ok.inj h
  refine ⟨by decide, UInt64.le_refl _, by decide, Nat.le_refl _, rfl, rfl, ?_⟩
  rw [File.page_writePage, if_pos rfl]
  rfl

theorem grow {count : Nat} (h : f.Follows j) (hgrows : f.Grows count f') : f'.Follows j where
  count_pos := h.count_pos
  count_le := by
    have hle := UInt64.le_iff_toNat_le.mp h.count_le
    have heq := hgrows.count_eq
    exact UInt64.le_iff_toNat_le.mpr (by omega)
  room := hgrows.room
  size_le := Nat.le_of_eq hgrows.size_eq.symm
  version_eq := by rw [hgrows.superblock_eq]; exact h.version_eq
  pageSize_eq := by rw [hgrows.superblock_eq]; exact h.pageSize_eq
  page_zero := by
    rw [hgrows.page_eq 0 (UInt64.lt_iff_toNat_lt.mp h.pageCount_pos), h.page_zero, stored, stored,
      hgrows.superblock_eq]

/-- What is noted of a put does not matter for the superblock. -/
theorem noted (h : f.Follows j) (id : PageId) (n : Node) : f.Follows (j.noted id n) := { h with }

theorem writeSuperblock (h : f.Follows j) (hwrite : f.writeSuperblock = .ok f') :
    f'.Follows (j.written f') := by
  obtain rfl := writeSuperblock_eq_ok hwrite
  refine ⟨h.pageCount_pos, UInt64.le_refl _, h.room, Nat.le_trans h.size_le (Nat.le_max_left _ _),
    h.version_eq, h.pageSize_eq, ?_⟩
  rw [File.page_writePage, if_pos rfl]
  rfl

theorem commitRoot {root : PageId} (h : f.Follows j) (hcommit : f.commitRoot root = (.ok (), f')) :
    f'.Follows (j.written f') := by
  have hchanged : Follows { f with superblock := { f.superblock with root := root } } j :=
    { h with }
  exact hchanged.writeSuperblock (writeSuperblock_of_commitRoot hcommit)

theorem readPage_zero (h : f.Follows j) : f.file.readPage 0 = .ok (f.stored j).toPage := by
  have hpos : 0 < f.pageCount.toNat := UInt64.lt_iff_toNat_lt.mp h.pageCount_pos
  rw [File.readPage, if_pos (Nat.le_trans (Nat.mul_le_mul_right pageSize hpos) h.size_le),
    h.page_zero]

/-- Opening the file gives the superblock that was written, unless its root is refused. -/
theorem load_eq (h : f.Follows j) :
    load (some f.file) =
      if j.count ≤ j.root then .error (.superblock (.invalidRoot j.root j.count))
      else .ok ⟨f.file, f.stored j, true⟩ := by
  have hsuper := Superblock.ofPage_toPage_eq (s := f.stored j) h.version_eq h.pageSize_eq
  simp only [load, h.readPage_zero]
  by_cases hroot : j.count ≤ j.root
  · rw [if_pos hroot, hsuper.trans (if_pos hroot)]
    rfl
  · rw [if_neg hroot, hsuper.trans (if_neg hroot)]

theorem reopen (h : f.Follows j) (hload : load (some f.file) = .ok f') :
    f' = ⟨f.file, f.stored j, true⟩ ∧ f'.Follows j := by
  rw [h.load_eq] at hload
  split at hload
  · contradiction
  · obtain rfl := Except.ok.inj hload
    have hle : j.count.toNat * pageSize ≤ f.pageCount.toNat * pageSize :=
      Nat.mul_le_mul_right pageSize (UInt64.le_iff_toNat_le.mp h.count_le)
    exact ⟨rfl, h.count_pos, UInt64.le_refl _, Nat.lt_of_le_of_lt hle h.room,
      Nat.le_trans hle h.size_le, h.version_eq, h.pageSize_eq, h.page_zero⟩

/-- The superblock of a file in use can always be written, whatever its root. -/
theorem commitRoot_ok (h : f.Follows j) (root : PageId) :
    f.commitRoot root = (.ok (), ⟨f.file.writePage 0 (Superblock.toPage
      { f.superblock with root := root }), { f.superblock with root := root }, f.verify⟩) := by
  have hnumber : ({ f with superblock := { f.superblock with root := root } } :
      PageFile).pageNumber 0 = .ok 0 :=
    pageNumber_eq_ok (f := ⟨_, _, _⟩) h.pageCount_pos (by decide)
  simp only [PageFile.commitRoot, PageFile.writeSuperblock, writePage, hnumber]

end Follows

/-- Every file that is in use follows its journal. -/
theorem Run.follows {path : String} {steps : List Step} {j : Journal} (h : Run path steps j f) :
    f.Follows j := by
  induction h with
  | create hcreate => exact Follows.create hcreate
  | put _ hput ih => exact (ih.grow (grows_put hput).2.1).noted _ _
  | allocate _ hallocate ih => exact ih.grow (grows_allocate hallocate).2
  | commitRoot _ hcommit ih => exact ih.commitRoot hcommit
  | writeSuperblock _ hwrite ih => exact ih.writeSuperblock hwrite
  | reopen _ hload ih => exact (ih.reopen hload).2

/-! ## Runs go on -/

/-- Pages can be added as long as the file may grow by them. -/
theorem allocate_of_room (count : UInt64)
    (hroom : (f.pageCount.toNat + count.toNat) * pageSize < File.positionLimit) :
    ∃ grown, f.allocate count = .ok (f.pageCount, grown) := by
  have hlimit : File.positionLimit ≤ UInt64.size := by decide
  have htotal : f.pageCount.toNat + count.toNat ≤ (f.pageCount.toNat + count.toNat) * pageSize :=
    Nat.le_mul_of_pos_right _ (by decide)
  unfold allocate
  dsimp only
  rw [if_neg (by omega), if_neg (Nat.not_le.mpr hroom)]
  exact ⟨_, rfl⟩

/-- A node can be put as long as the file may grow by a page. -/
theorem put_of_room (hroom : (f.pageCount.toNat + 1) * pageSize < File.positionLimit) (n : Node) :
    ∃ f', f.put n = (.ok f.pageCount, f') := by
  obtain ⟨grown, hgrown⟩ := allocate_of_room 1 hroom
  exact put_of_allocate hgrown n

namespace Run

variable {path : String} {steps : List Step} {j : Journal}

theorem exists_create (path : String) : ∃ f, Run path [] {} f ∧ f.pageCount = 1 :=
  ⟨_, .create rfl, rfl⟩

/-- The next node gets the id that is the number of pages. -/
theorem exists_put (h : Run path steps j f) (hcount : f.pageCount = id)
    (hroom : (id.toNat + 1) * pageSize < File.positionLimit) (n : Node) :
    ∃ f', Run path (.put n :: steps) (j.noted id n) f' ∧ f'.pageCount = id + 1 := by
  subst hcount
  obtain ⟨f', hput⟩ := put_of_room hroom n
  have hone : (1 : UInt64).toNat = 1 := rfl
  have hcount := (grows_put hput).2.1.count_eq
  refine ⟨f', .put h hput, UInt64.toNat_inj.mp ?_⟩
  rw [UInt64.toNat_add, hone, ← hcount, Nat.mod_eq_of_lt f'.pageCount.toNat_lt]

/-- The new pages begin with the id that is the number of pages. -/
theorem exists_allocate (h : Run path steps j f) (hcount : f.pageCount = id) (count : UInt64)
    (hroom : (id.toNat + count.toNat) * pageSize < File.positionLimit) :
    ∃ f', f.allocate count = .ok (id, f') ∧ Run path (.allocate count :: steps) j f' := by
  subst hcount
  obtain ⟨f', hallocate⟩ := allocate_of_room count hroom
  exact ⟨f', hallocate, .allocate h hallocate⟩

/-- A root can always be committed, whether it has a page or not. -/
theorem exists_commitRoot {count : UInt64} (h : Run path steps j f) (hcount : f.pageCount = count)
    (root : PageId) :
    ∃ f', Run path (.commitRoot root :: steps) { j with root := root, count := count } f' ∧
      f'.pageCount = count := by
  subst hcount
  exact ⟨_, .commitRoot h (h.follows.commitRoot_ok root), rfl⟩

/-- A file can be opened again if its root was counted when the superblock was written last. -/
theorem exists_reopen (h : Run path steps j f) (hroot : j.root < j.count) :
    ∃ f', Run path (.reopen :: steps) j f' ∧ load (some f.file) = .ok f' ∧
      f'.root = j.root ∧ f'.pageCount = j.count := by
  have hload : load (some f.file) = .ok ⟨f.file, f.stored j, true⟩ := by
    rw [h.follows.load_eq, if_neg (UInt64.not_le.mpr hroot)]
  exact ⟨_, .reopen h hload, hload, rfl, rfl⟩

end Run

/-! ## Pages hold the nodes that were put last -/

/-- Each page but the first holds the node that was last put under its id. -/
def Holds (f : PageFile) (j : Journal) : Prop :=
  ∀ id : PageId, 0 < id → id < f.pageCount →
    ∃ n, j.puts.lookup id = some n ∧ f.file.page id.toNat = n.page

namespace Holds

variable {j : Journal}

theorem create {path : String} (h : PageFile.create path none = .ok f) : f.Holds {} := by
  obtain rfl := Except.ok.inj h
  intro id hpos hlt
  have hpos' : 0 < id.toNat := UInt64.lt_iff_toNat_lt.mp hpos
  have hlt' : id.toNat < 1 := UInt64.lt_iff_toNat_lt.mp hlt
  omega

/-- The new page holds its node, also where another node was put before under the same id. -/
theorem put (h : f.Holds j) (hput : f.put n = (.ok id, f')) : f'.Holds (j.noted id n) := by
  obtain ⟨rfl, hgrows, hpage⟩ := grows_put hput
  intro other hpos hlt
  by_cases heq : other = f.pageCount
  · subst heq
    exact ⟨n, List.lookup_cons_self, hpage⟩
  · have hother : other.toNat ≠ f.pageCount.toNat := fun h => heq (UInt64.toNat_inj.mp h)
    have hlt' := UInt64.lt_iff_toNat_lt.mp hlt
    have hcount := hgrows.count_eq
    have hold : other.toNat < f.pageCount.toNat := by omega
    obtain ⟨found, hfound, hold'⟩ := h other hpos (UInt64.lt_iff_toNat_lt.mpr hold)
    refine ⟨found, ?_, (hgrows.page_eq _ hold).trans hold'⟩
    rw [Journal.noted, List.lookup_cons, beq_false_of_ne heq]
    exact hfound

/-- Writing the superblock changes none of these pages. -/
theorem writeSuperblock (h : f.Holds j) (hwrite : f.writeSuperblock = .ok f') :
    f'.Holds (j.written f') := by
  obtain rfl := writeSuperblock_eq_ok hwrite
  intro id hpos hlt
  obtain ⟨n, hn, hpage⟩ := h id hpos hlt
  have hne : 0 ≠ id.toNat := Nat.ne_of_lt (UInt64.lt_iff_toNat_lt.mp hpos)
  refine ⟨n, hn, ?_⟩
  rw [File.page_writePage, if_neg hne, hpage]

theorem commitRoot {root : PageId} (h : f.Holds j) (hcommit : f.commitRoot root = (.ok (), f')) :
    f'.Holds (j.written f') := by
  have hchanged : Holds { f with superblock := { f.superblock with root := root } } j := h
  exact hchanged.writeSuperblock (writeSuperblock_of_commitRoot hcommit)

/-- Fewer pages are counted when the file is opened again. -/
theorem reopen (h : f.Holds j) (hfollows : f.Follows j) : Holds ⟨f.file, f.stored j, true⟩ j :=
  fun id hpos hlt => h id hpos (UInt64.lt_of_lt_of_le hlt hfollows.count_le)

end Holds

theorem not_mem_of_cons {step : Step} {steps : List Step}
    (h : ∀ count, Step.allocate count ∉ step :: steps) : ∀ count, Step.allocate count ∉ steps :=
  fun count hmem => h count (List.mem_cons_of_mem _ hmem)

/-- If pages come only with nodes, each page holds the node that was last put there. -/
theorem Run.holds {path : String} {steps : List Step} {j : Journal} (h : Run path steps j f)
    (hsteps : ∀ count, Step.allocate count ∉ steps) : f.Holds j := by
  induction h with
  | create hcreate => exact Holds.create hcreate
  | allocate => exact absurd (List.mem_cons_self ..) (hsteps _)
  | put _ hput ih => exact (ih (not_mem_of_cons hsteps)).put hput
  | commitRoot _ hcommit ih => exact (ih (not_mem_of_cons hsteps)).commitRoot hcommit
  | writeSuperblock _ hwrite ih => exact (ih (not_mem_of_cons hsteps)).writeSuperblock hwrite
  | reopen before hload ih =>
    obtain ⟨rfl, -⟩ := before.follows.reopen hload
    exact (ih (not_mem_of_cons hsteps)).reopen before.follows

/-! ## What is opened is what was written -/

/-- A draft with one cell, of one byte as key and one as value. -/
def draftOf (kind : NodeKind) (key : UInt8) : NodeDraft where
  kind := kind
  cells := #[⟨[key], [0]⟩]
  used := Node.slotsStart + NodeDraft.cellSize 1 1

theorem push_draftOf (kind : NodeKind) (key : UInt8) :
    NodeDraft.push { kind := kind } ⟨[key], [0]⟩ = .ok (draftOf kind key) := rfl

theorem sound_draftOf_leaf (key : UInt8) : (draftOf .leaf key).Sound :=
  (NodeDraft.sound_empty .leaf).push (push_draftOf .leaf key) fun h => by contradiction

/-- What is opened is what was written: the file is refused if its root was not counted when the
superblock was written last, and otherwise has this root and this number of pages. Each of them but
the first holds the node that was last put under its id. It is found there if its page is accepted
as this node and carries its checksum, and only then; so the nodes of drafts are found. -/
theorem Run.load_committed {path : String} {steps : List Step} {j : Journal}
    (h : Run path steps j f) (hsteps : ∀ count, Step.allocate count ∉ steps) :
    (j.count ≤ j.root →
      load (some f.file) = .error (.superblock (.invalidRoot j.root j.count))) ∧
    (j.root < j.count →
      ∃ opened, load (some f.file) = .ok opened ∧ opened.root = j.root ∧
        opened.pageCount = j.count ∧
        (∀ id, j.count ≤ id → opened.fetch id = .error (.pageOutOfBounds id j.count)) ∧
        ∀ id, 0 < id → id < j.count →
          ∃ n, j.puts.lookup id = some n ∧ opened.readPage id = .ok n.page ∧
            (opened.fetch id = .ok n ↔ n.Intact) ∧
            ∀ d : NodeDraft, d.Sound → n = d.finish → opened.fetch id = .ok n) := by
  have hfollows := h.follows
  constructor
  · intro hroot
    rw [hfollows.load_eq, if_pos hroot]
  · intro hroot
    have hload : load (some f.file) = .ok ⟨f.file, f.stored j, true⟩ := by
      rw [hfollows.load_eq, if_neg (UInt64.not_le.mpr hroot)]
    refine ⟨_, hload, rfl, rfl, fun id hid => ?_, fun id hpos hlt => ?_⟩
    · have hne : id ≠ 0 := by
        rintro rfl
        exact UInt64.lt_irrefl _ (UInt64.lt_of_lt_of_le hfollows.count_pos hid)
      exact fetch_of_count_le (f := ⟨f.file, f.stored j, true⟩) hne hid
    · have hopened := (hfollows.reopen hload).2
      obtain ⟨n, hn, hpage⟩ := (h.holds hsteps).reopen hfollows id hpos hlt
      have hread := hopened.readPage_eq hlt
      rw [hpage] at hread
      have hne : id ≠ 0 := (UInt64.ne_of_lt hpos).symm
      have hfetch (hintact : n.Intact) := fetch_of_intact hintact hne hread
      refine ⟨n, hn, hread, ⟨intact_of_fetch rfl hread, hfetch⟩, fun d hd hfinish => hfetch ?_⟩
      rw [hfinish]
      exact hd.intact

/-- The second of these leaves is not committed, and its id goes to the third. A root that no page
has is committed, and the file refused. -/
theorem load_committed_reused :
    (∃ f, Run "a" [.commitRoot 5] ⟨5, 1, []⟩ f ∧
      load (some f.file) = .error (.superblock (.invalidRoot 5 1))) ∧
    ∃ f, Run "a" [.commitRoot 2, .put (draftOf .leaf 3).finish, .reopen,
        .put (draftOf .leaf 2).finish, .commitRoot 1, .put (draftOf .leaf 1).finish]
        ⟨2, 3, [(2, (draftOf .leaf 3).finish), (2, (draftOf .leaf 2).finish),
          (1, (draftOf .leaf 1).finish)]⟩ f ∧
      ∃ opened, load (some f.file) = .ok opened ∧ opened.root = 2 ∧ opened.pageCount = 3 ∧
        opened.fetch 2 = .ok (draftOf .leaf 3).finish := by
  obtain ⟨f₀, h₀, hcount₀⟩ := Run.exists_create "a"
  obtain ⟨f, h, -⟩ := h₀.exists_commitRoot hcount₀ 5
  refine ⟨⟨f, h, (h.load_committed (by simp)).1 (show (1 : PageId) ≤ 5 by decide)⟩, ?_⟩
  obtain ⟨f₁, h₁, hcount₁⟩ := h₀.exists_put hcount₀ (by decide) (draftOf .leaf 1).finish
  obtain ⟨f₂, h₂, hcount₂⟩ := h₁.exists_commitRoot hcount₁ 1
  obtain ⟨f₃, h₃, -⟩ := h₂.exists_put hcount₂ (by decide) (draftOf .leaf 2).finish
  obtain ⟨f₄, h₄, -, -, hcount₄⟩ := h₃.exists_reopen (show (1 : PageId) < 2 by decide)
  obtain ⟨f₅, h₅, hcount₅⟩ := h₄.exists_put hcount₄ (by decide) (draftOf .leaf 3).finish
  obtain ⟨f₆, h₆, -⟩ := h₅.exists_commitRoot hcount₅ 2
  obtain ⟨opened, hload, hroot, hcount, -, hnodes⟩ :=
    (h₆.load_committed (by simp)).2 (show (2 : PageId) < 3 by decide)
  obtain ⟨n, hn, -, -, hdraft⟩ := hnodes 2 (by decide) (show (2 : PageId) < 3 by decide)
  obtain rfl : (draftOf .leaf 3).finish = n := Option.some.inj hn
  exact ⟨f₆, h₆, opened, hload, hroot, hcount, hdraft _ (sound_draftOf_leaf 3) rfl⟩

/-- An internal node whose value is no page id can be built and put, but is not found again: its
page is not accepted. -/
theorem fetch_misfit :
    ∃ d f opened, NodeDraft.push { kind := .internal } ⟨[0x61], [0]⟩ = .ok d ∧
      Run "a" [.commitRoot 1, .put d.finish] ⟨1, 2, [(1, d.finish)]⟩ f ∧
      load (some f.file) = .ok opened ∧ opened.root = 1 ∧ opened.pageCount = 2 ∧
      opened.fetch 1 = .error (.node 1 (.corruptCell 0)) := by
  have hmisfit : Node.ofPage (draftOf .internal 0x61).finish.page = .error (.corruptCell 0) :=
    eq_error_of_errorOf (by decide +kernel)
  obtain ⟨f₀, h₀, hcount₀⟩ := Run.exists_create "a"
  obtain ⟨f₁, h₁, hcount₁⟩ := h₀.exists_put hcount₀ (by decide) (draftOf .internal 0x61).finish
  obtain ⟨f₂, h₂, hcount₂⟩ := h₁.exists_commitRoot hcount₁ 1
  obtain ⟨f₃, h₃, hload, hroot₃, hcount₃⟩ := h₂.exists_reopen (show (1 : PageId) < 2 by decide)
  -- the page is there, with its checksum
  have hlt : (1 : PageId) < f₃.pageCount := hcount₃ ▸ (by decide : (1 : PageId) < 1 + 1)
  obtain ⟨n, hn, hpage⟩ := h₃.holds (by simp) 1 (by decide) hlt
  obtain rfl : (draftOf .internal 0x61).finish = n := Option.some.inj hn
  have hread := h₃.follows.readPage_eq hlt
  rw [hpage] at hread
  have hsum : (draftOf .internal 0x61).finish.page.storedChecksum =
      (draftOf .internal 0x61).finish.page.checksum := Page.storedChecksum_sealed _
  refine ⟨_, f₂, f₃, push_draftOf .internal 0x61, h₂, hload, hroot₃, hcount₃, ?_⟩
  rw [fetch, if_neg (by decide), hread]
  simp only [hmisfit]
  exact if_neg fun hboth => hboth.2 hsum

end PageFile

end RangeStore
