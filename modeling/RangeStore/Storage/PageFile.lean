import RangeStore.Storage.File
set_option autoImplicit false

/-! # Page files

A file of pages: page 0 is the superblock, every other page a node. The superblock is read when
the file is opened and then kept beside it; it is written only when a root is committed, and so
what was put after the last commit is forgotten when the file is opened again. -/

namespace RangeStore

structure PageFile where
  file : File
  /-- The superblock as it would be written now. -/
  superblock : Superblock
  /-- Whether a node is refused if its page does not carry its checksum. -/
  verify : Bool

namespace PageFile

/-! ## Opening -/

/-- Makes a file at a path where none is. -/
def create (path : String) (found : Option File) : Except StoreError PageFile :=
  match found with
  | some _ => .error (.alreadyExists path)
  | none =>
    let superblock : Superblock := {}
    .ok ⟨File.empty.writePage 0 superblock.toPage, superblock, true⟩

/-- Opens the file that is found at a path. -/
def load (found : Option File) : Except StoreError PageFile :=
  match found with
  | none => .error (.file .notFound)
  | some file =>
    match file.readPage 0 with
    | .error e => .error (.file e)
    | .ok page =>
      match Superblock.ofPage page with
      | .error e => .error (.superblock e)
      | .ok superblock => .ok ⟨file, superblock, true⟩

/-! ## Pages -/

/-- The committed root, or 0. -/
def root (f : PageFile) : PageId := f.superblock.root

/-- The number of pages, the superblock included. -/
def pageCount (f : PageFile) : UInt64 := f.superblock.pageCount

/-- The number of a page that can be read and written. Positions in a file are 64-bit numbers, and
those with the highest bit set are no positions of a file. -/
def pageNumber (f : PageFile) (id : PageId) : Except StoreError Nat :=
  if f.pageCount ≤ id then .error (.pageOutOfBounds id f.pageCount)
  else if UInt64.size ≤ id.toNat * pageSize then .error .outOfRange
  else if File.positionLimit ≤ id.toNat * pageSize then .error (.file .invalidPosition)
  else .ok id.toNat

def readPage (f : PageFile) (id : PageId) : Except StoreError Page :=
  match f.pageNumber id with
  | .error e => .error e
  | .ok number =>
    match f.file.readPage number with
    | .error e => .error (.file e)
    | .ok page => .ok page

def writePage (f : PageFile) (id : PageId) (page : Page) : Except StoreError PageFile :=
  match f.pageNumber id with
  | .error e => .error e
  | .ok number => .ok { f with file := f.file.writePage number page }

/-- Adds pages at the end and gives the id of the first. The file gets exactly the length of the
new number of pages, whatever it was before. -/
def allocate (f : PageFile) (count : UInt64) : Except StoreError (PageId × PageFile) :=
  let total := f.pageCount.toNat + count.toNat
  if UInt64.size ≤ total ∨ UInt64.size ≤ total * pageSize then .error .outOfRange
  else if File.positionLimit ≤ total * pageSize then .error (.file .invalidLength)
  else
    .ok (f.pageCount,
      { f with
        file := f.file.resize (total * pageSize)
        superblock := { f.superblock with pageCount := UInt64.ofNat total } })

def writeSuperblock (f : PageFile) : Except StoreError PageFile :=
  f.writePage 0 f.superblock.toPage

/-! ## Nodes -/

def fetch (f : PageFile) (id : PageId) : Except StoreError Node :=
  if id = 0 then .error (.pageNotFound id)
  else
    match f.readPage id with
    | .error e => .error e
    | .ok page =>
      if f.verify ∧ page.storedChecksum ≠ page.checksum then
        .error (.checksumMismatch id page.storedChecksum page.checksum)
      else
        match Node.ofPage page with
        | .error e => .error (.node id e)
        | .ok n => .ok n

/-- Writes a node on a new page. -/
def put (f : PageFile) (n : Node) : Except StoreError PageId × PageFile :=
  match f.allocate 1 with
  | .error e => (.error e, f)
  | .ok (id, grown) =>
    match grown.writePage id n.page with
    | .error e => (.error e, grown)
    | .ok written => (.ok id, written)

/-- Makes a page the root and writes the superblock. -/
def commitRoot (f : PageFile) (root : PageId) : Except StoreError Unit × PageFile :=
  let changed := { f with superblock := { f.superblock with root := root } }
  match changed.writeSuperblock with
  | .error e => (.error e, changed)
  | .ok written => (.ok (), written)

theorem eq_of_pageNumber {f : PageFile} {id : PageId} {number : Nat}
    (h : f.pageNumber id = .ok number) : number = id.toNat := by
  simp only [pageNumber] at h
  split at h
  · contradiction
  · split at h
    · contradiction
    · split at h
      · contradiction
      · simp only [Except.ok.injEq] at h
        exact h.symm

theorem page_of_readPage {f : PageFile} {id : PageId} {page : Page}
    (h : f.readPage id = .ok page) : page = f.file.page id.toNat := by
  simp only [readPage] at h
  split at h
  · contradiction
  · next number hnumber =>
    split at h
    · contradiction
    · next found hfound =>
      simp only [Except.ok.injEq] at h
      rw [← h, File.page_of_readPage hfound, eq_of_pageNumber hnumber]

theorem fetch_eq_ok {f : PageFile} {id : PageId} {n : Node} (h : f.fetch id = .ok n) :
    ∃ page, f.readPage id = .ok page ∧ Node.ofPage page = .ok n := by
  simp only [fetch] at h
  split at h
  · contradiction
  · split at h
    · contradiction
    · next page hpage =>
      split at h
      · contradiction
      · split at h
        · contradiction
        · next found hfound =>
          simp only [Except.ok.injEq] at h
          exact ⟨page, hpage, h ▸ hfound⟩

/-- The ids of the pages that have been written. -/
def ids (f : PageFile) : List PageId := f.file.written.keys.map UInt64.ofNat

/-- A page that has not been written is no node. -/
theorem mem_ids_of_fetch {f : PageFile} {id : PageId} {n : Node} (h : f.fetch id = .ok n) :
    id ∈ f.ids := by
  obtain ⟨page, hpage, hnode⟩ := fetch_eq_ok h
  refine List.mem_map.mpr ⟨id.toNat, Std.TreeMap.mem_keys.mpr ?_, UInt64.ofNat_toNat⟩
  rw [Std.TreeMap.mem_iff_isSome_getElem?]
  cases hwritten : f.file.written[id.toNat]? with
  | some _ => rfl
  | none =>
    rw [page_of_readPage hpage, File.page, hwritten, Option.getD_none, Node.ofPage_zero] at hnode
    contradiction

theorem size_le_of_fetch {f : PageFile} {id : PageId} {n : Node} (h : f.fetch id = .ok n) :
    n.size ≤ Node.maxCells := by
  obtain ⟨page, _, hnode⟩ := fetch_eq_ok h
  exact Node.size_ofPage_le hnode

def source (f : PageFile) : NodeSource where
  fetch := f.fetch
  extent := f.file.written.size
  capacity := Node.maxCells
  exists_ids := ⟨f.ids, by simp [ids], mem_ids_of_fetch⟩
  size_le_capacity := size_le_of_fetch

instance : Storage PageFile where
  source := source
  put := put
  commitRoot := commitRoot

def described (f : PageFile) : String :=
  "PageFile \x7b superblock: " ++ f.superblock.described ++
    s!", verify_checksums: {f.verify}, .. \x7d"

end PageFile

end RangeStore
