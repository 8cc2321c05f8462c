import RangeStore.Storage.Source
import Std.Data.TreeMap
set_option autoImplicit false

/-! # Files

A file has as many bytes as its size says. Only the pages that have been written are kept; the
rest of the file is zeros, however large it is. So writing far behind the end fills the gap with
zeros, and so does making the file longer. -/

namespace RangeStore

/-- A file: its size in bytes, and what has been written to it. -/
structure File where
  size : Nat := 0
  /-- Pages by number. Where a page reaches behind the end of the file, it holds zeros. -/
  written : Std.TreeMap Nat Page := {}

namespace File

def empty : File := {}

/-- The first number that is no position and no length of any file, however large: 2^63. -/
def positionLimit : Nat := 0x8000000000000000

/-- The bytes of the file at a page number, filled up with zeros. -/
def page (f : File) (number : Nat) : Page := f.written[number]?.getD .zero

/-! ## Whole pages -/

/-- The page with a number, if the file has all of it. -/
def readPage (f : File) (number : Nat) : Except FileError Page :=
  if (number + 1) * pageSize ≤ f.size then .ok (f.page number) else .error .unexpectedEnd

def writePage (f : File) (number : Nat) (p : Page) : File :=
  ⟨Nat.max f.size ((number + 1) * pageSize), f.written.insert number p⟩

/-- What a page keeps of its bytes when the file ends at `length`. -/
def cutPage (length number : Nat) (p : Page) : Option Page :=
  if (number + 1) * pageSize ≤ length then some p
  else if number * pageSize < length then
    some (Page.ofList (p.toList.take (length - number * pageSize)))
  else none

/-- The first bytes of the file, `length` of them as far as it goes. -/
def keep (f : File) (length : Nat) : File :=
  if f.size ≤ length then f else ⟨length, f.written.filterMap (cutPage length)⟩

/-- The file with another length. -/
def resize (f : File) (length : Nat) : File := { f.keep length with size := length }

/-! ## Bytes -/

/-- The byte at a position, or zero behind the end. -/
def byte (f : File) (position : Nat) : UInt8 :=
  (f.page (position / pageSize)).bytes.get ⟨position % pageSize, Nat.mod_lt _ (by decide)⟩

/-- The bytes from a position on, `count` of them as far as the file goes. -/
def slice (f : File) (position count : Nat) : Bytes :=
  (List.range (Nat.min count (f.size - position))).map fun i => f.byte (position + i)

def toList (f : File) : Bytes := f.slice 0 f.size

/-- Pages with bytes put in place from the byte `start` of a page on, one page after the other. -/
def splicePages (pages : Std.TreeMap Nat Page) (number start : Nat) :
    Bytes → Std.TreeMap Nat Page
  | [] => pages
  | first :: rest =>
    if _ : start < pageSize then
      let p := (pages[number]?.getD .zero).splice start ((first :: rest).take (pageSize - start))
      splicePages (pages.insert number p) (number + 1) 0 ((first :: rest).drop (pageSize - start))
    else pages
termination_by bytes => bytes.length
decreasing_by
  rw [List.length_drop, List.length_cons]
  omega

/-- The file with bytes put in place from a position on. -/
def write (f : File) (position : Nat) (bytes : Bytes) : File :=
  if bytes.isEmpty then f
  else ⟨Nat.max f.size (position + bytes.length),
    splicePages f.written (position / pageSize) (position % pageSize) bytes⟩

def ofList (bytes : Bytes) : File := empty.write 0 bytes

/-! ## What the operations do -/

@[simp] theorem length_toList (f : File) : f.toList.length = f.size := by
  simp [toList, slice]

theorem size_of_readPage {f : File} {number : Nat} {p : Page}
    (h : f.readPage number = .ok p) : (number + 1) * pageSize ≤ f.size := by
  simp only [readPage] at h
  split at h
  · assumption
  · contradiction

theorem page_of_readPage {f : File} {number : Nat} {p : Page}
    (h : f.readPage number = .ok p) : p = f.page number := by
  simp only [readPage] at h
  split at h
  · simp only [Except.ok.injEq] at h
    exact h.symm
  · contradiction

@[simp] theorem size_writePage (f : File) (number : Nat) (p : Page) :
    (f.writePage number p).size = Nat.max f.size ((number + 1) * pageSize) := rfl

theorem page_writePage (f : File) (number other : Nat) (p : Page) :
    (f.writePage number p).page other = if number = other then p else f.page other := by
  simp only [page, writePage, Std.TreeMap.getElem?_insert, Nat.compare_eq_eq]
  split <;> rfl

/-- A page that has just been written can be read. -/
theorem readPage_writePage (f : File) (number : Nat) (p : Page) :
    (f.writePage number p).readPage number = .ok p := by
  rw [readPage, page_writePage, if_pos rfl]
  exact if_pos (Nat.le_max_right _ _)

/-- A file that ends behind a page keeps that page. -/
theorem page_keep (f : File) {length number : Nat} (h : (number + 1) * pageSize ≤ length) :
    (f.keep length).page number = f.page number := by
  simp only [keep]
  split
  · rfl
  · simp only [page, Std.TreeMap.getElem?_filterMap']
    cases f.written[number]? with
    | none => rfl
    | some p => simp [cutPage, h]

@[simp] theorem size_resize (f : File) (length : Nat) : (f.resize length).size = length := rfl

theorem page_resize (f : File) {length number : Nat} (h : (number + 1) * pageSize ≤ length) :
    (f.resize length).page number = f.page number :=
  page_keep f h

theorem page_empty (number : Nat) : empty.page number = .zero := by
  simp [page, empty]

end File

end RangeStore
