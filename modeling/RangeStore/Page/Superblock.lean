import RangeStore.Page.Basic
import RangeStore.Text.Quoted
import RangeStore.Text.Utf8
set_option autoImplicit false

/-! # The superblock

The first page of a file:

    0..8    the letters of the file type
    8..12   version of the format
    12..16  size of a page
    16..24  number of pages, this one included
    24..32  root page, 0 when there is no tree
    32..36  CRC-32 of bytes 0..32

Numbers have their least significant byte first. The rest of the page is zero. -/

namespace RangeStore

/-- The content of a file's first page. -/
structure Superblock where
  version : UInt32 := 1
  pageSize : UInt32 := 8192
  /-- The number of pages, the superblock included. -/
  pageCount : UInt64 := 1
  /-- The root page, or 0. -/
  root : PageId := 0
deriving DecidableEq, Inhabited

inductive SuperblockError where
  | invalidMagic (found : Bytes)
  | unsupportedVersion (version : UInt32)
  | invalidPageSize (size : UInt32)
  | checksumMismatch (expected actual : UInt32)
  /-- The root lies behind the last page. -/
  | invalidRoot (root : PageId) (pageCount : UInt64)
deriving DecidableEq

namespace SuperblockError

def message : SuperblockError → String
  | invalidMagic found => "invalid magic number: " ++ Text.quote (Text.legible found)
  | unsupportedVersion v => s!"unsupported format version: {v.toNat}"
  | invalidPageSize s => s!"invalid page size: {s.toNat}"
  | checksumMismatch expected actual =>
    s!"checksum mismatch: expected {expected.toNat}, got {actual.toNat}"
  | invalidRoot root pageCount =>
    s!"root page {root.toNat} out of bounds (total pages: {pageCount.toNat})"

end SuperblockError

namespace Superblock

/-- The letters that begin every file: `ATOMIXDB`. -/
def magic : Bytes := [0x41, 0x54, 0x4F, 0x4D, 0x49, 0x58, 0x44, 0x42]

/-- The bytes that the checksum covers. -/
def body (s : Superblock) : Bytes :=
  magic ++ Bytes.little 4 s.version.toNat ++ Bytes.little 4 s.pageSize.toNat ++
    Bytes.little 8 s.pageCount.toNat ++ Bytes.little 8 s.root.toNat

def toPage (s : Superblock) : Page :=
  Page.ofList (s.body ++ Bytes.little 4 (Checksum.crc32 s.body).toNat)

/-- Reads a superblock. The checks are, in order: the letters, the checksum, the version, the
page size and the root. -/
def ofPage (p : Page) : Except SuperblockError Superblock :=
  let found := p.slice 0 8
  let expected := UInt32.ofNat (p.word 32 4)
  let actual := Checksum.crc32 (p.slice 0 32)
  let s : Superblock :=
    { version := UInt32.ofNat (p.word 8 4)
      pageSize := UInt32.ofNat (p.word 12 4)
      pageCount := UInt64.ofNat (p.word 16 8)
      root := UInt64.ofNat (p.word 24 8) }
  if found ≠ magic then .error (.invalidMagic found)
  else if expected ≠ actual then .error (.checksumMismatch expected actual)
  else if s.version ≠ 1 then .error (.unsupportedVersion s.version)
  else if s.pageSize ≠ 8192 then .error (.invalidPageSize s.pageSize)
  else if s.pageCount ≤ s.root then .error (.invalidRoot s.root s.pageCount)
  else .ok s

def described (s : Superblock) : String :=
  s!"Superblock \x7b format_version: {s.version.toNat}, page_size: {s.pageSize.toNat}, " ++
    s!"total_page_count: {s.pageCount.toNat}, root_page: {s.root.toNat} \x7d"

end Superblock

end RangeStore
