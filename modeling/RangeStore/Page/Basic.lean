import RangeStore.Page.Checksum
import RangeStore.Text.Hex
set_option autoImplicit false

/-! # Pages

A page is 8192 bytes. The page of a node begins with a header of eight:

    0      kind of the node
    1      zero
    2..6   CRC-32 of the page with these four bytes zero, least significant byte first
    6..8   zero

Page 0 of a file is the superblock, which has a layout and a checksum of its own.

Reading or writing past the end of a page is refused (`none`). -/

namespace RangeStore

/-- The number under which a page is found. Page 0 is never a node, so 0 also stands for
"no page". -/
abbrev PageId := UInt64

def pageSize : Nat := 8192

inductive NodeKind where
  | internal
  | leaf
deriving DecidableEq, Inhabited

namespace NodeKind

/-- The first byte of a node's page. -/
def tag : NodeKind → UInt8
  | internal => 3
  | leaf => 4

/-- The kind that the first byte of a page names. -/
def ofTag? (b : UInt8) : Option NodeKind :=
  if b = 3 then some internal else if b = 4 then some leaf else none

@[simp] theorem ofTag?_tag (k : NodeKind) : ofTag? k.tag = some k := by
  cases k <;> rfl

def name : NodeKind → String
  | internal => "Internal"
  | leaf => "Leaf"

end NodeKind

/-- What is wrong with a page as the page of a node. -/
inductive PageError where
  | invalidKind (tag : UInt8)
  | checksumMismatch (expected actual : UInt32)
deriving DecidableEq

namespace PageError

def message : PageError → String
  | invalidKind tag => "invalid page type: 0x" ++ Text.hexByte tag
  | checksumMismatch expected actual =>
    "checksum mismatch: expected " ++ Text.hexWord expected ++ ", got " ++ Text.hexWord actual

end PageError

/-- A page: as many bytes as its size says. -/
structure Page where
  bytes : Vector UInt8 pageSize
deriving DecidableEq

namespace Page

def toList (p : Page) : Bytes := p.bytes.toList

@[simp] theorem length_toList (p : Page) : p.toList.length = pageSize := by
  simp [toList]

theorem ext_toList {p q : Page} (h : p.toList = q.toList) : p = q := by
  cases p
  cases q
  simp only [toList] at h
  rw [Vector.toList_inj.mp h]

/-- The page that begins with the given bytes; zeros follow, and what does not fit is cut off. -/
def ofList (bytes : Bytes) : Page :=
  ⟨⟨((bytes ++ List.replicate pageSize 0).take pageSize).toArray, by simp⟩⟩

theorem toList_ofList (bytes : Bytes) :
    (ofList bytes).toList = (bytes ++ List.replicate pageSize 0).take pageSize := by
  simp [ofList, toList, Vector.toList]

@[simp] theorem ofList_toList (p : Page) : ofList p.toList = p := by
  apply ext_toList
  rw [toList_ofList]
  exact List.take_left' p.length_toList

def zero : Page := ofList []

/-! ## Reading and writing -/

/-- The bytes from `offset` on, `count` of them as far as the page goes. -/
def slice (p : Page) (offset count : Nat) : Bytes :=
  (p.bytes.toArray.extract offset (offset + count)).toList

theorem slice_eq (p : Page) (offset count : Nat) :
    p.slice offset count = (p.toList.drop offset).take count := by
  simp [slice, toList, Vector.toList, List.extract_eq_take_drop]

/-- `count` bytes from `offset` on, if the page has them all. -/
def read? (p : Page) (offset count : Nat) : Option Bytes :=
  if offset + count ≤ pageSize then some (p.slice offset count) else none

/-- The number written in `width` bytes at `offset`, least significant first. -/
def word (p : Page) (offset width : Nat) : Nat := Bytes.ofLittle (p.slice offset width)

/-- The number in `width` bytes at `offset`, if the page has them all. -/
def readWord? (p : Page) (offset width : Nat) : Option Nat :=
  (p.read? offset width).map Bytes.ofLittle

/-- The page with the bytes from `offset` on replaced by the given ones. -/
def splice (p : Page) (offset : Nat) (bytes : Bytes) : Page :=
  ofList (p.toList.take offset ++ bytes ++ p.toList.drop (offset + bytes.length))

/-- The page with bytes written at `offset`, if it has room for them all there. -/
def write? (p : Page) (offset : Nat) (bytes : Bytes) : Option Page :=
  if offset + bytes.length ≤ pageSize then some (p.splice offset bytes) else none

theorem toList_splice (p : Page) (offset : Nat) (bytes : Bytes)
    (h : offset + bytes.length ≤ pageSize) :
    (p.splice offset bytes).toList =
      p.toList.take offset ++ bytes ++ p.toList.drop (offset + bytes.length) := by
  rw [splice, toList_ofList]
  apply List.take_left'
  simp only [List.length_append, List.length_take, List.length_drop, length_toList]
  omega

/-! ## The header of a node's page -/

/-- The checksum that the page should carry: that of its bytes with the checksum's own place
zero. -/
def checksum (p : Page) : UInt32 :=
  Checksum.crc32 (p.toList.take 2 ++ [0, 0, 0, 0] ++ p.toList.drop 6)

/-- The checksum that the page carries. -/
def storedChecksum (p : Page) : UInt32 := UInt32.ofNat (p.word 2 4)

/-- The page with a checksum stored. -/
def withChecksum (p : Page) (sum : UInt32) : Page := p.splice 2 (Bytes.little 4 sum.toNat)

/-- The page with its own checksum stored. -/
def sealed (p : Page) : Page := p.withChecksum p.checksum

/-- Whether the page carries its own checksum. -/
def verify (p : Page) : Except PageError Unit :=
  if p.storedChecksum = p.checksum then .ok ()
  else .error (.checksumMismatch p.storedChecksum p.checksum)

def header (kind : NodeKind) (sum : UInt32) : Bytes :=
  [kind.tag, 0] ++ Bytes.little 4 sum.toNat ++ [0, 0]

def withHeader (p : Page) (kind : NodeKind) (sum : UInt32) : Page :=
  p.splice 0 (header kind sum)

/-- The kind of node that the page's first byte names. -/
def kind (p : Page) : Except PageError NodeKind :=
  match NodeKind.ofTag? p.bytes[0] with
  | some k => .ok k
  | none => .error (.invalidKind p.bytes[0])

def described (p : Page) : String :=
  s!"Page \x7b type: {p.bytes[0].toNat}, checksum: {p.storedChecksum.toNat}, .. \x7d"

end Page

end RangeStore
