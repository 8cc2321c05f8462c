import RangeStore.Storage.File
set_option autoImplicit false

/-! # Patches

Changes to a file from outside: what damages it, and what repairs it. A byte string is changed as
the content of a file is. -/

namespace RangeStore

/-- One change to a file. -/
inductive Patch where
  /-- Puts bytes in the place of those at an offset. -/
  | overwrite (offset : Nat) (bytes : Bytes)
  /-- Flips the bits of one byte that are set in a mask. -/
  | flip (offset : Nat) (mask : UInt8)
  | keep (count : Nat)
  | append (bytes : Bytes)
  /-- Stores the checksum of a node's page on it, page by page number. -/
  | sealPage (number : Nat)
  /-- Puts a superblock in the place of the first page. -/
  | setSuperblock (s : Superblock)
deriving DecidableEq

namespace Patch

def apply (f : File) : Patch → File
  | overwrite offset bytes => f.write offset bytes
  | flip offset mask => f.write offset ((f.slice offset 1).map (· ^^^ mask))
  | keep count => f.keep count
  | append bytes => f.write f.size bytes
  | sealPage number => f.writePage number (f.page number).sealed
  | setSuperblock s => f.writePage 0 s.toPage

end Patch

/-- The file after some changes, one after the other. -/
def File.patched (f : File) (patches : List Patch) : File := patches.foldl Patch.apply f

/-- The bytes after some changes, one after the other. -/
def Bytes.patched (bytes : Bytes) (patches : List Patch) : Bytes :=
  if patches.isEmpty then bytes else ((File.ofList bytes).patched patches).toList

end RangeStore
