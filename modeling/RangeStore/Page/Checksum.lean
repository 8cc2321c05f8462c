import RangeStore.Bytes
set_option autoImplicit false

/-! # The checksum CRC-32

The cyclic redundancy check with the reflected polynomial of IEEE 802.3, one bit at a time: the
register starts with all bits set, takes in each byte from its least significant bit on, and is
inverted at the end. -/

namespace RangeStore.Checksum

/-- The polynomial, its coefficients from the least significant bit on. -/
def polynomial : UInt32 := 0xEDB88320

/-- Takes one bit out of the register. -/
def shift (register : UInt32) : UInt32 :=
  if register &&& 1 = 1 then (register >>> 1) ^^^ polynomial else register >>> 1

/-- Takes one byte into the register. -/
def step (register : UInt32) (byte : UInt8) : UInt32 :=
  shift (shift (shift (shift (shift (shift (shift (shift (register ^^^ byte.toUInt32))))))))

/-- The register after some bytes. -/
def run (register : UInt32) (bytes : Bytes) : UInt32 := bytes.foldl step register

def crc32 (bytes : Bytes) : UInt32 := run 0xFFFFFFFF bytes ^^^ 0xFFFFFFFF

theorem run_append (register : UInt32) (a b : Bytes) :
    run register (a ++ b) = run (run register a) b := by
  simp [run, List.foldl_append]

/-- The check value of the standard: the checksum of the digits 1 to 9. -/
example :
    crc32 [0x31, 0x32, 0x33, 0x34, 0x35, 0x36, 0x37, 0x38, 0x39] = 0xCBF43926 := by
  decide +kernel

end RangeStore.Checksum
