import Mathlib.Data.Nat.Bitwise
import Mathlib.Logic.Function.Iterate
import RangeStore.Page.Checksum
set_option autoImplicit false

/-! # What the checksum tells apart

Taking a bit out of the register is linear in exclusive or (`Checksum.shift_xor`), and no two
registers become the same by it (`Checksum.shift_injective`). Up to four bytes are taken in at once:
they are added to the register as one number, and then the register is shifted as often as they have
bits (`Checksum.run_eq_shift`). So two strings that differ in up to four consecutive bytes, and
nowhere else, have different checksums (`Checksum.crc32_ne`). A string is followed by its own
checksum exactly if the checksum of the two together is a constant
(`Checksum.crc32_append_eq_residue_iff`). -/

namespace RangeStore.Checksum

open Function (Injective)

/-! ## One bit -/

theorem and_one_eq_one_iff (r : UInt32) : r &&& 1 = 1 ↔ r.toNat % 2 = 1 := by
  rw [← UInt32.toNat_inj, UInt32.toNat_and]
  show r.toNat &&& 1 = 1 ↔ _
  rw [Nat.and_one_is_mod]

/-- The polynomial is added if the bit that is taken out is set. -/
theorem shift_eq (r : UInt32) :
    shift r = (r >>> 1) ^^^ (if r.toNat % 2 = 1 then polynomial else 0) := by
  unfold shift
  by_cases h : r.toNat % 2 = 1
  · rw [if_pos ((and_one_eq_one_iff r).mpr h), if_pos h]
  · rw [if_neg fun hone => h ((and_one_eq_one_iff r).mp hone), if_neg h, UInt32.xor_zero]

theorem shift_xor (a b : UInt32) : shift (a ^^^ b) = shift a ^^^ shift b := by
  have hlow : (a ^^^ b).toNat % 2 = (a.toNat + b.toNat) % 2 := by
    rw [UInt32.toNat_xor, Nat.xor_mod_two_eq]
  have hboth : (if (a ^^^ b).toNat % 2 = 1 then polynomial else 0) =
      (if a.toNat % 2 = 1 then polynomial else 0) ^^^
        (if b.toNat % 2 = 1 then polynomial else 0) := by
    -- the two low bits are added, and twice the polynomial is nothing
    rw [hlow]
    rcases Nat.mod_two_eq_zero_or_one a.toNat with ha | ha <;>
      rcases Nat.mod_two_eq_zero_or_one b.toNat with hb | hb <;>
      simp [Nat.add_mod, ha, hb]
  rw [shift_eq, shift_eq, shift_eq, hboth, UInt32.shiftRight_xor]
  ac_rfl

/-- The polynomial has its highest bit set, and a register that was shifted has not. -/
theorem eq_zero_of_shift_eq_zero {r : UInt32} (h : shift r = 0) : r = 0 := by
  have hlt : r.toNat < 4294967296 := r.toNat_lt
  have hhalf : (r >>> 1).toNat = r.toNat / 2 := by
    rw [UInt32.toNat_shiftRight]
    exact Nat.shiftRight_eq_div_pow r.toNat 1
  rw [shift_eq, UInt32.xor_eq_zero_iff] at h
  apply UInt32.toNat_inj.mp
  by_cases hodd : r.toNat % 2 = 1
  · rw [if_pos hodd] at h
    have hpolynomial : (r >>> 1).toNat = 3988292384 := by rw [h]; rfl
    omega
  · rw [if_neg hodd] at h
    have hzero : (r >>> 1).toNat = 0 := by rw [h]; rfl
    show r.toNat = 0
    omega

theorem shift_injective : Injective shift := by
  intro a b h
  apply UInt32.xor_eq_zero_iff.mp
  apply eq_zero_of_shift_eq_zero
  rw [shift_xor, h, UInt32.xor_self]

/-! ## Several bits -/

theorem iterate_shift_xor (n : Nat) (a b : UInt32) :
    shift^[n] (a ^^^ b) = shift^[n] a ^^^ shift^[n] b := by
  induction n generalizing a b with
  | zero => rfl
  | succ n ih =>
    rw [Function.iterate_succ_apply, Function.iterate_succ_apply, Function.iterate_succ_apply,
      shift_xor, ih]

/-- A register whose low bits are clear only moves down. -/
theorem iterate_shift_ofNat (k n : Nat) (h : 2 ^ k * n < UInt32.size) :
    shift^[k] (UInt32.ofNat (2 ^ k * n)) = UInt32.ofNat n := by
  induction k with
  | zero => simp
  | succ k ih =>
    have hdouble : 2 ^ (k + 1) * n = 2 * (2 ^ k * n) := by
      rw [Nat.pow_succ, Nat.mul_comm (2 ^ k) 2, Nat.mul_assoc]
    rw [hdouble] at h ⊢
    have hnat : (UInt32.ofNat (2 * (2 ^ k * n))).toNat = 2 * (2 ^ k * n) :=
      UInt32.toNat_ofNat_of_lt' h
    have hone : shift (UInt32.ofNat (2 * (2 ^ k * n))) = UInt32.ofNat (2 ^ k * n) := by
      rw [shift_eq, hnat, if_neg (by omega), UInt32.xor_zero]
      apply UInt32.toNat_inj.mp
      rw [UInt32.toNat_shiftRight, hnat, UInt32.toNat_ofNat_of_lt' (by omega)]
      show (2 * (2 ^ k * n)) >>> 1 = 2 ^ k * n
      rw [Nat.shiftRight_eq_div_pow]
      omega
    rw [Function.iterate_succ_apply, hone, ih (by omega)]

/-! ## Bytes -/

theorem step_eq (r : UInt32) (b : UInt8) : step r b = shift^[8] (r ^^^ b.toUInt32) := rfl

theorem step_injective (b : UInt8) : Injective fun r => step r b := by
  intro r r' h
  simp only [step_eq] at h
  have hshift : r ^^^ b.toUInt32 = r' ^^^ b.toUInt32 := shift_injective.iterate 8 h
  rwa [UInt32.xor_left_inj] at hshift

/-- What follows never makes two registers the same. -/
theorem run_injective (bytes : Bytes) : Injective fun r => run r bytes := by
  induction bytes with
  | nil => exact fun _ _ h => h
  | cons b bytes ih => exact fun r r' h => step_injective b (ih h)

/-- Some bytes as one number, the first of them the lowest. -/
def word (bytes : Bytes) : UInt32 := UInt32.ofNat (Bytes.ofLittle bytes)

theorem word_cons (b : UInt8) (bytes : Bytes) :
    word (b :: bytes) = b.toUInt32 ^^^ UInt32.ofNat (2 ^ 8 * Bytes.ofLittle bytes) := by
  -- a byte and a multiple of 256 have no bit in common
  have hxor (n : Nat) : b.toNat + 256 * n = b.toNat ^^^ (2 ^ 8 * n) := by
    apply Nat.eq_of_testBit_eq
    intro i
    have hsum : b.toNat + 256 * n = 2 ^ 8 * n + b.toNat := by omega
    rw [hsum, Nat.testBit_two_pow_mul_add n b.toNat_lt, Nat.testBit_xor, Nat.testBit_two_pow_mul]
    by_cases hi : i < 8
    · simp [hi, Nat.not_le.mpr hi]
    · have hhigh : b.toNat.testBit i = false :=
        Nat.testBit_lt_two_pow (Nat.lt_of_lt_of_le b.toNat_lt
          (Nat.pow_le_pow_right Nat.two_pos (Nat.le_of_not_lt hi)))
      simp [hi, hhigh, Nat.le_of_not_lt hi]
  rw [word, Bytes.ofLittle, hxor, UInt32.ofNat_xor, UInt32.ofNat_uInt8ToNat]

theorem limit_le {n : Nat} (h : n ≤ 4) : Bytes.limit n ≤ UInt32.size := by
  match n, h with
  | 0, _ | 1, _ | 2, _ | 3, _ | 4, _ => decide

theorem ofLittle_lt_size {bytes : Bytes} (h : bytes.length ≤ 4) :
    Bytes.ofLittle bytes < UInt32.size :=
  Nat.lt_of_lt_of_le (Bytes.ofLittle_lt bytes) (limit_le h)

/-- Up to four bytes are added to the register at once. -/
theorem run_eq_shift {bytes : Bytes} (h : bytes.length ≤ 4) (r : UInt32) :
    run r bytes = shift^[8 * bytes.length] (r ^^^ word bytes) := by
  induction bytes generalizing r with
  | nil => exact UInt32.xor_zero.symm
  | cons b bytes ih =>
    have hsize := ofLittle_lt_size h
    rw [List.length_cons] at h
    rw [Bytes.ofLittle] at hsize
    have hbelow : 2 ^ 8 * Bytes.ofLittle bytes < UInt32.size := by omega
    calc run r (b :: bytes)
        = run (shift^[8] (r ^^^ b.toUInt32)) bytes := rfl
      _ = shift^[8 * bytes.length] (shift^[8] (r ^^^ b.toUInt32) ^^^ word bytes) :=
          ih (by omega) _
      _ = shift^[8 * bytes.length] (shift^[8] (r ^^^ b.toUInt32) ^^^
            shift^[8] (UInt32.ofNat (2 ^ 8 * Bytes.ofLittle bytes))) := by
          rw [iterate_shift_ofNat 8 _ hbelow, word]
      _ = shift^[8 * bytes.length] (shift^[8] (r ^^^ word (b :: bytes))) := by
          rw [← iterate_shift_xor, word_cons, UInt32.xor_assoc]
      _ = shift^[8 * (b :: bytes).length] (r ^^^ word (b :: bytes)) :=
          (Function.iterate_add_apply shift _ 8 _).symm

theorem word_injective {a b : Bytes} (hlen : a.length = b.length) (h : a.length ≤ 4)
    (heq : word a = word b) : a = b := by
  have hnumber := congrArg UInt32.toNat heq
  rw [word, word, UInt32.toNat_ofNat_of_lt' (ofLittle_lt_size h),
    UInt32.toNat_ofNat_of_lt' (ofLittle_lt_size (hlen ▸ h))] at hnumber
  rw [← Bytes.little_ofLittle a, ← Bytes.little_ofLittle b, hnumber, hlen]

/-- Up to four bytes leave different registers if they are different. -/
theorem run_ne {a b : Bytes} (hlen : a.length = b.length) (h : a.length ≤ 4) (hne : a ≠ b)
    (r : UInt32) : run r a ≠ run r b := by
  intro heq
  rw [run_eq_shift h, run_eq_shift (hlen ▸ h), hlen] at heq
  have hword := shift_injective.iterate _ heq
  rw [UInt32.xor_right_inj] at hword
  exact hne (word_injective hlen h hword)

/-- Two strings that differ in up to four consecutive bytes only have different checksums. -/
theorem crc32_ne {a b : Bytes} (hlen : a.length = b.length) (h : a.length ≤ 4) (hne : a ≠ b)
    (before behind : Bytes) :
    crc32 (before ++ a ++ behind) ≠ crc32 (before ++ b ++ behind) := by
  intro heq
  rw [crc32, crc32, UInt32.xor_left_inj, run_append, run_append, run_append, run_append] at heq
  exact run_ne hlen h hne _ (run_injective behind heq)

/-! ## A string and its checksum -/

/-- The checksum of every string with its own checksum behind it. -/
def residue : UInt32 := shift^[32] 0xFFFFFFFF ^^^ 0xFFFFFFFF

theorem crc32_append_eq_residue_iff {tail : Bytes} (h : tail.length = 4) (bytes : Bytes) :
    crc32 (bytes ++ tail) = residue ↔ word tail = crc32 bytes := by
  have hcrc : crc32 (bytes ++ tail) =
      shift^[32] (run 0xFFFFFFFF bytes ^^^ word tail) ^^^ 0xFFFFFFFF := by
    rw [crc32, run_append, run_eq_shift (Nat.le_of_eq h), h]
  rw [hcrc, residue, UInt32.xor_left_inj, crc32]
  constructor
  · intro hshift
    have hsum : run 0xFFFFFFFF bytes ^^^ word tail = 0xFFFFFFFF :=
      shift_injective.iterate 32 hshift
    calc word tail
        = run 0xFFFFFFFF bytes ^^^ (run 0xFFFFFFFF bytes ^^^ word tail) := by
          rw [← UInt32.xor_assoc, UInt32.xor_self, UInt32.zero_xor]
      _ = run 0xFFFFFFFF bytes ^^^ 0xFFFFFFFF := by rw [hsum]
  · intro hword
    rw [hword, ← UInt32.xor_assoc, UInt32.xor_self, UInt32.zero_xor]

example : residue = 0x2144DF1C := by decide +kernel

end RangeStore.Checksum
