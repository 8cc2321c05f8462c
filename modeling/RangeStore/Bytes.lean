set_option autoImplicit false

/-! # Byte strings

Keys, values and the fields of a page are byte strings. They are ordered byte by byte, a proper
beginning before its extensions: the order `compare` of lists. Numbers of a fixed width are
written in them from the most significant byte down (`big`, in keys) or from the least
significant byte up (`little`, in pages). -/

namespace RangeStore

abbrev Bytes := List UInt8

namespace Bytes

/-- The low `width` bytes of a number, least significant first. -/
def little : Nat → Nat → Bytes
  | 0, _ => []
  | width + 1, n => UInt8.ofNat n :: little width (n / 256)

/-- The number that the bytes write, least significant first. -/
def ofLittle : Bytes → Nat
  | [] => 0
  | b :: rest => b.toNat + 256 * ofLittle rest

/-- The low `width` bytes of a number, most significant first. -/
def big (width n : Nat) : Bytes := (little width n).reverse

/-- The number that the bytes write, most significant first. -/
def ofBig (bytes : Bytes) : Nat := ofLittle bytes.reverse

/-- The first number that does not fit in `width` bytes. -/
def limit : Nat → Nat
  | 0 => 1
  | width + 1 => 256 * limit width

@[simp] theorem length_little (width n : Nat) : (little width n).length = width := by
  induction width generalizing n with
  | zero => rfl
  | succ width ih => simp [little, ih]

@[simp] theorem length_big (width n : Nat) : (big width n).length = width := by
  simp [big]

theorem ofLittle_little (width n : Nat) : ofLittle (little width n) = n % limit width := by
  induction width generalizing n with
  | zero => simp [little, ofLittle, limit, Nat.mod_one]
  | succ width ih =>
    have hb : (UInt8.ofNat n).toNat = n % 256 := by simp
    rw [little, ofLittle, ih, hb, limit, Nat.mod_mul]

theorem ofBig_big (width n : Nat) : ofBig (big width n) = n % limit width := by
  simp [ofBig, big, ofLittle_little]

theorem little_ofLittle (bytes : Bytes) : little bytes.length (ofLittle bytes) = bytes := by
  induction bytes with
  | nil => rfl
  | cons b rest ih =>
    have hb : b.toNat < 256 := b.toNat_lt
    have hdiv : (b.toNat + 256 * ofLittle rest) / 256 = ofLittle rest := by omega
    have hmod : UInt8.ofNat (b.toNat + 256 * ofLittle rest) = b := by
      apply UInt8.toNat_inj.mp
      simp only [UInt8.toNat_ofNat']
      omega
    simp only [List.length_cons, ofLittle, little, hdiv, hmod, ih]

theorem big_ofBig (bytes : Bytes) : big bytes.length (ofBig bytes) = bytes := by
  have h := little_ofLittle bytes.reverse
  rw [List.length_reverse] at h
  simp [big, ofBig, h]

theorem ofLittle_lt (bytes : Bytes) : ofLittle bytes < limit bytes.length := by
  induction bytes with
  | nil => simp [ofLittle, limit]
  | cons b rest ih =>
    have hb : b.toNat < 256 := b.toNat_lt
    simp only [ofLittle, List.length_cons, limit]
    omega

end Bytes

end RangeStore
