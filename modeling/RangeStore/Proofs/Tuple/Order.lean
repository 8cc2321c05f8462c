import RangeStore.Tuple.Code
set_option autoImplicit false

/-! # Byte order is tuple order

`Tuple.encodeKey` is monotone. The argument is one equation that holds at every level of the
code, for a number of fixed width, an escaped byte, a closed byte string, a value and a key:

    compare (write a ++ x) (write b ++ y) = (compare a b).then (compare x y)

It says in one that the code keeps the order and that no code begins another, and so it passes
from the parts to the whole by plain recursion. -/

namespace RangeStore

open Std

/-! ## Values are ordered -/

namespace Value

theorem compare_int (a b : Int64) : compare (int a) (int b) = compare a b := rfl

instance : OrientedOrd Value where
  eq_swap := by
    intro a b
    cases a with
    | bytes a =>
      cases b with
      | bytes b => exact OrientedOrd.eq_swap (α := Bytes)
      | int b => rfl
    | int a =>
      cases b with
      | bytes b => rfl
      | int b => exact OrientedOrd.eq_swap (α := Int64)

instance : TransOrd Value where
  isLE_trans := by
    intro a b c hab hbc
    cases a with
    | bytes a =>
      cases c with
      | int c => rfl
      | bytes c =>
        cases b with
        | bytes b => exact TransOrd.isLE_trans (α := Bytes) hab hbc
        | int b => contradiction
    | int a =>
      cases b with
      | bytes b => contradiction
      | int b =>
        cases c with
        | bytes c => contradiction
        | int c => exact TransOrd.isLE_trans (α := Int64) hab hbc

instance : LawfulEqOrd Value where
  eq_of_compare := by
    intro a b h
    cases a with
    | bytes a =>
      cases b with
      | bytes b => rw [LawfulEqOrd.eq_of_compare (α := Bytes) h]
      | int b => contradiction
    | int a =>
      cases b with
      | bytes b => contradiction
      | int b => rw [LawfulEqOrd.eq_of_compare (α := Int64) h]
  compare_self := by
    intro a
    cases a with
    | bytes a => exact ReflOrd.compare_self (α := Bytes)
    | int a => exact ReflOrd.compare_self (α := Int64)

end Value

namespace Bytes

/-! ## Numbers of a fixed width -/

/-- A first byte decides before the rest does. -/
theorem compare_cons (a b : UInt8) (x y : Bytes) :
    compare (a :: x) (b :: y) = (compare a b).then (compare x y) := List.compare_cons_cons

/-- Byte strings of one length are compared before what stands behind them. -/
theorem compare_append {u v : Bytes} (h : u.length = v.length) (x y : Bytes) :
    compare (u ++ x) (v ++ y) = (compare u v).then (compare x y) := by
  induction u generalizing v with
  | nil =>
    have hv : v = [] := List.length_eq_zero_iff.mp h.symm
    subst hv
    rfl
  | cons a u ih =>
    cases v with
    | nil => contradiction
    | cons b v =>
      have hlen : u.length = v.length := Nat.succ.inj h
      simp only [List.cons_append, compare_cons, ih hlen, Ordering.then_assoc]

theorem compare_append_left (u x y : Bytes) : compare (u ++ x) (u ++ y) = compare x y := by
  rw [compare_append rfl, ReflOrd.compare_self, Ordering.eq_then]

theorem compare_toNat (a b : UInt8) : compare a b = compare a.toNat b.toNat := by
  simp only [compare, compareOfLessAndEq, UInt8.lt_iff_toNat_lt, ← UInt8.toNat_inj]

theorem compare_lt {a b : UInt8} (h : a.toNat < b.toNat) : compare a b = .lt := by
  rw [compare_toNat, Nat.compare_eq_lt.mpr h]

theorem compare_gt {a b : UInt8} (h : b.toNat < a.toNat) : compare a b = .gt := by
  rw [compare_toNat, Nat.compare_eq_gt.mpr h]

theorem compare_cons_lt {a b : UInt8} (h : a.toNat < b.toNat) (x y : Bytes) :
    compare (a :: x) (b :: y) = .lt := by
  rw [compare_cons, compare_lt h, Ordering.lt_then]

theorem compare_cons_gt {a b : UInt8} (h : b.toNat < a.toNat) (x y : Bytes) :
    compare (a :: x) (b :: y) = .gt := by
  rw [compare_cons, compare_gt h, Ordering.gt_then]

/-- Another byte at the low end of a number is another byte at the end of its writing. -/
theorem big_succ (width n : Nat) : big (width + 1) n = big width (n / 256) ++ [UInt8.ofNat n] := by
  simp [big, little]

/-- Numbers that fit in `width` bytes are ordered as their writings are. -/
theorem compare_big {width m n : Nat} (hm : m < limit width) (hn : n < limit width) :
    compare (big width m) (big width n) = compare m n := by
  induction width generalizing m n with
  | zero =>
    have hm0 : m = 0 := by simpa [limit] using hm
    have hn0 : n = 0 := by simpa [limit] using hn
    rw [hm0, hn0]
    rfl
  | succ width ih =>
    have hlim : limit (width + 1) = 256 * limit width := rfl
    have hm' : m / 256 < limit width := by omega
    have hn' : n / 256 < limit width := by omega
    have hlast : compare [UInt8.ofNat m] [UInt8.ofNat n] = compare (m % 256) (n % 256) := by
      rw [compare_cons, ReflOrd.compare_self, Ordering.then_eq, compare_toNat]
      simp
    rw [big_succ, big_succ, compare_append (by simp), ih hm' hn', hlast]
    -- the high bytes decide unless they agree, and then the low byte does
    rcases Nat.lt_trichotomy (m / 256) (n / 256) with h | h | h
    · have hmn : m < n := by omega
      rw [Nat.compare_eq_lt.mpr h, Nat.compare_eq_lt.mpr hmn]
      rfl
    · rw [Nat.compare_eq_eq.mpr h, Ordering.eq_then]
      simp only [Nat.compare_eq_ite_lt]
      grind
    · have hmn : n < m := by omega
      rw [Nat.compare_eq_gt.mpr h, Nat.compare_eq_gt.mpr hmn]
      rfl

end Bytes

namespace Tuple

/-! ## Signed numbers -/

/-- Flipping the sign bit adds 2^63. -/
theorem toNat_flipSign (n : Int64) :
    ((flipSign n).toNat : Int) = n.toInt + 0x8000000000000000 := by
  have hsplit : (flipSign n).toNat = n.toBitVec.toNat ^^^ 2 ^ 63 := rfl
  have hlt : n.toBitVec.toNat < 2 ^ 64 := n.toBitVec.isLt
  have hint : n.toInt = if 2 * n.toBitVec.toNat < 2 ^ 64 then (n.toBitVec.toNat : Int)
      else (n.toBitVec.toNat : Int) - (2 ^ 64 : Nat) := BitVec.toInt_eq_toNat_cond _
  have hdiv : (n.toBitVec.toNat ^^^ 2 ^ 63) / 2 ^ 63 = (n.toBitVec.toNat / 2 ^ 63) ^^^ 1 :=
    Nat.xor_div_two_pow
  have hmod : (n.toBitVec.toNat ^^^ 2 ^ 63) % 2 ^ 63 = n.toBitVec.toNat % 2 ^ 63 := by
    rw [Nat.xor_mod_two_pow, Nat.mod_self, Nat.xor_zero]
  by_cases h : 2 * n.toBitVec.toNat < 2 ^ 64
  · have hzero : n.toBitVec.toNat / 2 ^ 63 = 0 := by omega
    rw [hzero, show 0 ^^^ 1 = 1 from rfl] at hdiv
    rw [hsplit, hint, if_pos h]
    omega
  · have hone : n.toBitVec.toNat / 2 ^ 63 = 1 := by omega
    rw [hone, show 1 ^^^ 1 = 0 from rfl] at hdiv
    rw [hsplit, hint, if_neg h]
    omega

theorem compare_toNat_flipSign (m n : Int64) :
    compare (flipSign m).toNat (flipSign n).toNat = compare m n := by
  have hm := toNat_flipSign m
  have hn := toNat_flipSign n
  simp only [compare, compareOfLessAndEq, Int64.lt_iff_toInt_lt, ← Int64.toInt_inj]
  grind

/-! ## Escaped bytes -/

/-- The four bytes that are escaped, and all others. -/
theorem escape_cases (b : UInt8) :
    b = 0x00 ∨ b = 0x01 ∨ b = 0xFE ∨ b = 0xFF ∨ (escape b = [b] ∧ 1 < b.toNat ∧ b.toNat < 254) := by
  by_cases h0 : b = 0x00
  · exact Or.inl h0
  · by_cases h1 : b = 0x01
    · exact Or.inr (Or.inl h1)
    · by_cases h254 : b = 0xFE
      · exact Or.inr (Or.inr (Or.inl h254))
      · by_cases h255 : b = 0xFF
        · exact Or.inr (Or.inr (Or.inr (Or.inl h255)))
        · have hcode : escape b = [b] := by simp [escape, h0, h1, h254, h255]
          have hb := b.toNat_lt
          have n0 : b.toNat ≠ 0 := fun h => h0 (UInt8.toNat_inj.mp h)
          have n1 : b.toNat ≠ 1 := fun h => h1 (UInt8.toNat_inj.mp h)
          have n254 : b.toNat ≠ 254 := fun h => h254 (UInt8.toNat_inj.mp h)
          have n255 : b.toNat ≠ 255 := fun h => h255 (UInt8.toNat_inj.mp h)
          exact Or.inr (Or.inr (Or.inr (Or.inr ⟨hcode, by omega, by omega⟩)))

/-- An escape begins neither with the closing byte nor with the greatest one. -/
theorem escape_eq_cons (b : UInt8) :
    ∃ first rest, escape b = first :: rest ∧ 0 < first.toNat ∧ first.toNat < 255 := by
  rcases escape_cases b with rfl | rfl | rfl | rfl | ⟨hcode, hlow, hhigh⟩
  · exact ⟨_, _, rfl, by decide, by decide⟩
  · exact ⟨_, _, rfl, by decide, by decide⟩
  · exact ⟨_, _, rfl, by decide, by decide⟩
  · exact ⟨_, _, rfl, by decide, by decide⟩
  · exact ⟨b, [], hcode, by omega, by omega⟩

/-- An escaped byte, `low` or `high`, against one that stands for itself: the first bytes of the
two codes are ordered as the bytes are. -/
theorem compare_escape_append_of_lt {a b : UInt8} {x y : Bytes} {first first' : UInt8}
    {rest rest' : Bytes} (ha : escape a = first :: rest) (hb : escape b = first' :: rest')
    (h : a.toNat < b.toNat) (hfirst : first.toNat < first'.toNat) :
    compare (escape a ++ x) (escape b ++ y) = (compare a b).then (compare x y) := by
  rw [ha, hb, List.cons_append, List.cons_append, Bytes.compare_cons_lt hfirst,
    Bytes.compare_lt h, Ordering.lt_then]

theorem compare_escape_append_of_gt {a b : UInt8} {x y : Bytes} {first first' : UInt8}
    {rest rest' : Bytes} (ha : escape a = first :: rest) (hb : escape b = first' :: rest')
    (h : b.toNat < a.toNat) (hfirst : first'.toNat < first.toNat) :
    compare (escape a ++ x) (escape b ++ y) = (compare a b).then (compare x y) := by
  rw [ha, hb, List.cons_append, List.cons_append, Bytes.compare_cons_gt hfirst,
    Bytes.compare_gt h, Ordering.gt_then]

/-- Escapes are ordered as the bytes are, and none begins another. -/
theorem compare_escape_append (a b : UInt8) (x y : Bytes) :
    compare (escape a ++ x) (escape b ++ y) = (compare a b).then (compare x y) := by
  rcases escape_cases a with rfl | rfl | rfl | rfl | ⟨ha, ha1, ha2⟩ <;>
    rcases escape_cases b with rfl | rfl | rfl | rfl | ⟨hb, hb1, hb2⟩
  -- two escaped bytes, compared by computation
  all_goals first | rfl | skip
  · exact compare_escape_append_of_lt rfl hb (Nat.lt_trans Nat.one_pos hb1) hb1
  · exact compare_escape_append_of_lt rfl hb hb1 hb1
  · exact compare_escape_append_of_gt rfl hb hb2 hb2
  · exact compare_escape_append_of_gt rfl hb (Nat.lt_succ_of_lt hb2) hb2
  · exact compare_escape_append_of_gt ha rfl (Nat.lt_trans Nat.one_pos ha1) ha1
  · exact compare_escape_append_of_gt ha rfl ha1 ha1
  · exact compare_escape_append_of_lt ha rfl ha2 ha2
  · exact compare_escape_append_of_lt ha rfl (Nat.lt_succ_of_lt ha2) ha2
  · rw [ha, hb, List.singleton_append, List.singleton_append, Bytes.compare_cons]

/-! ## Values -/

/-- Closed byte strings: the closing byte is below all escapes, so a proper beginning comes
first. -/
theorem compare_flatMap_escape (a b x y : Bytes) :
    compare (a.flatMap escape ++ 0x00 :: x) (b.flatMap escape ++ 0x00 :: y) =
      (compare a b).then (compare x y) := by
  induction a generalizing b with
  | nil =>
    cases b with
    | nil => rfl
    | cons c b =>
      obtain ⟨first, rest, hcode, hpos, -⟩ := escape_eq_cons c
      rw [List.flatMap_nil, List.nil_append, List.flatMap_cons, hcode, List.append_assoc,
        List.cons_append, Bytes.compare_cons_lt (a := 0x00) hpos]
      rfl
  | cons c a ih =>
    cases b with
    | nil =>
      obtain ⟨first, rest, hcode, hpos, -⟩ := escape_eq_cons c
      rw [List.flatMap_nil, List.nil_append, List.flatMap_cons, hcode, List.append_assoc,
        List.cons_append, Bytes.compare_cons_gt (b := 0x00) hpos]
      rfl
    | cons d b =>
      rw [List.flatMap_cons, List.flatMap_cons, List.append_assoc, List.append_assoc,
        compare_escape_append, ih, Bytes.compare_cons, Ordering.then_assoc]

/-- Values of one type are ordered as their codes are, and no code begins another. -/
theorem compare_encodeValue_append {a b : Value} (h : a.type = b.type) (x y : Bytes) :
    compare (encodeValue a ++ x) (encodeValue b ++ y) = (compare a b).then (compare x y) := by
  cases a with
  | bytes a =>
    cases b with
    | bytes b =>
      simp only [encodeValue, List.append_assoc, List.singleton_append]
      exact compare_flatMap_escape a b x y
    | int b => contradiction
  | int a =>
    cases b with
    | bytes b => contradiction
    | int b =>
      have hlimit : Bytes.limit 8 = UInt64.size := rfl
      have ha : (flipSign a).toNat < Bytes.limit 8 := hlimit ▸ (flipSign a).toNat_lt_size
      have hb : (flipSign b).toNat < Bytes.limit 8 := hlimit ▸ (flipSign b).toNat_lt_size
      rw [encodeValue, encodeValue, Bytes.compare_append (by simp), Bytes.compare_big ha hb,
        compare_toNat_flipSign, Value.compare_int]

theorem encodeValue_ne_nil (v : Value) : encodeValue v ≠ [] := by
  cases v with
  | bytes b => simp [encodeValue]
  | int n =>
    have hlen : (encodeValue (.int n)).length = 8 := Bytes.length_big 8 _
    intro h
    rw [h] at hlen
    contradiction

/-! ## Tuples and keys -/

/-- Two tuples whose types agree at every position that both have. -/
def Agree (us vs : List Value) : Prop :=
  ∀ (i : Nat) (u v : Value), us[i]? = some u → vs[i]? = some v → u.type = v.type

theorem Agree.head {u v : Value} {us vs : List Value} (h : Agree (u :: us) (v :: vs)) :
    u.type = v.type := h 0 u v rfl rfl

theorem Agree.tail {u v : Value} {us vs : List Value} (h : Agree (u :: us) (v :: vs)) :
    Agree us vs := fun i a b ha hb => h (i + 1) a b ha hb

theorem agree_of_types {us vs : List Value}
    (h : us.map Value.type <+: vs.map Value.type) : Agree us vs := by
  intro i u v hu hv
  obtain ⟨rest, hrest⟩ := h
  have hi : (vs.map Value.type)[i]? = some u.type := by
    rw [← hrest, List.getElem?_append_left (by simpa using (List.getElem?_eq_some_iff.mp hu).1),
      List.getElem?_map, hu, Option.map_some]
  rw [List.getElem?_map, hv, Option.map_some] at hi
  exact (Option.some.inj hi).symm

/-- Codes of tuples are ordered as the tuples are. -/
theorem compare_encode {us vs : List Value} (h : Agree us vs) :
    compare (encode us) (encode vs) = compare us vs := by
  induction us generalizing vs with
  | nil =>
    cases vs with
    | nil => rfl
    | cons v vs =>
      obtain ⟨b, rest, hcode⟩ := List.exists_cons_of_ne_nil (encodeValue_ne_nil v)
      rw [encode_nil, encode_cons, hcode]
      rfl
  | cons u us ih =>
    cases vs with
    | nil =>
      obtain ⟨b, rest, hcode⟩ := List.exists_cons_of_ne_nil (encodeValue_ne_nil u)
      rw [encode_nil, encode_cons, hcode]
      rfl
    | cons v vs =>
      rw [encode_cons, encode_cons, compare_encodeValue_append h.head, ih h.tail,
        List.compare_cons_cons]

theorem compare_space_append (p q : UInt32) (x y : Bytes) :
    compare (Bytes.big 4 p.toNat ++ x) (Bytes.big 4 q.toNat ++ y) =
      (compare p q).then (compare x y) := by
  have hlimit : Bytes.limit 4 = UInt32.size := rfl
  have hp : p.toNat < Bytes.limit 4 := hlimit ▸ p.toNat_lt_size
  have hq : q.toNat < Bytes.limit 4 := hlimit ▸ q.toNat_lt_size
  have hcode : compare p.toNat q.toNat = compare p q := by
    simp only [compare, compareOfLessAndEq, UInt32.lt_iff_toNat_lt, ← UInt32.toNat_inj]
  rw [Bytes.compare_append (by simp), Bytes.compare_big hp hq, hcode]

/-- Keys are ordered by their key spaces and then as their tuples are. -/
theorem compare_encodeKey (p q : UInt32) {us vs : List Value} (h : Agree us vs) :
    compare (encodeKey p us) (encodeKey q vs) = (compare p q).then (compare us vs) := by
  rw [encodeKey, encodeKey, compare_space_append, compare_encode h]

/-- No two tuples of the same types have the same key. -/
theorem encodeKey_injective {p q : UInt32} {us vs : List Value} (h : Agree us vs)
    (hkey : encodeKey p us = encodeKey q vs) : p = q ∧ us = vs := by
  have heq : (compare p q).then (compare us vs) = .eq := by
    rw [← compare_encodeKey p q h, hkey, ReflOrd.compare_self]
  obtain ⟨hpq, huv⟩ := Ordering.then_eq_eq.mp heq
  exact ⟨LawfulEqOrd.eq_of_compare hpq, LawfulEqOrd.eq_of_compare huv⟩

/-- Byte by byte, keys are ordered by their key spaces first and then as their tuples are: numbers
by size with their sign, byte strings by their bytes, a proper beginning before its extensions. It
is enough that the types agree where both tuples have a value. Two such keys are the same only if
key spaces and tuples are. -/
theorem encodeKey_order (p q : UInt32) (us vs : List Value) (h : Agree us vs) :
    compare (encodeKey p us) (encodeKey q vs) = (compare p q).then (compare us vs) ∧
      (encodeKey p us = encodeKey q vs ↔ p = q ∧ us = vs) := by
  constructor
  · exact compare_encodeKey p q h
  · constructor
    · exact encodeKey_injective h
    · rintro ⟨rfl, rfl⟩
      rfl

/-- A byte string of one zero comes before one of two, though its code is closed by a zero, and a
tuple of one value comes before one that goes on with the least number. -/
theorem encodeKey_order_zeros :
    Agree [.bytes [0x00]] [.bytes [0x00, 0x00], .int Int64.minValue] ∧
    Agree [.bytes [0x00]] [.bytes [0x00], .int Int64.minValue] ∧
    compare (encodeKey 100 [.bytes [0x00]])
      (encodeKey 100 [.bytes [0x00, 0x00], .int Int64.minValue]) = .lt ∧
    encodeKey 100 [.bytes [0x00]] ≠ encodeKey 100 [.bytes [0x00], .int Int64.minValue] := by
  have hlonger : Agree [.bytes [0x00]] [.bytes [0x00, 0x00], .int Int64.minValue] :=
    agree_of_types (by decide)
  have hmore : Agree [.bytes [0x00]] [.bytes [0x00], .int Int64.minValue] :=
    agree_of_types (by decide)
  refine ⟨hlonger, hmore, ?_, ?_⟩
  · rw [(encodeKey_order 100 100 _ _ hlonger).1]
    rfl
  · intro heq
    have hboth := (encodeKey_order 100 100 _ _ hmore).2.mp heq
    exact absurd hboth.2 (by decide)

end Tuple

end RangeStore
