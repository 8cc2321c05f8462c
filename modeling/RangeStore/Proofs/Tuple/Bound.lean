import RangeStore.Proofs.Tuple.Order
set_option autoImplicit false

/-! # Bounds on the first columns

A bound key is put before or behind everything that begins with its values, and so it splits the
keys of whole tuples exactly where its values split the tuples: `holds_encodeBound_iff`. The two
halves are that a bare bound comes before all its continuations, and that `Tuple.ceiling` comes
behind them; what a continuation adds to the comparison is then on the side that the operator
ignores. -/

namespace RangeStore

open Std

namespace Comparison

/-- `ge` and `lt` do not see what makes a key greater than a bound that begins it. -/
theorem accepts_then_of_isGE {c : Comparison} (hc : c.spansAll = false) (o : Ordering)
    {rest : Ordering} (h : rest.isGE) : c.accepts (o.then rest) = c.accepts o := by
  cases c <;> cases o <;> cases rest <;> first | rfl | contradiction

/-- `gt` and `le` do not see what makes a key smaller than a bound behind all continuations. -/
theorem accepts_then_of_isLE {c : Comparison} (hc : c.spansAll = true) (o : Ordering)
    {rest : Ordering} (h : rest.isLE) : c.accepts (o.then rest) = c.accepts o := by
  cases c <;> cases o <;> cases rest <;> first | rfl | contradiction

theorem accepts_then_of_ne_eq (c : Comparison) {o : Ordering} (h : o ≠ .eq) (rest : Ordering) :
    c.accepts (o.then rest) = c.accepts o := by
  cases o <;> first | rfl | contradiction

/-- Of what differs from the reference, each comparison accepts one side. -/
theorem accepts_iff_of_ne_eq (c : Comparison) {o : Ordering} (h : o ≠ .eq) :
    c.accepts o = true ↔
      match c.direction with
      | .ascending => o = .gt
      | .descending => o = .lt := by
  cases c <;> cases o <;> first | contradiction | simp [accepts, direction]

theorem accepts_compare_iff (c : Comparison) {p q : UInt32} (h : q ≠ p) :
    c.accepts (compare q p) = true ↔
      match c.direction with
      | .ascending => p < q
      | .descending => q < p := by
  have hne : compare q p ≠ .eq := fun heq => h (LawfulEqOrd.eq_of_compare heq)
  have hlt : ∀ a b : UInt32, compare a b = .lt ↔ a < b := fun a b => compareOfLessAndEq_eq_lt
  rw [c.accepts_iff_of_ne_eq hne]
  cases c.direction with
  | ascending =>
    show compare q p = .gt ↔ p < q
    rw [OrientedOrd.eq_swap, Ordering.swap_eq_gt, hlt]
  | descending => exact hlt q p

end Comparison

namespace Tuple

/-- The greatest bytes for some columns come behind all values of these columns. -/
theorem isLE_compare_ceiling (values : List Value) :
    (compare (encode values) (ceiling (values.map Value.type))).isLE := by
  induction values with
  | nil => rfl
  | cons v vs ih =>
    cases v with
    | bytes b =>
      -- one greatest byte is above the first byte of any closed byte string
      have hlt : ∀ rest : Bytes, compare (b.flatMap escape ++ 0x00 :: rest) [0xFF] = .lt := by
        intro rest
        cases b with
        | nil => rfl
        | cons c b =>
          obtain ⟨first, code, hcode, -, hlt⟩ := escape_eq_cons c
          rw [List.flatMap_cons, hcode, List.append_assoc, List.cons_append]
          exact Bytes.compare_cons_lt (b := 0xFF) hlt _ _
      have hcode : encode (Value.bytes b :: vs) = b.flatMap escape ++ 0x00 :: encode vs := by
        simp [encodeValue]
      rw [hcode, List.map_cons, Value.type, ceiling, hlt]
      rfl
    | int n =>
      have hlimit : Bytes.limit 8 = UInt64.size := rfl
      have hn : (flipSign n).toNat < Bytes.limit 8 := hlimit ▸ (flipSign n).toNat_lt_size
      have htop : List.replicate 8 0xFF = Bytes.big 8 (UInt64.size - 1) := by decide
      have hle : (compare (flipSign n).toNat (UInt64.size - 1)).isLE := by
        rw [Nat.isLE_compare]
        omega
      rw [encode_cons, encodeValue, List.map_cons, Value.type, ceiling, htop,
        Bytes.compare_append (by simp), Bytes.compare_big hn (by decide)]
      exact Ordering.isLE_then_iff_and.mpr ⟨hle, Or.inr ih⟩

/-- A tuple against the code of some first columns, with any bytes behind it. -/
theorem compare_encode_append {values bound : List Value} (h : Agree values bound)
    (hlen : bound.length ≤ values.length) (z : Bytes) :
    compare (encode values) (encode bound ++ z) =
      (compare (values.take bound.length) bound).then
        (compare (encode (values.drop bound.length)) z) := by
  induction bound generalizing values with
  | nil => rfl
  | cons v bound ih =>
    cases values with
    | nil => contradiction
    | cons u values =>
      have hlen' : bound.length ≤ values.length := Nat.le_of_succ_le_succ hlen
      rw [encode_cons, encode_cons, List.append_assoc, compare_encodeValue_append h.head,
        ih h.tail hlen', List.length_cons, List.take_succ_cons, List.drop_succ_cons,
        List.compare_cons_cons, Ordering.then_assoc]

/-- In its own key space a bound accepts a key if its values accept the first columns. -/
theorem holds_encodeBound (space : UInt32) (values bound : List Value) (c : Comparison)
    (h : bound.map Value.type <+: values.map Value.type) :
    c.holds (encodeKey space values) (encodeBound space bound (values.map Value.type) c) =
      c.accepts (compare (values.take bound.length) bound) := by
  have hagree : Agree values bound := fun i u v hu hv => (agree_of_types h i v u hv hu).symm
  have hlen : bound.length ≤ values.length := by simpa using h.length_le
  unfold Comparison.holds encodeBound
  cases hspan : c.spansAll with
  | false =>
    have hge : (compare (encode (values.drop bound.length)) []).isGE := List.isGE_compare_nil_right
    have hcmp := compare_encode_append hagree hlen []
    rw [List.append_nil] at hcmp
    simp only [Bool.false_eq_true, if_false, encodeKey, Bytes.compare_append_left]
    rw [hcmp, Comparison.accepts_then_of_isGE hspan _ hge]
  | true =>
    have hle := isLE_compare_ceiling (values.drop bound.length)
    rw [List.map_drop] at hle
    simp only [if_true, encodeKey, List.append_assoc, Bytes.compare_append_left]
    rw [compare_encode_append hagree hlen, Comparison.accepts_then_of_isLE hspan _ hle]

/-- Where the bytes behind the number of the bound's key space do not matter. -/
theorem holds_encodeBound_of_ne {space other : UInt32} (hne : other ≠ space)
    (values bound : List Value) (types : List ColumnType) (c : Comparison) :
    c.holds (encodeKey other values) (encodeBound space bound types c) =
      c.accepts (compare other space) := by
  have hspace : compare other space ≠ .eq := fun heq => hne (LawfulEqOrd.eq_of_compare heq)
  unfold Comparison.holds encodeBound
  cases c.spansAll with
  | false =>
    simp only [Bool.false_eq_true, if_false, encodeKey, compare_space_append]
    exact c.accepts_then_of_ne_eq hspace _
  | true =>
    simp only [if_true, encodeKey, List.append_assoc, compare_space_append]
    exact c.accepts_then_of_ne_eq hspace _

/-- A bound by values for the first columns accepts the key of a whole tuple in its key space
exactly if these values accept the tuple's first columns; of the keys of any other key space it
accepts those of the greater ones (`gt`, `ge`) or of the smaller ones (`lt`, `le`). -/
theorem holds_encodeBound_iff (space : UInt32) (types : List ColumnType) (values bound : List Value)
    (c : Comparison) (hvalues : values.map Value.type = types)
    (hbound : bound.map Value.type <+: types) :
    (c.holds (encodeKey space values) (encodeBound space bound types c) = true ↔
      c.accepts (compare (values.take bound.length) bound) = true) ∧
    ∀ (other : UInt32) (others : List Value), other ≠ space →
      (c.holds (encodeKey other others) (encodeBound space bound types c) = true ↔
        match c.direction with
        | .ascending => space < other
        | .descending => other < space) := by
  subst hvalues
  constructor
  · rw [holds_encodeBound space values bound c hbound]
  · intro other others hne
    rw [holds_encodeBound_of_ne hne, c.accepts_compare_iff hne]

/-- The bound `<= 7` on the first of three columns takes `(7, FF, greatest number)`, of which it is
a beginning, and nothing of the next key space. -/
theorem holds_encodeBound_iff_seven :
    [Value.int 7, .bytes [0xFF], .int Int64.maxValue].map Value.type = [.int64, .bytes, .int64] ∧
    [Value.int 7].map Value.type <+: [.int64, .bytes, .int64] ∧ (101 : UInt32) ≠ 100 ∧
    Comparison.le.holds (encodeKey 100 [.int 7, .bytes [0xFF], .int Int64.maxValue])
      (encodeBound 100 [.int 7] [.int64, .bytes, .int64] .le) = true ∧
    Comparison.le.holds (encodeKey 101 [.int 7])
      (encodeBound 100 [.int 7] [.int64, .bytes, .int64] .le) ≠ true := by
  have htypes : [Value.int 7, .bytes [0xFF], .int Int64.maxValue].map Value.type =
      [.int64, .bytes, .int64] := rfl
  have hbound : [Value.int 7].map Value.type <+: [.int64, .bytes, .int64] := by decide
  have hne : (101 : UInt32) ≠ 100 := by decide
  have key := holds_encodeBound_iff 100 _ _ [.int 7] .le htypes hbound
  refine ⟨htypes, hbound, hne, key.1.mpr (by decide), fun h => ?_⟩
  have hlt : (101 : UInt32) < 100 := (key.2 101 [.int 7] hne).mp h
  exact absurd hlt (by decide)

end Tuple

end RangeStore
