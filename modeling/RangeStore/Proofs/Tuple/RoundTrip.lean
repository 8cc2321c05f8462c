import RangeStore.Proofs.Tuple.Order
set_option autoImplicit false

/-! # Reading tuples back

What is written is read back, and what stands behind it is left over: byte by byte through the
escapes, then value by value (`decodeValues_encode`). So a whole tuple is read back from its bytes
(`decode_encode`) and from its key (`splitKey_encodeKey`). -/

namespace RangeStore.Tuple

/-! ## One value -/

theorem unflipSign_flipSign (n : Int64) : unflipSign (flipSign n) = n := by
  unfold unflipSign flipSign
  rw [UInt64.xor_assoc, UInt64.xor_self, UInt64.xor_zero]
  rfl

/-- One written byte is read back. -/
theorem decodeBytes_escape_append (b : UInt8) {content left more : Bytes}
    (h : decodeBytes more = .ok (content, left)) :
    decodeBytes (escape b ++ more) = .ok (b :: content, left) := by
  rcases escape_cases b with rfl | rfl | rfl | rfl | ⟨hcode, hlow, hhigh⟩
  · show decodeBytes (0x01 :: 0x01 :: more) = _
    simp [decodeBytes, unescape?, h]
  · show decodeBytes (0x01 :: 0x02 :: more) = _
    simp [decodeBytes, unescape?, h]
  · show decodeBytes (0xFE :: 0x01 :: more) = _
    simp [decodeBytes, unescape?, h]
  · show decodeBytes (0xFE :: 0x02 :: more) = _
    simp [decodeBytes, unescape?, h]
  · have hne : ∀ c : UInt8, c.toNat ≤ 1 ∨ 254 ≤ c.toNat → b ≠ c := by
      rintro c hc rfl
      omega
    rw [hcode]
    show decodeBytes (b :: more) = _
    rw [decodeBytes.eq_def]
    simp [h, hne 0x00 (by decide), hne 0x01 (by decide), hne 0xFE (by decide),
      hne 0xFF (by decide)]

theorem decodeBytes_flatMap_escape (b rest : Bytes) :
    decodeBytes (b.flatMap escape ++ 0x00 :: rest) = .ok (b, rest) := by
  induction b with
  | nil =>
    rw [decodeBytes.eq_def]
    rfl
  | cons c b ih =>
    rw [List.flatMap_cons, List.append_assoc]
    exact decodeBytes_escape_append c ih

theorem decodeInt_big (n : Int64) (rest : Bytes) :
    decodeInt (Bytes.big 8 (flipSign n).toNat ++ rest) = .ok (n, rest) := by
  have hlen : (Bytes.big 8 (flipSign n).toNat).length = 8 := Bytes.length_big _ _
  have hlimit : Bytes.limit 8 = UInt64.size := rfl
  have hlt : (flipSign n).toNat < Bytes.limit 8 := hlimit ▸ (flipSign n).toNat_lt_size
  unfold decodeInt
  rw [List.take_left' hlen, List.drop_left' hlen, if_neg (by omega), Bytes.ofBig_big,
    Nat.mod_eq_of_lt hlt, UInt64.ofNat_toNat, unflipSign_flipSign]

theorem decodeValue_encodeValue (v : Value) (rest : Bytes) :
    decodeValue v.type (encodeValue v ++ rest) = .ok (v, rest) := by
  cases v with
  | int n => simp only [Value.type, encodeValue, decodeValue, decodeInt_big]
  | bytes b =>
    simp only [Value.type, encodeValue, decodeValue, List.append_assoc, List.singleton_append,
      decodeBytes_flatMap_escape]

/-! ## Tuples and keys -/

theorem decodeValues_encode (vs : List Value) (rest : Bytes) :
    decodeValues (vs.map Value.type) (encode vs ++ rest) = .ok (vs, rest) := by
  induction vs with
  | nil => rfl
  | cons v vs ih =>
    rw [List.map_cons, encode_cons, List.append_assoc, decodeValues, decodeValue_encodeValue]
    simp only [ih]

theorem decode_encode (vs : List Value) : decode (vs.map Value.type) (encode vs) = .ok vs := by
  have h := decodeValues_encode vs []
  rw [List.append_nil] at h
  rw [decode, h]

theorem splitKey_append (space : UInt32) (body : Bytes) :
    splitKey (Bytes.big 4 space.toNat ++ body) = .ok (space, body) := by
  have hlen : (Bytes.big 4 space.toNat).length = 4 := Bytes.length_big _ _
  have hlimit : Bytes.limit 4 = UInt32.size := rfl
  have hlt : space.toNat < Bytes.limit 4 := hlimit ▸ space.toNat_lt_size
  have hle : ¬ (Bytes.big 4 space.toNat ++ body).length < 4 := by
    rw [List.length_append, hlen]
    omega
  unfold splitKey
  rw [if_neg hle, List.take_left' hlen, List.drop_left' hlen, Bytes.ofBig_big,
    Nat.mod_eq_of_lt hlt, UInt32.ofNat_toNat]

theorem splitKey_encodeKey (space : UInt32) (vs : List Value) :
    splitKey (encodeKey space vs) = .ok (space, encode vs) := splitKey_append space (encode vs)

/-- A key tells its key space and the bytes of its tuple. -/
theorem encodeKey_inj {p q : UInt32} {us vs : List Value} (h : encodeKey p us = encodeKey q vs) :
    p = q ∧ encode us = encode vs := by
  have hsplit := splitKey_encodeKey p us
  rw [h, splitKey_encodeKey] at hsplit
  obtain ⟨hspace, hcode⟩ := Prod.mk.inj (Except.ok.inj hsplit)
  exact ⟨hspace.symm, hcode.symm⟩

end RangeStore.Tuple
