import RangeStore.Proofs.Tuple.RoundTrip
set_option autoImplicit false

/-! # Only what was written is read

The counterpart of `RangeStore.Proofs.Tuple.RoundTrip`: whatever bytes a reader accepts, it accepts
what the writer makes of the value that it gives, with what it leaves over behind. So no value has a
second code, and together the two directions say which bytes are read: `decode_eq_ok_iff`. -/

namespace RangeStore.Tuple

/-! ## One value -/

theorem flipSign_unflipSign (w : UInt64) : flipSign (unflipSign w) = w := by
  unfold flipSign unflipSign
  rw [UInt64.toUInt64_toInt64, UInt64.xor_assoc, UInt64.xor_self, UInt64.xor_zero]

/-- Eight bytes are read as the number that they write. -/
theorem eq_of_decodeInt {bytes left : Bytes} {n : Int64} (h : decodeInt bytes = .ok (n, left)) :
    bytes = encodeValue (.int n) ++ left := by
  unfold decodeInt at h
  split at h
  · contradiction
  · next hlen =>
    obtain ⟨rfl, rfl⟩ := Prod.mk.inj (Except.ok.inj h)
    have hlength : (bytes.take 8).length = 8 := by
      have hle := List.length_take_le 8 bytes
      omega
    have hlimit : Bytes.limit 8 = UInt64.size := rfl
    have hlt : Bytes.ofBig (bytes.take 8) < UInt64.size := by
      have hbound := Bytes.ofLittle_lt (bytes.take 8).reverse
      rw [List.length_reverse, hlength, hlimit] at hbound
      exact hbound
    have hcode := Bytes.big_ofBig (bytes.take 8)
    rw [hlength] at hcode
    rw [encodeValue, flipSign_unflipSign, UInt64.toNat_ofNat_of_lt' hlt, hcode,
      List.take_append_drop]

/-- Two bytes that escape a byte are its code. -/
theorem escape_of_unescape? {first second b : UInt8} (h : unescape? first second = some b) :
    escape b = [first, second] := by
  unfold unescape? at h
  repeat' split at h
  -- each of the four escapes is written for the byte that it is read as
  all_goals first
    | contradiction
    | obtain rfl := Option.some.inj h
      subst_vars
      rfl

/-- A byte string is read from its escapes and the closing byte. The induction is that of the
reader: it takes one byte or two at a time. -/
theorem eq_of_decodeBytes {bytes content left : Bytes}
    (h : decodeBytes bytes = .ok (content, left)) :
    bytes = content.flatMap escape ++ 0x00 :: left := by
  fun_induction decodeBytes bytes generalizing content left with
  | case1 => contradiction
  | case2 rest =>
    -- the closing byte
    obtain ⟨rfl, rfl⟩ := Prod.mk.inj (Except.ok.inj h)
    rfl
  | case3 => contradiction
  | case4 => contradiction
  | case5 => contradiction
  | case6 b hb hescape next more c hc found rest hmore ih =>
    obtain ⟨rfl, rfl⟩ := Prod.mk.inj (Except.ok.inj h)
    rw [ih hmore, List.flatMap_cons, escape_of_unescape? hc]
    rfl
  | case7 => contradiction
  | case8 => contradiction
  | case9 b rest h0 hescape h255 found tail hmore ih =>
    -- a byte that stands for itself
    obtain ⟨rfl, rfl⟩ := Prod.mk.inj (Except.ok.inj h)
    have hcode : escape b = [b] := by
      rcases escape_cases b with rfl | rfl | rfl | rfl | ⟨hcode, -, -⟩
      · contradiction
      · exact absurd (Or.inl rfl) hescape
      · exact absurd (Or.inr rfl) hescape
      · contradiction
      · exact hcode
    rw [ih hmore, List.flatMap_cons, hcode]
    rfl

theorem eq_of_decodeValue {type : ColumnType} {bytes left : Bytes} {v : Value}
    (h : decodeValue type bytes = .ok (v, left)) :
    v.type = type ∧ bytes = encodeValue v ++ left := by
  cases type with
  | int64 =>
    unfold decodeValue at h
    dsimp only at h
    split at h
    · contradiction
    · next n rest hn =>
      obtain ⟨rfl, rfl⟩ := Prod.mk.inj (Except.ok.inj h)
      exact ⟨rfl, eq_of_decodeInt hn⟩
  | bytes =>
    unfold decodeValue at h
    dsimp only at h
    split at h
    · contradiction
    · next content rest hcontent =>
      obtain ⟨rfl, rfl⟩ := Prod.mk.inj (Except.ok.inj h)
      constructor
      · rfl
      · rw [encodeValue, List.append_assoc]
        exact eq_of_decodeBytes hcontent

/-! ## Tuples -/

theorem eq_of_decodeValues {types : List ColumnType} {bytes left : Bytes} {vs : List Value}
    (h : decodeValues types bytes = .ok (vs, left)) :
    vs.map Value.type = types ∧ bytes = encode vs ++ left := by
  induction types generalizing bytes vs with
  | nil =>
    obtain ⟨rfl, rfl⟩ := Prod.mk.inj (Except.ok.inj h)
    exact ⟨rfl, rfl⟩
  | cons type types ih =>
    unfold decodeValues at h
    split at h
    · contradiction
    · next v rest hv =>
      split at h
      · contradiction
      · next others tail hothers =>
        obtain ⟨rfl, rfl⟩ := Prod.mk.inj (Except.ok.inj h)
        obtain ⟨htype, hbytes⟩ := eq_of_decodeValue hv
        obtain ⟨htypes, hrest⟩ := ih hothers
        constructor
        · rw [List.map_cons, htype, htypes]
        · rw [hbytes, hrest, encode_cons, List.append_assoc]

theorem eq_of_decode {types : List ColumnType} {bytes : Bytes} {vs : List Value}
    (h : decode types bytes = .ok vs) : vs.map Value.type = types ∧ encode vs = bytes := by
  unfold decode at h
  split at h
  · contradiction
  · next found hfound =>
    obtain rfl := Except.ok.inj h
    obtain ⟨htypes, hbytes⟩ := eq_of_decodeValues hfound
    rw [List.append_nil] at hbytes
    exact ⟨htypes, hbytes.symm⟩
  · contradiction

/-- Reads a tuple; gives it and the number of bytes that it takes. -/
def decodeCounted (types : List ColumnType) (bytes : Bytes) :
    Except DecodeError (List Value × Nat) :=
  (decodeValues types bytes).map fun (vs, rest) => (vs, bytes.length - rest.length)

/-- Bytes are read as a tuple of given types exactly if they are the code of a tuple of these types,
and what is read is this tuple. And a tuple is read from its code whatever bytes follow: it takes
just its own bytes and leaves the others. -/
theorem decode_eq_ok_iff :
    (∀ (types : List ColumnType) (bytes : Bytes) (vs : List Value),
      decode types bytes = .ok vs ↔ vs.map Value.type = types ∧ encode vs = bytes) ∧
    ∀ (vs : List Value) (rest : Bytes),
      decodeValues (vs.map Value.type) (encode vs ++ rest) = .ok (vs, rest) ∧
        decodeCounted (vs.map Value.type) (encode vs ++ rest) = .ok (vs, (encode vs).length) := by
  constructor
  · intro types bytes vs
    constructor
    · exact eq_of_decode
    · rintro ⟨rfl, rfl⟩
      exact decode_encode vs
  · intro vs rest
    constructor
    · exact decodeValues_encode vs rest
    · rw [decodeCounted, decodeValues_encode, List.length_append]
      simp only [Except.map, Nat.add_sub_cancel]

/-- `FE 01` is how `FE` is written; `FE 03` is how nothing is written. -/
example : decode [.bytes] [0xFE, 0x01, 0x00] = .ok [.bytes [0xFE]] ∧
    decode [.bytes] [0xFE, 0x03, 0x00] = .error (.invalidEscape 0xFE 0x03) := ⟨rfl, rfl⟩

/-! ## Keys -/

/-- The number in the first four bytes of a key is that of its key space. -/
theorem eq_of_splitKey {key body : Bytes} {space : UInt32}
    (h : splitKey key = .ok (space, body)) : key = Bytes.big 4 space.toNat ++ body := by
  unfold splitKey at h
  split at h
  · contradiction
  · next hlength =>
    obtain ⟨rfl, rfl⟩ := Prod.mk.inj (Except.ok.inj h)
    have hfour : (key.take 4).length = 4 := by
      rw [List.length_take]
      omega
    have hlimit : Bytes.limit 4 = UInt32.size := rfl
    have hlt : Bytes.ofBig (key.take 4) < UInt32.size := by
      have hlt := Bytes.ofLittle_lt (key.take 4).reverse
      rwa [List.length_reverse, hfour, hlimit] at hlt
    have hwritten := Bytes.big_ofBig (key.take 4)
    rw [hfour] at hwritten
    rw [UInt32.toNat_ofNat_of_lt' hlt, hwritten, List.take_append_drop]

/-- The tuple of given types in a key, behind the number of its key space. -/
def readKey (types : List ColumnType) (key : Bytes) : Except DecodeError (List Value) :=
  match splitKey key with
  | .error e => .error e
  | .ok (_, body) => decode types body

/-- What keeps a key from being read as a tuple of given types. -/
inductive KeyFault (types : List ColumnType) (key : Bytes) : DecodeError → Prop
  | short (h : key.length < 4) : KeyFault types key (.missingKeySpace key.length)
  | garbled {space : UInt32} {body : Bytes} {e : DecodeError}
    (hkey : key = Bytes.big 4 space.toNat ++ body) (h : decode types body = .error e) :
    KeyFault types key e

/-- A key is read as a tuple if it is the key of this tuple in some key space. -/
theorem readKey_eq_ok_iff {types : List ColumnType} {key : Bytes} {vs : List Value} :
    readKey types key = .ok vs ↔
      vs.map Value.type = types ∧ ∃ space, key = encodeKey space vs := by
  constructor
  · intro h
    unfold readKey at h
    split at h
    · contradiction
    · next space body hsplit =>
      obtain ⟨htypes, rfl⟩ := eq_of_decode h
      exact ⟨htypes, space, eq_of_splitKey hsplit⟩
  · rintro ⟨rfl, space, rfl⟩
    rw [readKey, splitKey_encodeKey]
    exact decode_encode vs

theorem readKey_eq_error_iff {types : List ColumnType} {key : Bytes} {e : DecodeError} :
    readKey types key = .error e ↔ KeyFault types key e := by
  constructor
  · intro h
    unfold readKey at h
    split at h
    · next hsplit =>
      unfold splitKey at hsplit
      split at hsplit
      · next hshort =>
        obtain rfl := Except.error.inj h
        obtain rfl := Except.error.inj hsplit
        exact .short hshort
      · contradiction
    · next hsplit => exact .garbled (eq_of_splitKey hsplit) h
  · rintro (hshort | ⟨rfl, hdecode⟩)
    · rw [readKey, splitKey, if_pos hshort]
    · rw [readKey, splitKey_append]
      exact hdecode

end RangeStore.Tuple
