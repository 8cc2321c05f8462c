import RangeStore.Page.Basic
set_option autoImplicit false

/-! # What lies on a page

`Page.BytesAt` says that some bytes stand on a page from an offset on. Cutting the bytes in two cuts
the place in two, so what was written as one string is read piece by piece, without computing where
the pieces before it end. A sealed page keeps all its bytes but those of the checksum, and carries
its own checksum. -/

namespace RangeStore.Page

/-- The bytes stand on the page from an offset on. -/
def BytesAt (p : Page) (offset : Nat) (bytes : Bytes) : Prop := bytes <+: p.toList.drop offset

namespace BytesAt

variable {p : Page} {offset : Nat} {bytes u v : Bytes}

theorem left (h : p.BytesAt offset (u ++ v)) : p.BytesAt offset u :=
  (List.prefix_append u v).trans h

theorem right (h : p.BytesAt offset (u ++ v)) : p.BytesAt (offset + u.length) v := by
  unfold BytesAt at h ⊢
  obtain ⟨rest, hrest⟩ := h
  refine ⟨rest, ?_⟩
  rw [← List.drop_drop, ← hrest, List.append_assoc, List.drop_left]

theorem slice (h : p.BytesAt offset bytes) : p.slice offset bytes.length = bytes := by
  rw [slice_eq]
  exact List.prefix_iff_eq_take.mp h |>.symm

/-- A number of a fixed width, as far as it fits. -/
theorem word {width n : Nat} (h : p.BytesAt offset (Bytes.little width n)) :
    p.word offset width = n % Bytes.limit width := by
  have hslice := h.slice
  rw [Bytes.length_little] at hslice
  rw [Page.word, hslice, Bytes.ofLittle_little]

/-- A number that fits in its width. -/
theorem word32 {n : UInt32} (h : p.BytesAt offset (Bytes.little 4 n.toNat)) :
    UInt32.ofNat (p.word offset 4) = n := by
  have hlimit : Bytes.limit 4 = UInt32.size := rfl
  rw [h.word, hlimit, Nat.mod_eq_of_lt n.toNat_lt_size, UInt32.ofNat_toNat]

theorem word64 {n : UInt64} (h : p.BytesAt offset (Bytes.little 8 n.toNat)) :
    UInt64.ofNat (p.word offset 8) = n := by
  have hlimit : Bytes.limit 8 = UInt64.size := rfl
  rw [h.word, hlimit, Nat.mod_eq_of_lt n.toNat_lt_size, UInt64.ofNat_toNat]

theorem length_le (h : p.BytesAt offset bytes) : bytes.length ≤ pageSize - offset := by
  have hle := List.IsPrefix.length_le h
  rwa [List.length_drop, length_toList] at hle

end BytesAt

/-- A page that was made from bytes has them in front. -/
theorem bytesAt_ofList {bytes : Bytes} (h : bytes.length ≤ pageSize) :
    (ofList bytes).BytesAt 0 bytes := by
  rw [BytesAt, List.drop_zero, toList_ofList, List.take_append, List.take_of_length_le h]
  exact List.prefix_append _ _

/-! ## Slices -/

theorem slice_add (p : Page) (offset m n : Nat) :
    p.slice offset (m + n) = p.slice offset m ++ p.slice (offset + m) n := by
  rw [slice_eq, slice_eq, slice_eq, List.take_add, List.drop_drop]

theorem length_slice {p : Page} {offset count : Nat} (h : offset + count ≤ pageSize) :
    (p.slice offset count).length = count := by
  rw [slice_eq, List.length_take, List.length_drop, length_toList]
  omega

/-- A number that stands on the page writes the bytes that it was read from. -/
theorem little_word {p : Page} {offset width : Nat} (h : offset + width ≤ pageSize) :
    p.word offset width < Bytes.limit width ∧
      Bytes.little width (p.word offset width) = p.slice offset width := by
  have hlt := Bytes.ofLittle_lt (p.slice offset width)
  have hlittle := Bytes.little_ofLittle (p.slice offset width)
  rw [length_slice h] at hlt hlittle
  exact ⟨hlt, hlittle⟩

theorem little_word32 {p : Page} {offset : Nat} (h : offset + 4 ≤ pageSize) :
    Bytes.little 4 (UInt32.ofNat (p.word offset 4)).toNat = p.slice offset 4 := by
  obtain ⟨hlt, hlittle⟩ := little_word (p := p) h
  rwa [UInt32.toNat_ofNat_of_lt' hlt]

theorem little_word64 {p : Page} {offset : Nat} (h : offset + 8 ≤ pageSize) :
    Bytes.little 8 (UInt64.ofNat (p.word offset 8)).toNat = p.slice offset 8 := by
  obtain ⟨hlt, hlittle⟩ := little_word (p := p) h
  rwa [UInt64.toNat_ofNat_of_lt' hlt]

/-- The first byte names the kind. -/
theorem BytesAt.kind {p : Page} {k : NodeKind} (h : p.BytesAt 0 [k.tag]) : p.kind = .ok k := by
  have hfirst : p.bytes[0]? = some k.tag := by
    obtain ⟨rest, hrest⟩ := h
    have hget : p.toList[0]? = some k.tag := by
      rw [List.drop_zero] at hrest
      rw [← hrest]
      rfl
    simpa [toList, Vector.toList] using hget
  have hbyte : p.bytes[0] = k.tag := (Vector.getElem?_eq_some_iff.mp hfirst).2
  rw [Page.kind, hbyte, NodeKind.ofTag?_tag]

/-! ## The checksum -/

section

variable (p : Page) (sum : UInt32)

/-- Two bytes come before the place of the checksum. -/
theorem length_front : (p.toList.take 2).length = 2 := by
  simp [pageSize]

theorem toList_withChecksum :
    (p.withChecksum sum).toList = p.toList.take 2 ++ Bytes.little 4 sum.toNat ++ p.toList.drop 6 :=
  toList_splice p 2 (Bytes.little 4 sum.toNat) (by rw [Bytes.length_little]; decide)

theorem take_withChecksum : (p.withChecksum sum).toList.take 2 = p.toList.take 2 := by
  rw [toList_withChecksum, List.append_assoc,
    List.take_append_of_le_length (Nat.le_of_eq p.length_front.symm), List.take_take,
    Nat.min_self]

theorem drop_withChecksum : (p.withChecksum sum).toList.drop 6 = p.toList.drop 6 := by
  have hlen : (p.toList.take 2 ++ Bytes.little 4 sum.toNat).length = 6 := by
    rw [List.length_append, length_front, Bytes.length_little]
  rw [toList_withChecksum, List.drop_left' hlen]

theorem slice_withChecksum {offset : Nat} (h : 6 ≤ offset) (count : Nat) :
    (p.withChecksum sum).slice offset count = p.slice offset count := by
  rw [slice_eq, slice_eq, ← Nat.add_sub_cancel' h, ← List.drop_drop, ← List.drop_drop,
    drop_withChecksum]

theorem word_withChecksum {offset : Nat} (h : 6 ≤ offset) (width : Nat) :
    (p.withChecksum sum).word offset width = p.word offset width := by
  rw [Page.word, Page.word, slice_withChecksum p sum h]

theorem kind_withChecksum : (p.withChecksum sum).kind = p.kind := by
  have hfirst (p : Page) : (p.toList.take 2)[0]? = some p.bytes[0] := by
    rw [List.getElem?_take, if_pos Nat.two_pos, toList, Vector.getElem?_toList,
      Vector.getElem?_eq_getElem]
  have hbyte : (p.withChecksum sum).bytes[0] = p.bytes[0] := by
    apply Option.some.inj
    rw [← hfirst, ← hfirst, take_withChecksum]
  rw [Page.kind, Page.kind, hbyte]

/-- The place of the checksum is the only one that may change. -/
theorem getElem?_withChecksum {i : Nat} (h : i < 2 ∨ 6 ≤ i) :
    (p.withChecksum sum).toList[i]? = p.toList[i]? := by
  rcases h with h | h
  · have hfront := congrArg (fun l : Bytes => l[i]?) (take_withChecksum p sum)
    simpa only [List.getElem?_take, if_pos h] using hfront
  · have hbehind := congrArg (fun l : Bytes => l[i - 6]?) (drop_withChecksum p sum)
    simpa only [List.getElem?_drop, Nat.add_sub_cancel' h] using hbehind

/-- A page carries the checksum that was stored on it. -/
theorem storedChecksum_withChecksum : (p.withChecksum sum).storedChecksum = sum := by
  have hall : (p.withChecksum sum).BytesAt 0
      (p.toList.take 2 ++ Bytes.little 4 sum.toNat ++ p.toList.drop 6) := by
    rw [← toList_withChecksum]
    exact List.prefix_refl _
  have hplace := hall.left.right
  rw [length_front] at hplace
  exact hplace.word32

/-- And the checksum that it should carry does not depend on it. -/
theorem checksum_withChecksum : (p.withChecksum sum).checksum = p.checksum := by
  rw [checksum, checksum, take_withChecksum, drop_withChecksum]

/-- A sealed page carries its checksum. -/
theorem storedChecksum_sealed : p.sealed.storedChecksum = p.sealed.checksum := by
  rw [Page.sealed, storedChecksum_withChecksum, checksum_withChecksum]

end

/-- Storing a checksum changes nothing behind its place. -/
theorem BytesAt.withChecksum {p : Page} {offset : Nat} {bytes : Bytes} (h : p.BytesAt offset bytes)
    (hoffset : 6 ≤ offset) (sum : UInt32) : (p.withChecksum sum).BytesAt offset bytes := by
  unfold BytesAt at h ⊢
  rw [← Nat.add_sub_cancel' hoffset, ← List.drop_drop] at h ⊢
  rwa [drop_withChecksum]

/-- And nothing before it. -/
theorem BytesAt.withChecksum_before {p : Page} {bytes : Bytes} (h : p.BytesAt 0 bytes)
    (hlen : bytes.length ≤ 2) (sum : UInt32) : (p.withChecksum sum).BytesAt 0 bytes := by
  have hfront : bytes <+: (p.withChecksum sum).toList.take 2 := by
    rw [take_withChecksum]
    exact List.prefix_take_iff.mpr ⟨h, hlen⟩
  exact (List.prefix_take_iff.mp hfront).1

end RangeStore.Page
