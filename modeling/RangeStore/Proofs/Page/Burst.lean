import RangeStore.Proofs.Page.Checksum
import RangeStore.Proofs.Page.Region
set_option autoImplicit false

/-! # Bursts

A burst changes up to four consecutive bytes of a page outside the place of its checksum, or bytes
of that place only. In the first case the checksum that the page carries stays as it is and the one
that it should carry changes, in the second case it is the other way round. So a page that carried
its checksum does not carry it after a burst (`Page.Burst.storedChecksum_ne`). Of other pages this
cannot be said: sealing is a burst of each of them (`Page.Burst.of_unsealed`). -/

namespace RangeStore

namespace Bytes

/-- The strings agree on every byte before `first` and on every byte from `last` on. -/
def AgreeOutside (a b : Bytes) (first last : Nat) : Prop :=
  ∀ i, i < first ∨ last ≤ i → a[i]? = b[i]?

namespace AgreeOutside

variable {a b : Bytes} {first last : Nat}

theorem mono {last' : Nat} (h : AgreeOutside a b first last) (hle : last ≤ last') :
    AgreeOutside a b first last' :=
  fun i hi => h i (hi.imp_right hle.trans)

theorem take_eq (h : AgreeOutside a b first last) : a.take first = b.take first := by
  apply List.ext_getElem?
  intro i
  rw [List.getElem?_take, List.getElem?_take]
  by_cases hi : i < first
  · rw [if_pos hi, if_pos hi, h i (Or.inl hi)]
  · rw [if_neg hi, if_neg hi]

theorem drop_eq (h : AgreeOutside a b first last) : a.drop last = b.drop last := by
  apply List.ext_getElem?
  intro i
  rw [List.getElem?_drop, List.getElem?_drop, h _ (Or.inr (Nat.le_add_right last i))]

theorem take (h : AgreeOutside a b first last) (n : Nat) :
    AgreeOutside (a.take n) (b.take n) first last := by
  intro i hi
  rw [List.getElem?_take, List.getElem?_take, h i hi]

/-- Strings that differ in up to four consecutive bytes only have different checksums. -/
theorem crc32_ne (h : AgreeOutside a b first last) (hlast : last ≤ first + 4)
    (hlen : a.length = b.length) (hne : a ≠ b) : Checksum.crc32 a ≠ Checksum.crc32 b := by
  have hfour := h.mono hlast
  have hsplit (l : Bytes) : l.take first ++ (l.drop first).take 4 ++ l.drop (first + 4) = l := by
    rw [List.append_assoc, ← List.drop_drop, List.take_append_drop, List.take_append_drop]
  have hmiddle : (a.drop first).take 4 ≠ (b.drop first).take 4 := by
    intro heq
    apply hne
    rw [← hsplit a, ← hsplit b, heq, hfour.take_eq, hfour.drop_eq]
  have hcrc := Checksum.crc32_ne (by simp [hlen]) (List.length_take_le 4 _) hmiddle
    (a.take first) (a.drop (first + 4))
  rw [hsplit a, hfour.take_eq, hfour.drop_eq, hsplit b] at hcrc
  exact hcrc

end AgreeOutside

end Bytes

namespace Page

/-- The bytes whose checksum the page should carry: its own, with the checksum's place zero. -/
def checked (p : Page) : Bytes := p.toList.take 2 ++ [0, 0, 0, 0] ++ p.toList.drop 6

theorem checksum_eq (p : Page) : p.checksum = Checksum.crc32 p.checked := rfl

theorem length_checked (p : Page) : p.checked.length = pageSize := by
  simp [checked, pageSize]

theorem getElem?_checked (p : Page) (i : Nat) :
    p.checked[i]? = if 2 ≤ i ∧ i < 6 then some 0 else p.toList[i]? := by
  have hfront := p.length_front
  rw [checked, List.append_assoc]
  rcases Nat.lt_or_ge i 2 with hi | hi
  · rw [if_neg (by omega), List.getElem?_append_left (by omega), List.getElem?_take, if_pos hi]
  · rw [List.getElem?_append_right (by omega), hfront]
    by_cases hend : i < 6
    · rw [if_pos ⟨hi, hend⟩]
      obtain rfl | rfl | rfl | rfl : i = 2 ∨ i = 3 ∨ i = 4 ∨ i = 5 := by omega
      all_goals rfl
    · rw [if_neg (by omega), List.getElem?_append_right (by simp; omega), List.getElem?_drop]
      congr 1
      simp only [List.length_cons, List.length_nil]
      omega

/-- A change of a page from `p` to `q` that is confined to up to four consecutive bytes outside the
place of the checksum, or to bytes of that place. -/
structure Burst (p q : Page) : Prop where
  ne : p ≠ q
  confined : (∃ first last, last ≤ first + 4 ∧ (last ≤ 2 ∨ 6 ≤ first) ∧
    Bytes.AgreeOutside p.toList q.toList first last) ∨ Bytes.AgreeOutside p.toList q.toList 2 6

/-- The page with some bits of one byte turned over. -/
def flip (p : Page) (i : Nat) (h : i < pageSize) (mask : UInt8) : Page :=
  ⟨p.bytes.set i (p.bytes[i] ^^^ mask) h⟩

variable {p q : Page}

theorem eq_of_getElem? (h : ∀ i : Nat, p.toList[i]? = q.toList[i]?) : p = q :=
  ext_toList (List.ext_getElem? h)

/-- Pages that agree on the place of the checksum carry the same one. -/
theorem storedChecksum_eq (h : ∀ i, 2 ≤ i → i < 6 → p.toList[i]? = q.toList[i]?) :
    p.storedChecksum = q.storedChecksum := by
  have hslice : p.slice 2 4 = q.slice 2 4 := by
    rw [slice_eq, slice_eq]
    apply List.ext_getElem?
    intro i
    rw [List.getElem?_take, List.getElem?_take, List.getElem?_drop, List.getElem?_drop]
    by_cases hi : i < 4
    · rw [if_pos hi, if_pos hi, h (2 + i) (by omega) (by omega)]
    · rw [if_neg hi, if_neg hi]
  rw [storedChecksum, storedChecksum, Page.word, Page.word, hslice]

/-- Pages that carry the same checksum agree on its place. -/
theorem getElem?_of_storedChecksum_eq (h : p.storedChecksum = q.storedChecksum) (i : Nat)
    (hi : 2 ≤ i) (hend : i < 6) : p.toList[i]? = q.toList[i]? := by
  have hlen (p : Page) : (p.slice 2 4).length = 4 := by simp [slice_eq, pageSize]
  have hslice : p.slice 2 4 = q.slice 2 4 :=
    Checksum.word_injective ((hlen p).trans (hlen q).symm) (Nat.le_of_eq (hlen p)) h
  have hget (p : Page) : (p.slice 2 4)[i - 2]? = p.toList[i]? := by
    rw [slice_eq, List.getElem?_take, if_pos (by omega), List.getElem?_drop,
      Nat.add_sub_cancel' hi]
  rw [← hget p, ← hget q, hslice]

theorem agreeOutside_flip (p : Page) (i : Nat) (h : i < pageSize) (mask : UInt8) :
    Bytes.AgreeOutside p.toList (p.flip i h mask).toList i (i + 1) := by
  intro j hj
  have hne : i ≠ j := by omega
  simp only [toList, flip, Vector.getElem?_toList, Vector.getElem?_set_ne h hne]

theorem ne_flip (p : Page) (i : Nat) (h : i < pageSize) {mask : UInt8} (hmask : mask ≠ 0) :
    p ≠ p.flip i h mask := by
  intro heq
  have hbyte : p.bytes[i] ^^^ 0 = p.bytes[i] ^^^ mask := by
    have hset := congrArg (fun q : Page => q.bytes[i]) heq
    simpa [flip] using hset
  exact hmask ((UInt8.xor_right_inj _).mp hbyte).symm

namespace Burst

/-- Wherever the byte is. -/
theorem of_flip (p : Page) (i : Nat) (h : i < pageSize) {mask : UInt8} (hmask : mask ≠ 0) :
    Burst p (p.flip i h mask) := by
  have hagree := p.agreeOutside_flip i h mask
  refine ⟨p.ne_flip i h hmask, ?_⟩
  by_cases hplace : 2 ≤ i ∧ i < 6
  · exact Or.inr fun j hj => hagree j (by omega)
  · exact Or.inl ⟨i, i + 1, by omega, by omega, hagree⟩

/-- A burst outside the place of the checksum changes the checksum that the page should carry. -/
theorem checksum_ne {first last : Nat} (hne : p ≠ q) (hlast : last ≤ first + 4)
    (hplace : last ≤ 2 ∨ 6 ≤ first) (h : Bytes.AgreeOutside p.toList q.toList first last) :
    p.checksum ≠ q.checksum := by
  have hagree : Bytes.AgreeOutside p.checked q.checked first last := by
    intro i hi
    rw [getElem?_checked, getElem?_checked, h i hi]
  have hchecked : p.checked ≠ q.checked := by
    intro heq
    apply hne
    apply eq_of_getElem?
    intro i
    by_cases hi : 2 ≤ i ∧ i < 6
    · exact h i (by omega)
    · have hget := congrArg (fun l : Bytes => l[i]?) heq
      simpa only [getElem?_checked, if_neg hi] using hget
  rw [checksum_eq, checksum_eq]
  exact hagree.crc32_ne hlast (p.length_checked.trans q.length_checked.symm) hchecked

/-- A page that carried its checksum does not carry it after a burst. -/
theorem storedChecksum_ne (h : Burst p q) (hp : p.storedChecksum = p.checksum) :
    q.storedChecksum ≠ q.checksum := by
  intro hq
  rcases h.confined with ⟨first, last, hlast, hplace, hagree⟩ | hagree
  · -- the carried checksum has stayed, the other has not
    have hstored : p.storedChecksum = q.storedChecksum := by
      apply storedChecksum_eq
      intro i hi hend
      exact hagree i (by omega)
    exact checksum_ne h.ne hlast hplace hagree (by rw [← hp, hstored, hq])
  · -- the other has stayed, and so the carried one has too
    have hchecked : p.checked = q.checked := by
      apply List.ext_getElem?
      intro i
      rw [getElem?_checked, getElem?_checked]
      by_cases hi : 2 ≤ i ∧ i < 6
      · rw [if_pos hi, if_pos hi]
      · rw [if_neg hi, if_neg hi, hagree i (by omega)]
    have hstored : p.storedChecksum = q.storedChecksum := by
      rw [hp, hq, checksum_eq, checksum_eq, hchecked]
    apply h.ne
    apply eq_of_getElem?
    intro i
    by_cases hi : 2 ≤ i ∧ i < 6
    · exact getElem?_of_storedChecksum_eq hstored i hi.1 hi.2
    · exact hagree i (by omega)

/-- Sealing changes a page that does not carry its checksum in the place of the checksum only. -/
theorem of_unsealed (hp : p.storedChecksum ≠ p.checksum) : Burst p p.sealed := by
  refine ⟨fun heq => hp ?_, Or.inr fun i hi => (getElem?_withChecksum p _ hi).symm⟩
  rw [heq]
  exact storedChecksum_sealed p

end Burst

end Page

end RangeStore
