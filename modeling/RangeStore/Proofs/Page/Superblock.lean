import RangeStore.Page.Superblock
import RangeStore.Proofs.Page.Burst
import RangeStore.Proofs.Page.Region
set_option autoImplicit false

/-! # Superblocks are read back

What a page says in the places of a superblock's fields is `Superblock.fields`. A page is accepted
exactly if it begins with the letters, carries the checksum of its first 32 bytes, and its fields
are acceptable (`Superblock.ofPage_eq_ok_iff`). A superblock that was written has its own fields on
its page, so only its version, page size and root can be in the way
(`Superblock.ofPage_toPage_eq`), and an accepted page begins with the bytes that are written for
what was read from it. The 36 bytes of a superblock with its checksum have the checksum of every
such string, and after a burst in them they have not, wherever the burst lies
(`Superblock.ofPage_of_burst`). The three together are `Superblock.ofPage_faithful`. -/

namespace RangeStore

namespace Superblock

theorem length_body (s : Superblock) : s.body.length = 32 := by
  simp only [body, List.length_append, Bytes.length_little]
  rfl

/-- What stands on the page of a superblock: the fields one after the other, and the checksum. -/
theorem bytesAt_toPage (s : Superblock) :
    s.toPage.BytesAt 0 (s.body ++ Bytes.little 4 (Checksum.crc32 s.body).toNat) := by
  refine Page.bytesAt_ofList ?_
  rw [List.length_append, length_body, Bytes.length_little]
  decide

/-! ## The fields of a page -/

/-- What a page says in the places of the fields. -/
def fields (p : Page) : Superblock where
  version := UInt32.ofNat (p.word 8 4)
  pageSize := UInt32.ofNat (p.word 12 4)
  pageCount := UInt64.ofNat (p.word 16 8)
  root := UInt64.ofNat (p.word 24 8)

theorem fields_toPage (s : Superblock) : fields s.toPage = s := by
  have hbody := s.bytesAt_toPage.left
  have hversion := hbody.left.left.left.right
  have hsize := hbody.left.left.right
  have hcount := hbody.left.right
  have hroot := hbody.right
  simp only [List.length_append, Bytes.length_little] at hsize hcount hroot
  have hw : UInt32.ofNat (s.toPage.word 8 4) = s.version := hversion.word32
  have hp : UInt32.ofNat (s.toPage.word 12 4) = s.pageSize := hsize.word32
  have hc : UInt64.ofNat (s.toPage.word 16 8) = s.pageCount := hcount.word64
  have hr : UInt64.ofNat (s.toPage.word 24 8) = s.root := hroot.word64
  rw [fields, hw, hp, hc, hr]

theorem slice_magic_toPage (s : Superblock) : s.toPage.slice 0 8 = magic :=
  s.bytesAt_toPage.left.left.left.left.left.slice

theorem slice_body_toPage (s : Superblock) : s.toPage.slice 0 32 = s.body := by
  have hslice := s.bytesAt_toPage.left.slice
  rwa [length_body] at hslice

theorem word_checksum_toPage (s : Superblock) :
    UInt32.ofNat (s.toPage.word 32 4) = Checksum.crc32 s.body := by
  have hright := s.bytesAt_toPage.right
  rw [length_body] at hright
  exact hright.word32

/-- The fields of a page with the right letters write the bytes that they were read from. -/
theorem body_fields {p : Page} (hmagic : p.slice 0 8 = magic) : (fields p).body = p.slice 0 32 := by
  have hsplit : p.slice 0 32 =
      p.slice 0 8 ++ p.slice 8 4 ++ p.slice 12 4 ++ p.slice 16 8 ++ p.slice 24 8 := by
    rw [p.slice_add 0 24 8, p.slice_add 0 16 8, p.slice_add 0 12 4, p.slice_add 0 8 4]
  calc (fields p).body
      = magic ++ Bytes.little 4 (UInt32.ofNat (p.word 8 4)).toNat ++
          Bytes.little 4 (UInt32.ofNat (p.word 12 4)).toNat ++
          Bytes.little 8 (UInt64.ofNat (p.word 16 8)).toNat ++
          Bytes.little 8 (UInt64.ofNat (p.word 24 8)).toNat := rfl
    _ = p.slice 0 32 := by
        rw [Page.little_word32 (by decide), Page.little_word32 (by decide),
          Page.little_word64 (by decide), Page.little_word64 (by decide), hsplit, hmagic]

/-! ## What is accepted -/

/-- The checks, in their order. -/
theorem ofPage_eq (p : Page) :
    ofPage p =
      if p.slice 0 8 ≠ magic then .error (.invalidMagic (p.slice 0 8))
      else if UInt32.ofNat (p.word 32 4) ≠ Checksum.crc32 (p.slice 0 32) then
        .error (.checksumMismatch (UInt32.ofNat (p.word 32 4)) (Checksum.crc32 (p.slice 0 32)))
      else if (fields p).version ≠ 1 then .error (.unsupportedVersion (fields p).version)
      else if (fields p).pageSize ≠ 8192 then .error (.invalidPageSize (fields p).pageSize)
      else if (fields p).pageCount ≤ (fields p).root then
        .error (.invalidRoot (fields p).root (fields p).pageCount)
      else .ok (fields p) := rfl

theorem ofPage_eq_ok_iff {p : Page} {s : Superblock} :
    ofPage p = .ok s ↔
      p.slice 0 8 = magic ∧
      UInt32.ofNat (p.word 32 4) = Checksum.crc32 (p.slice 0 32) ∧
      (s.version = 1 ∧ s.pageSize = 8192 ∧ s.root < s.pageCount) ∧ fields p = s := by
  rw [ofPage_eq]
  constructor
  · intro h
    split_ifs at h with hmagic hsum hversion hsize hroot
    obtain rfl := Except.ok.inj h
    exact ⟨not_not.mp hmagic, not_not.mp hsum,
      ⟨not_not.mp hversion, not_not.mp hsize, UInt64.not_le.mp hroot⟩, rfl⟩
  · rintro ⟨hmagic, hsum, ⟨hversion, hsize, hroot⟩, rfl⟩
    rw [if_neg (not_not_intro hmagic), if_neg (not_not_intro hsum),
      if_neg (not_not_intro hversion), if_neg (not_not_intro hsize),
      if_neg (UInt64.not_le.mpr hroot)]

/-- A superblock of the right version and page size is read from its page, and then refused exactly
if its root lies behind the last page. -/
theorem ofPage_toPage_eq {s : Superblock} (hversion : s.version = 1) (hsize : s.pageSize = 8192) :
    ofPage s.toPage =
      if s.pageCount ≤ s.root then .error (.invalidRoot s.root s.pageCount) else .ok s := by
  rw [ofPage_eq, s.slice_magic_toPage, if_neg (not_not_intro rfl), s.word_checksum_toPage,
    s.slice_body_toPage, if_neg (not_not_intro rfl), s.fields_toPage,
    if_neg (not_not_intro hversion), if_neg (not_not_intro hsize)]

/-- A superblock that is accepted was written on its page. -/
theorem ofPage_toPage {s : Superblock} (hversion : s.version = 1) (hsize : s.pageSize = 8192)
    (hroot : s.root < s.pageCount) : ofPage s.toPage = .ok s := by
  rw [ofPage_toPage_eq hversion hsize, if_neg (UInt64.not_le.mpr hroot)]

/-! ## The first 36 bytes -/

theorem slice_toPage (s : Superblock) :
    s.toPage.slice 0 36 = s.body ++ Bytes.little 4 (Checksum.crc32 s.body).toNat := by
  have hslice := s.bytesAt_toPage.slice
  rwa [List.length_append, length_body, Bytes.length_little] at hslice

/-- A page that is accepted begins with the bytes that are written for what it says. -/
theorem slice_of_ofPage {p : Page} {s : Superblock} (h : ofPage p = .ok s) :
    p.slice 0 36 = s.toPage.slice 0 36 := by
  obtain ⟨hmagic, hsum, -, rfl⟩ := ofPage_eq_ok_iff.mp h
  calc p.slice 0 36
      = p.slice 0 32 ++ p.slice 32 4 := p.slice_add 0 32 4
    _ = p.slice 0 32 ++ Bytes.little 4 (UInt32.ofNat (p.word 32 4)).toNat := by
        rw [Page.little_word32 (by decide)]
    _ = (fields p).toPage.slice 0 36 := by rw [hsum, slice_toPage, body_fields hmagic]

/-- Nothing behind them is looked at. -/
theorem ofPage_congr {p q : Page} (h : p.slice 0 36 = q.slice 0 36) : ofPage p = ofPage q := by
  have hslice (offset count : Nat) (hle : offset + count ≤ 36) :
      p.slice offset count = q.slice offset count := by
    have hcut (p : Page) : p.slice offset count = ((p.slice 0 36).drop offset).take count := by
      rw [Page.slice_eq, Page.slice_eq, List.drop_zero, List.drop_take, List.take_take,
        Nat.min_eq_left (by omega)]
    rw [hcut p, hcut q, h]
  have hfields : fields p = fields q := by
    simp only [fields, Page.word, hslice 8 4 (by decide), hslice 12 4 (by decide),
      hslice 16 8 (by decide), hslice 24 8 (by decide)]
  rw [ofPage_eq, ofPage_eq, Page.word, Page.word, hslice 0 8 (by decide), hslice 32 4 (by decide),
    hslice 0 32 (by decide), hfields]

/-- The first 36 bytes of a page have the checksum of every string that is followed by its own
exactly if the page carries the checksum of the first 32. -/
theorem crc32_slice_eq_residue_iff (p : Page) :
    Checksum.crc32 (p.slice 0 36) = Checksum.residue ↔
      UInt32.ofNat (p.word 32 4) = Checksum.crc32 (p.slice 0 32) := by
  rw [p.slice_add 0 32 4]
  exact Checksum.crc32_append_eq_residue_iff (Page.length_slice (by decide)) (p.slice 0 32)

/-! ## Damage -/

/-- A burst in the first 36 bytes of a superblock's page is found: the page is refused for its
letters or for its checksum, whatever the superblock says and wherever the burst lies. -/
theorem ofPage_of_burst {s : Superblock} {q : Page} {first last : Nat} (hne : q ≠ s.toPage)
    (hwidth : last ≤ first + 4) (hend : last ≤ 36)
    (hagree : Bytes.AgreeOutside s.toPage.toList q.toList first last) :
    ofPage q =
      if q.slice 0 8 ≠ magic then .error (.invalidMagic (q.slice 0 8))
      else .error
        (.checksumMismatch (UInt32.ofNat (q.word 32 4)) (Checksum.crc32 (q.slice 0 32))) := by
  have hslice (p : Page) : p.slice 0 36 = p.toList.take 36 := p.slice_eq 0 36
  have hfront : s.toPage.slice 0 36 ≠ q.slice 0 36 := by
    intro heq
    apply hne
    apply Page.eq_of_getElem?
    intro i
    by_cases hi : i < 36
    · -- the byte is one of the first 36
      rw [hslice, hslice] at heq
      have hget := congrArg (fun l : Bytes => l[i]?) heq
      simp only [List.getElem?_take, if_pos hi] at hget
      exact hget.symm
    · exact (hagree i (by omega)).symm
  have hcrc : Checksum.crc32 (s.toPage.slice 0 36) ≠ Checksum.crc32 (q.slice 0 36) := by
    have hlen : (s.toPage.slice 0 36).length = (q.slice 0 36).length := by
      rw [Page.length_slice (by decide), Page.length_slice (by decide)]
    rw [hslice, hslice] at hfront hlen ⊢
    exact (hagree.take 36).crc32_ne hwidth hlen hfront
  have hsum : UInt32.ofNat (q.word 32 4) ≠ Checksum.crc32 (q.slice 0 32) := by
    intro hsum
    apply hcrc
    rw [(crc32_slice_eq_residue_iff q).mpr hsum, crc32_slice_eq_residue_iff, word_checksum_toPage,
      slice_body_toPage]
  rw [ofPage_eq, if_pos hsum]

/-- Superblocks are read back as they were written, and damage is found. A superblock is read from
its page exactly if it is of the one version and page size that there are and counts its root among
the pages. It is read from those pages, and no others, that begin with the 36 bytes that are written
for it. And whatever the superblock says, a page that differs from its page in up to four
consecutive bytes among the first 36, and nowhere else, is refused for its letters or, if it has
them, for its checksum. -/
theorem ofPage_faithful :
    (∀ s : Superblock,
      ofPage s.toPage = .ok s ↔ s.version = 1 ∧ s.pageSize = 8192 ∧ s.root < s.pageCount) ∧
    (∀ (p : Page) (s : Superblock), ofPage p = .ok s ↔
      (s.version = 1 ∧ s.pageSize = 8192 ∧ s.root < s.pageCount) ∧
      p.toList.take 36 = s.toPage.toList.take 36) ∧
    ∀ (s : Superblock) (q : Page) (first last : Nat), q ≠ s.toPage → last ≤ first + 4 →
      last ≤ 36 → Bytes.AgreeOutside s.toPage.toList q.toList first last →
        (q.slice 0 8 ≠ magic ∧ ofPage q = .error (.invalidMagic (q.slice 0 8))) ∨
        (q.slice 0 8 = magic ∧ ofPage q = .error
          (.checksumMismatch (UInt32.ofNat (q.word 32 4)) (Checksum.crc32 (q.slice 0 32)))) := by
  refine ⟨fun s => ⟨fun h => (ofPage_eq_ok_iff.mp h).2.2.1, ?_⟩, fun p s => ⟨?_, ?_⟩, ?_⟩
  · rintro ⟨hversion, hsize, hroot⟩
    exact ofPage_toPage hversion hsize hroot
  · intro h
    have hslice := slice_of_ofPage h
    rw [Page.slice_eq, Page.slice_eq] at hslice
    exact ⟨(ofPage_eq_ok_iff.mp h).2.2.1, hslice⟩
  · rintro ⟨⟨hversion, hsize, hroot⟩, hfront⟩
    have hslice : p.slice 0 36 = s.toPage.slice 0 36 := by
      rw [Page.slice_eq, Page.slice_eq]
      exact hfront
    rw [ofPage_congr hslice]
    exact ofPage_toPage hversion hsize hroot
  · intro s q first last hne hwidth hend hagree
    have hburst := ofPage_of_burst hne hwidth hend hagree
    by_cases hmagic : q.slice 0 8 = magic
    · rw [if_neg (not_not_intro hmagic)] at hburst
      exact Or.inr ⟨hmagic, hburst⟩
    · rw [if_pos hmagic] at hburst
      exact Or.inl ⟨hmagic, hburst⟩

/-- A superblock of two pages, the second of them the root, is read back, and so it is where a byte
behind the first 36 is another one. No bits of the bytes before can be turned over. -/
theorem ofPage_faithful_two_pages :
    ∃ s : Superblock, s.pageCount = 2 ∧ s.root = 1 ∧ ofPage s.toPage = .ok s ∧
      ofPage (s.toPage.flip 36 (by decide) 1) = .ok s ∧
      ∀ (i : Nat) (h : i < RangeStore.pageSize), i < 36 → ∀ mask : UInt8, mask ≠ 0 →
        ∃ e, ofPage (s.toPage.flip i h mask) = .error e := by
  obtain ⟨hback, hfront, hburst⟩ := ofPage_faithful
  refine ⟨{ pageCount := 2, root := 1 }, rfl, rfl, (hback _).mpr (by decide),
    (hfront _ _).mpr ⟨by decide, ?_⟩, ?_⟩
  · exact ((Page.agreeOutside_flip _ 36 (by decide) 1).take_eq).symm
  · intro i h hi mask hmask
    have hagree := Page.agreeOutside_flip (toPage { pageCount := 2, root := 1 }) i h mask
    rcases hburst _ _ i (i + 1) (Page.ne_flip _ i h hmask).symm (by omega) hi hagree with
      ⟨-, herror⟩ | ⟨-, herror⟩
    · exact ⟨_, herror⟩
    · exact ⟨_, herror⟩

end Superblock

end RangeStore
