import RangeStore.Proofs.Page.Burst
import RangeStore.Proofs.Storage.History
set_option autoImplicit false

/-! # Damaged pages are refused

A file that is in use counts its superblock (`PageFile.InUse.pageCount_ne_zero`), so what is put has
a page of its own, and this page carries the checksum that the node's page carries. For a node that
was drafted it is the right one. If the bytes in the file are then changed by a burst, it is so no
longer, and where checksums are verified that is what is found: no node, and no other error
(`PageFile.InUse.fetch_burst`).

A node that was read from a page may carry any checksum, since reading does not look at it
(`Node.ofPage_withChecksum`) and `put` neither seals the page nor judges it. Here a burst may do the
opposite, and set right what was wrong when it was put (`PageFile.fetch_of_sealed`). -/

namespace RangeStore

theorem Page.verify_eq_ok_iff {p : Page} : p.verify = .ok () ↔ p.storedChecksum = p.checksum := by
  unfold Page.verify
  by_cases h : p.storedChecksum = p.checksum
  · simp [h]
  · simp [h]

/-- The page of a draft's node carries its checksum, whatever the draft holds. -/
theorem NodeDraft.verify_finish (d : NodeDraft) : d.finish.page.verify = .ok () :=
  Page.verify_eq_ok_iff.mpr (Page.storedChecksum_sealed _)

namespace Node

variable {p : Page} {kind : NodeKind} {cellsStart : Nat} (sum : UInt32)

/-- Where cells begin behind the list of positions, none lies on the place of the checksum. -/
theorem readCell?_withChecksum (h : slotsStart ≤ cellsStart) (slot : Nat) :
    readCell? (p.withChecksum sum) kind cellsStart slot = readCell? p kind cellsStart slot := by
  have hstart : slotsStart = 10 := rfl
  have hoffset := p.word_withChecksum sum (show 6 ≤ slotsStart + 2 * slot by omega) 2
  unfold readCell?
  rw [hoffset]
  by_cases hbefore : p.word (slotsStart + 2 * slot) 2 < cellsStart
  · rw [if_pos (Or.inl hbefore), if_pos (Or.inl hbefore)]
  · have hword (skipped : Nat) := p.word_withChecksum sum
      (show 6 ≤ p.word (slotsStart + 2 * slot) 2 + skipped by omega)
    have hslice (skipped : Nat) := p.slice_withChecksum sum
      (show 6 ≤ p.word (slotsStart + 2 * slot) 2 + skipped by omega)
    have hfirst := hword 0
    rw [Nat.add_zero] at hfirst
    simp only [hfirst, hword, hslice, Nat.add_assoc]

theorem readCells_withChecksum (h : slotsStart ≤ cellsStart) (slot count : Nat) :
    readCells (p.withChecksum sum) kind cellsStart slot count =
      readCells p kind cellsStart slot count := by
  induction count generalizing slot with
  | zero => rfl
  | succ count ih => rw [readCells, readCells, readCell?_withChecksum sum h, ih]

/-- The checksum is not looked at when a page is read as a node. -/
theorem ofPage_withChecksum (p : Page) :
    ofPage (p.withChecksum sum) =
      (ofPage p).map fun n => { n with page := p.withChecksum sum } := by
  have hcount := p.word_withChecksum sum (show 6 ≤ 8 by decide) 2
  unfold ofPage
  rw [Page.kind_withChecksum, hcount]
  cases p.kind with
  | error e => rfl
  | ok kind =>
    dsimp only
    split
    · rfl
    · -- cells are looked for behind the list of positions, and that begins behind the checksum
      rw [readCells_withChecksum sum (Nat.le_add_right _ _)]
      cases readCells p kind (slotsStart + 2 * p.word 8 2) 0 (p.word 8 2) <;> rfl

end Node

namespace PageFile

variable {f f' : PageFile} {id : PageId} {n : Node}

/-! ## Files in use -/

/-- The page files that a program can have open: each was made or opened and then used in any way,
with success or without. Others may change the bytes of the file at any time. -/
inductive InUse : PageFile → Prop
  | create {path : String} {found : Option File} {f : PageFile} (h : create path found = .ok f) :
      InUse f
  | load {found : Option File} {f : PageFile} (h : load found = .ok f) : InUse f
  | setVerify {f : PageFile} (before : InUse f) (verify : Bool) : InUse { f with verify := verify }
  | put {f : PageFile} (before : InUse f) (n : Node) : InUse (f.put n).2
  | allocate {f f' : PageFile} {count : UInt64} {first : PageId} (before : InUse f)
      (h : f.allocate count = .ok (first, f')) : InUse f'
  | writePage {f f' : PageFile} {id : PageId} {page : Page} (before : InUse f)
      (h : f.writePage id page = .ok f') : InUse f'
  | commitRoot {f : PageFile} (before : InUse f) (root : PageId) : InUse (f.commitRoot root).2
  | writeSuperblock {f f' : PageFile} (before : InUse f) (h : f.writeSuperblock = .ok f') : InUse f'
  | change {f : PageFile} (before : InUse f) (file : File) : InUse { f with file := file }

theorem Grows.pageCount_ne_zero {count : Nat} (h : f.Grows count f') (hf : f.pageCount ≠ 0) :
    f'.pageCount ≠ 0 := by
  intro hzero
  apply hf
  have hcount := h.count_eq
  rw [hzero] at hcount
  apply UInt64.toNat_inj.mp
  show f.pageCount.toNat = 0
  have hnone : (0 : UInt64).toNat = 0 := rfl
  omega

/-- A root that is committed is no page, whether the superblock can be written or not. -/
theorem pageCount_commitRoot (f : PageFile) (root : PageId) :
    (f.commitRoot root).2.pageCount = f.pageCount := by
  unfold commitRoot
  dsimp only
  split
  · rfl
  · next written hwritten =>
    rw [writeSuperblock_eq_ok hwritten]
    rfl

/-- A file in use counts its superblock among its pages. -/
theorem InUse.pageCount_ne_zero (h : f.InUse) : f.pageCount ≠ 0 := by
  induction h with
  | create hcreate => exact sound_create hcreate
  | load hload => exact sound_load hload
  | setVerify _ _ ih => exact ih
  | @put f _ n ih =>
    rcases f.put_grows n with hsame | hgrows
    · rwa [hsame]
    · exact hgrows.pageCount_ne_zero ih
  | allocate _ hallocate ih => exact (grows_allocate hallocate).2.pageCount_ne_zero ih
  | writePage _ hwrite ih =>
    rw [writePage_eq_ok hwrite]
    exact ih
  | commitRoot _ root ih => rwa [pageCount_commitRoot]
  | writeSuperblock _ hwrite ih =>
    rw [writeSuperblock_eq_ok hwrite]
    exact ih
  | change _ _ ih => exact ih

/-! ## Damage -/

/-- Any node can be put into a new file, which verifies checksums. -/
theorem exists_put_create (n : Node) :
    ∃ f f', PageFile.create "a" none = .ok f ∧ f.verify = true ∧ f.put n = (.ok 1, f') := by
  obtain ⟨f, hcreate⟩ : ∃ f, PageFile.create "a" none = .ok f := ⟨_, rfl⟩
  have hcount : f.pageCount = 1 ∧ f.verify = true := by
    obtain rfl := Except.ok.inj hcreate
    exact ⟨rfl, rfl⟩
  obtain ⟨f', hput⟩ := put_of_room (f := f) (by rw [hcount.1]; decide) n
  rw [hcount.1] at hput
  exact ⟨f, f', hcreate, hcount.2, hput⟩

/-- A page that can be read can be written, and then read as it was written. -/
theorem writePage_of_readPage {page : Page} (h : f.readPage id = .ok page) (written : Page) :
    f.writePage id written = .ok { f with file := f.file.writePage id.toNat written } ∧
      ({ f with file := f.file.writePage id.toNat written } : PageFile).readPage id =
        .ok written := by
  obtain ⟨hcount, hposition, -, -⟩ := readPage_eq_ok h
  constructor
  · rw [writePage, pageNumber_eq_ok hcount hposition]
  · refine readPage_of_page hcount hposition (Nat.le_max_right _ _) ?_
    rw [File.page_writePage, if_pos rfl]

/-- Where checksums are verified, a page that does not carry its own is refused for this reason,
whatever else is wrong with it. -/
theorem fetch_of_storedChecksum_ne {page : Page} (hverify : f.verify = true) (hid : id ≠ 0)
    (hread : f.readPage id = .ok page) (hsum : page.storedChecksum ≠ page.checksum) :
    f.fetch id = .error (.checksumMismatch id page.storedChecksum page.checksum) := by
  simp only [fetch, if_neg hid, hread]
  exact if_pos ⟨hverify, hsum⟩

/-- Checksums catch every burst. A node that was put is on its page as it is, and this page carries
its checksum if the node was drafted. Let the page carry its checksum and then be changed by a
burst: it can be written to the file, and every file with verification on that has these bytes
there, however it came to have them, refuses the page for its checksum. A page that did not carry
its checksum in the first place is refused as it is. -/
theorem InUse.fetch_burst (hf : f.InUse) (hput : f.put n = (.ok id, f')) :
    f'.readPage id = .ok n.page ∧
      (∀ d : NodeDraft, n = d.finish → n.page.verify = .ok ()) ∧
      (n.page.verify = .ok () → ∀ q, Page.Burst n.page q →
        (∃ damaged, f'.writePage id q = .ok damaged ∧ damaged.readPage id = .ok q ∧
          damaged.verify = f.verify) ∧
        ∀ g : PageFile, g.verify = true → g.readPage id = .ok q →
          g.fetch id = .error (.checksumMismatch id q.storedChecksum q.checksum)) ∧
      (n.page.verify ≠ .ok () → ∀ g : PageFile, g.verify = true → g.readPage id = .ok n.page →
        g.fetch id = .error (.checksumMismatch id n.page.storedChecksum n.page.checksum)) := by
  obtain ⟨hcount, hgrows, -⟩ := grows_put hput
  have hid : id ≠ 0 := hcount ▸ hf.pageCount_ne_zero
  have hread := readPage_put hput
  refine ⟨hread, ?_, ?_, ?_⟩
  · rintro d rfl
    exact d.verify_finish
  · intro hn q hburst
    have hsum := hburst.storedChecksum_ne (Page.verify_eq_ok_iff.mp hn)
    obtain ⟨hwrite, hwritten⟩ := writePage_of_readPage hread q
    exact ⟨⟨_, hwrite, hwritten, hgrows.verify_eq⟩, fun g hverify hq =>
      fetch_of_storedChecksum_ne hverify hid hq hsum⟩
  · intro hn g hverify hq
    exact fetch_of_storedChecksum_ne hverify hid hq fun hsum => hn (Page.verify_eq_ok_iff.mpr hsum)

/-- One bit of a leaf is turned over in the file, wherever it is. -/
theorem fetch_burst_flip :
    ∃ f f' : PageFile, f.InUse ∧ f.put (draftOf .leaf 1).finish = (.ok 1, f') ∧
      ∀ (i : Nat) (h : i < pageSize), ∃ q damaged,
        q = (draftOf .leaf 1).finish.page.flip i h 1 ∧ f'.writePage 1 q = .ok damaged ∧
        damaged.fetch 1 = .error (.checksumMismatch 1 q.storedChecksum q.checksum) := by
  obtain ⟨f, f', hcreate, hon, hput⟩ := exists_put_create (draftOf .leaf 1).finish
  obtain ⟨-, hdraft, hburst, -⟩ := (InUse.create hcreate).fetch_burst hput
  refine ⟨f, f', .create hcreate, hput, fun i h => ?_⟩
  obtain ⟨⟨damaged, hwrite, hread, hverify⟩, hfetch⟩ :=
    hburst (hdraft _ rfl) _ (Page.Burst.of_flip _ i h (by decide : (1 : UInt8) ≠ 0))
  exact ⟨_, damaged, rfl, hwrite, hfetch damaged (hverify.trans hon) hread⟩

/-- A page with any checksum is read as a node. So a node whose page does not carry its own is put
like others, and once the right one stands in its place in the file, the node is found. -/
theorem fetch_of_sealed (hid : id ≠ 0) (hnode : Node.ofPage n.page = .ok n)
    (hread : f.readPage id = .ok n.page.sealed) :
    f.fetch id = .ok { n with page := n.page.sealed } := by
  have hsealed : Node.ofPage n.page.sealed = .ok { n with page := n.page.sealed } := by
    rw [Page.sealed, Node.ofPage_withChecksum, hnode]
    rfl
  have hsum : ¬(f.verify ∧ n.page.sealed.storedChecksum ≠ n.page.sealed.checksum) :=
    fun hboth => hboth.2 (Page.storedChecksum_sealed _)
  simp only [fetch, if_neg hid, hread, if_neg hsum, hsealed]

/-- The page of this empty leaf carries a checksum that is too great by one. The burst that sets it
right is not noticed. -/
theorem fetch_unsealed :
    let n : Node := ⟨.leaf, #[], (NodeDraft.image .leaf []).withChecksum
      ((NodeDraft.image .leaf []).checksum + 1)⟩
    Node.ofPage n.page = .ok n ∧ Page.Burst n.page n.page.sealed ∧
      ∃ f f' changed, PageFile.create "a" none = .ok f ∧ f.put n = (.ok 1, f') ∧
        f'.writePage 1 n.page.sealed = .ok changed ∧ changed.verify = true ∧
        changed.fetch 1 = .ok { n with page := n.page.sealed } := by
  intro n
  -- the page is that of an empty draft, but for its checksum
  have hnode : Node.ofPage n.page = .ok n := by
    have hempty := (NodeDraft.sound_empty .leaf).ofPage_finish
    rw [Node.ofPage_withChecksum]
    exact congrArg _ hempty
  have hunsealed : n.page.storedChecksum ≠ n.page.checksum := by
    rw [Page.storedChecksum_withChecksum, Page.checksum_withChecksum]
    simp
  obtain ⟨f, f', hcreate, hon, hput⟩ := exists_put_create n
  -- the burst is the sealing that was left out when the page was put
  obtain ⟨hwrite, hread⟩ := writePage_of_readPage (readPage_put hput) n.page.sealed
  exact ⟨hnode, .of_unsealed hunsealed, f, f', _, hcreate, hput, hwrite,
    (grows_put hput).2.1.verify_eq.trans hon, fetch_of_sealed (by decide) hnode hread⟩

end PageFile

end RangeStore
