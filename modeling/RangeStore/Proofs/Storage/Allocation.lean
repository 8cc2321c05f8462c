import RangeStore.Proofs.Storage.History
set_option autoImplicit false

/-! # What stands on new pages

New pages are given out by the number of pages that is counted, and the file gets the length that
belongs to it. Where this makes the file longer it ends in zeros. But a file that was opened again
may be longer than its superblock says, and then its bytes stay: a node that was put and forgotten
stands on the page with its id when this page is given out again
(`PageFile.readPage_allocate_forgotten`).

What a file holds is known from the steps of its run (`PageFile.ledger`): a page holds the node that
was put there last, or zeros if the file has ended before it since (`PageFile.Run.tallies`). This
settles what stands on a new page, and a new page stays as it is until it is written or the file is
cut off before it (`PageFile.Run.readPage_allocated`). -/

namespace RangeStore

namespace File

/-! ## Behind the end -/

/-- Behind the end of the file are zeros. -/
def Trim (f : File) : Prop := ∀ number, f.size ≤ number * pageSize → f.page number = .zero

theorem trim_empty : empty.Trim := fun number _ => page_empty number

theorem Trim.writePage {f : File} (hf : f.Trim) (number : Nat) (p : Page) :
    (f.writePage number p).Trim := by
  intro other hother
  rw [size_writePage] at hother
  have hold : f.size ≤ other * pageSize := Nat.le_trans (Nat.le_max_left _ _) hother
  have hnew : (number + 1) * pageSize ≤ other * pageSize :=
    Nat.le_trans (Nat.le_max_right _ _) hother
  have hne : number ≠ other := by
    rintro rfl
    exact absurd (Nat.le_of_mul_le_mul_right hnew (by decide)) (Nat.not_succ_le_self number)
  rw [page_writePage, if_neg hne, hf other hold]

/-- Nothing is kept of a page that begins behind the new end. -/
theorem page_resize_of_le {f : File} (hf : f.Trim) {length number : Nat}
    (h : length ≤ number * pageSize) : (f.resize length).page number = .zero := by
  by_cases hsize : f.size ≤ length
  · have hkeep : f.keep length = f := if_pos hsize
    show (f.keep length).page number = .zero
    rw [hkeep, hf number (Nat.le_trans hsize h)]
  · have hkeep : f.keep length = ⟨length, f.written.filterMap (cutPage length)⟩ := if_neg hsize
    have hcut (p : Page) : cutPage length number p = none := by
      have hend : ¬ (number + 1) * pageSize ≤ length := by
        rw [Nat.add_mul]
        have hpos : 0 < 1 * pageSize := by decide
        omega
      rw [cutPage, if_neg hend, if_neg (Nat.not_lt.mpr h)]
    show (f.keep length).page number = .zero
    rw [hkeep, page]
    simp only [Std.TreeMap.getElem?_filterMap']
    cases f.written[number]? with
    | none => rfl
    | some p => rw [Option.bind_some, hcut, Option.getD_none]

theorem Trim.resize {f : File} (hf : f.Trim) (length : Nat) : (f.resize length).Trim :=
  fun _ h => page_resize_of_le hf h

/-- The file ends with its pages: the first ones stay, behind them is nothing. -/
theorem page_resize_pages {f : File} (hf : f.Trim) (count number : Nat) :
    (f.resize (count * pageSize)).page number =
      if number < count then f.page number else .zero := by
  by_cases h : number < count
  · rw [if_pos h, page_resize f (Nat.mul_le_mul_right pageSize h)]
  · rw [if_neg h, page_resize_of_le hf (Nat.mul_le_mul_right pageSize (Nat.not_lt.mp h))]

end File

namespace PageFile

variable {f f' g : PageFile} {id first : PageId} {n : Node} {count : UInt64} {path : String}
  {steps : List Step} {j : Journal}

/-! ## What each step does to the file -/

theorem trim_create (h : create path none = .ok f) : f.file.Trim := by
  obtain rfl := Except.ok.inj h
  exact File.trim_empty.writePage 0 _

theorem file_load {file : File} (h : load (some file) = .ok f) : f.file = file := by
  simp only [load] at h
  split at h
  · contradiction
  · split at h
    · contradiction
    · rw [← Except.ok.inj h]

/-- A page that is counted still stays, and behind the pages that are counted is nothing. -/
theorem file_allocate (hf : f.file.Trim) (h : f.allocate count = .ok (first, f')) :
    f'.file.Trim ∧ ∀ number, f'.file.page number =
      if number < f.pageCount.toNat + count.toNat then f.file.page number else .zero := by
  obtain ⟨-, hcount, -, hfile, -⟩ := allocate_eq_ok h
  rw [hfile, hcount]
  exact ⟨hf.resize _, File.page_resize_pages hf _⟩

/-- The same, but for the page with the node. -/
theorem file_put (hf : f.file.Trim) (h : f.put n = (.ok id, f')) :
    f'.file.Trim ∧ ∀ number, f'.file.page number =
      if number = f.pageCount.toNat then n.page
      else if number < f.pageCount.toNat then f.file.page number else .zero := by
  obtain ⟨grown, hgrown, rfl⟩ := put_eq_ok h
  obtain ⟨rfl, -⟩ := grows_allocate hgrown
  obtain ⟨htrim, hpages⟩ := file_allocate hf hgrown
  refine ⟨htrim.writePage _ _, fun number => ?_⟩
  have hone : (1 : UInt64).toNat = 1 := rfl
  rw [File.page_writePage, hpages, hone]
  by_cases heq : number = f.pageCount.toNat
  · rw [if_pos heq.symm, if_pos heq]
  · rw [if_neg (Ne.symm heq), if_neg heq]
    by_cases hlt : number < f.pageCount.toNat
    · rw [if_pos hlt, if_pos (by omega)]
    · rw [if_neg hlt, if_neg (by omega)]

/-- Only page 0 is written with the superblock. -/
theorem file_writeSuperblock (hf : f.file.Trim) (h : f.writeSuperblock = .ok f') :
    f'.file.Trim ∧ ∀ number, 0 < number → f'.file.page number = f.file.page number := by
  obtain rfl := writeSuperblock_eq_ok h
  refine ⟨hf.writePage 0 _, fun number hpos => ?_⟩
  rw [File.page_writePage, if_neg (Nat.ne_of_lt hpos)]

theorem file_commitRoot {root : PageId} (hf : f.file.Trim)
    (h : f.commitRoot root = (.ok (), f')) :
    f'.file.Trim ∧ ∀ number, 0 < number → f'.file.page number = f.file.page number :=
  file_writeSuperblock (f := { f with superblock := { f.superblock with root := root } }) hf
    (writeSuperblock_of_commitRoot h)

/-! ## The ledger of a run -/

/-- What is known of a file from the steps of its run: how many pages it counts, how many the
superblock counted when it was written last, and the nodes that it holds. -/
structure Ledger where
  count : Nat := 1
  written : Nat := 1
  /-- The node on the page with a number, or none if the page holds zeros. -/
  node : Nat → Option Node := fun _ => none

namespace Ledger

/-- The ledger after a step. A file that grows ends with the pages that it counts, whatever lay
behind them. -/
def after (l : Ledger) : Step → Ledger
  | .put n =>
    { l with
      count := l.count + 1
      node := fun number =>
        if number = l.count then some n else if number < l.count then l.node number else none }
  | .allocate count =>
    { l with
      count := l.count + count.toNat
      node := fun number => if number < l.count + count.toNat then l.node number else none }
  | .commitRoot _ => { l with written := l.count }
  | .writeSuperblock => { l with written := l.count }
  | .reopen => { l with count := l.written }

/-- What a page holds. -/
def page (l : Ledger) (number : Nat) : Page :=
  match l.node number with
  | none => .zero
  | some n => n.page

variable (l : Ledger) (number : Nat)

theorem node_after_put (n : Node) :
    (l.after (.put n)).node number =
      if number = l.count then some n else if number < l.count then l.node number else none := rfl

theorem page_after_put (n : Node) :
    (l.after (.put n)).page number =
      if number = l.count then n.page else if number < l.count then l.page number else .zero := by
  rw [page, node_after_put]
  split_ifs
  · rfl
  · rfl
  · rfl

theorem node_after_allocate (count : UInt64) :
    (l.after (.allocate count)).node number =
      if number < l.count + count.toNat then l.node number else none := rfl

theorem page_after_allocate (count : UInt64) :
    (l.after (.allocate count)).page number =
      if number < l.count + count.toNat then l.page number else .zero := by
  rw [page, node_after_allocate]
  split_ifs
  · rfl
  · rfl

end Ledger

/-- The ledger of a run. -/
def ledger (steps : List Step) : Ledger := steps.foldr (fun step l => l.after step) {}

/-- The ledger says what the file holds, and the nodes in it are those of the journal that were put
last. -/
structure Tallies (f : PageFile) (j : Journal) (l : Ledger) : Prop where
  count_eq : f.pageCount.toNat = l.count
  written_eq : j.count.toNat = l.written
  trim : f.file.Trim
  page_eq : ∀ number, 0 < number → f.file.page number = l.page number
  lookup_eq : ∀ (id : PageId) (n : Node), l.node id.toNat = some n → j.puts.lookup id = some n

namespace Tallies

variable {l : Ledger}

theorem create (h : PageFile.create path none = .ok f) : f.Tallies {} {} := by
  have htrim := trim_create h
  obtain rfl := Except.ok.inj h
  refine ⟨rfl, rfl, htrim, fun number hpos => ?_, fun _ _ hnode => by cases hnode⟩
  rw [File.page_writePage, if_neg (Nat.ne_of_lt hpos), File.page_empty]
  rfl

theorem put (h : f.Tallies j l) (hput : f.put n = (.ok id, f')) :
    f'.Tallies (j.noted id n) (l.after (.put n)) := by
  obtain ⟨rfl, hgrows, -⟩ := grows_put hput
  obtain ⟨htrim, hpages⟩ := file_put h.trim hput
  refine ⟨by rw [hgrows.count_eq, h.count_eq]; rfl, h.written_eq, htrim, ?_, ?_⟩
  · intro number hpos
    rw [hpages number, h.page_eq number hpos, h.count_eq, Ledger.page_after_put]
  · intro other found hfound
    rw [Ledger.node_after_put] at hfound
    by_cases heq : other = f.pageCount
    · subst heq
      rw [if_pos h.count_eq] at hfound
      rw [Journal.noted, ← Option.some.inj hfound]
      exact List.lookup_cons_self
    · -- the new node has another id, and the ledger's node was there before
      have hne : other.toNat ≠ l.count := fun heq' =>
        heq (UInt64.toNat_inj.mp (heq'.trans h.count_eq.symm))
      rw [if_neg hne] at hfound
      split_ifs at hfound
      rw [Journal.noted, List.lookup_cons, beq_false_of_ne heq]
      exact h.lookup_eq other found hfound

theorem allocate (h : f.Tallies j l) (hallocate : f.allocate count = .ok (first, f')) :
    f'.Tallies j (l.after (.allocate count)) := by
  obtain ⟨-, hgrows⟩ := grows_allocate hallocate
  obtain ⟨htrim, hpages⟩ := file_allocate h.trim hallocate
  refine ⟨by rw [hgrows.count_eq, h.count_eq]; rfl, h.written_eq, htrim, ?_, ?_⟩
  · intro number hpos
    rw [hpages number, h.page_eq number hpos, h.count_eq, Ledger.page_after_allocate]
  · intro other found hfound
    rw [Ledger.node_after_allocate] at hfound
    split_ifs at hfound
    exact h.lookup_eq other found hfound

theorem writeSuperblock (h : f.Tallies j l) (hwrite : f.writeSuperblock = .ok f') :
    f'.Tallies (j.written f') (l.after .writeSuperblock) := by
  obtain ⟨htrim, hpages⟩ := file_writeSuperblock h.trim hwrite
  obtain rfl := writeSuperblock_eq_ok hwrite
  refine ⟨h.count_eq, h.count_eq, htrim, fun number hpos => ?_, h.lookup_eq⟩
  rw [hpages number hpos, h.page_eq number hpos]
  rfl

theorem commitRoot {root : PageId} (h : f.Tallies j l)
    (hcommit : f.commitRoot root = (.ok (), f')) :
    f'.Tallies (j.written f') (l.after (.commitRoot root)) := by
  have hchanged : Tallies { f with superblock := { f.superblock with root := root } } j l :=
    { h with }
  exact hchanged.writeSuperblock (writeSuperblock_of_commitRoot hcommit)

/-- Nothing is cut off when the file is opened again. -/
theorem reopen (h : f.Tallies j l) (hfollows : f.Follows j) (hload : load (some f.file) = .ok f') :
    f'.Tallies j (l.after .reopen) := by
  obtain ⟨rfl, -⟩ := hfollows.reopen hload
  exact ⟨h.written_eq, h.written_eq, h.trim, h.page_eq, h.lookup_eq⟩

end Tallies

/-- Every file holds what the ledger of its run says. -/
theorem Run.tallies (h : Run path steps j f) : f.Tallies j (ledger steps) := by
  induction h with
  | create hcreate => exact Tallies.create hcreate
  | put _ hput ih => exact ih.put hput
  | allocate _ hallocate ih => exact ih.allocate hallocate
  | commitRoot _ hcommit ih => exact ih.commitRoot hcommit
  | writeSuperblock _ hwrite ih => exact ih.writeSuperblock hwrite
  | reopen before hload ih => exact ih.reopen before.follows hload

/-! ## Nothing is forgotten between two openings -/

/-- Whether the step gives the file a new length. -/
def Step.resizes : Step → Bool
  | .put _ => true
  | .allocate _ => true
  | _ => false

/-- If the file was not opened again since it last grew, it holds nothing behind the pages that it
counts. -/
theorem node_ledger_of_not_reopened
    (h : Step.reopen ∉ steps.takeWhile fun step => !step.resizes) {number : Nat}
    (hnumber : (ledger steps).count ≤ number) : (ledger steps).node number = none := by
  induction steps with
  | nil => rfl
  | cons step steps ih =>
    rw [ledger, List.foldr_cons] at hnumber ⊢
    cases step with
    | put n =>
      have hlt : (ledger steps).count < number := hnumber
      exact (if_neg (Nat.ne_of_gt hlt)).trans (if_neg (Nat.lt_asymm hlt))
    | allocate count => exact if_neg (Nat.not_lt.mpr hnumber)
    | commitRoot root => exact ih (fun hmem => h (List.mem_cons_of_mem _ hmem)) hnumber
    | writeSuperblock => exact ih (fun hmem => h (List.mem_cons_of_mem _ hmem)) hnumber
    | reopen => exact absurd (List.mem_cons_self ..) h

/-! ## Pages that are not written -/

/-- The steps that lead from one file to another, when none of them writes the page. -/
inductive Spares (id : PageId) (f : PageFile) : PageFile → Prop
  | refl : Spares id f f
  | put {g g' : PageFile} {n : Node} {other : PageId} (before : Spares id f g)
      (h : g.put n = (.ok other, g')) (hne : other ≠ id) : Spares id f g'
  | allocate {g g' : PageFile} {count : UInt64} {first : PageId} (before : Spares id f g)
      (h : g.allocate count = .ok (first, g')) : Spares id f g'
  | commitRoot {g g' : PageFile} {root : PageId} (before : Spares id f g)
      (h : g.commitRoot root = (.ok (), g')) : Spares id f g'
  | writeSuperblock {g g' : PageFile} (before : Spares id f g)
      (h : g.writeSuperblock = .ok g') : Spares id f g'
  | reopen {g g' : PageFile} (before : Spares id f g) (h : load (some g.file) = .ok g') :
      Spares id f g'

/-- The file goes on as one of a run, and the page is as it was or holds zeros. -/
theorem Spares.page_eq_or (h : Spares id f g) (hf : f.Follows j) (htrim : f.file.Trim)
    (hid : 0 < id) :
    (∃ j, g.Follows j) ∧ g.file.Trim ∧
      (g.file.page id.toNat = f.file.page id.toNat ∨ g.file.page id.toNat = .zero) := by
  have hpos : 0 < id.toNat := UInt64.lt_iff_toNat_lt.mp hid
  induction h with
  | refl => exact ⟨⟨j, hf⟩, htrim, Or.inl rfl⟩
  | @put g g' n other _ hput hne ih =>
    obtain ⟨⟨j', hfollows⟩, hg, hpage⟩ := ih
    obtain ⟨rfl, hgrows, -⟩ := grows_put hput
    obtain ⟨hg', hpages⟩ := file_put hg hput
    refine ⟨⟨_, (hfollows.grow hgrows).noted g.pageCount n⟩, hg', ?_⟩
    have hnumber : id.toNat ≠ g.pageCount.toNat := fun heq => hne (UInt64.toNat_inj.mp heq.symm)
    rw [hpages, if_neg hnumber]
    by_cases hlt : id.toNat < g.pageCount.toNat
    · rw [if_pos hlt]
      exact hpage
    · rw [if_neg hlt]
      exact Or.inr rfl
  | @allocate g g' count first _ hallocate ih =>
    obtain ⟨⟨j', hfollows⟩, hg, hpage⟩ := ih
    obtain ⟨hg', hpages⟩ := file_allocate hg hallocate
    refine ⟨⟨j', hfollows.grow (grows_allocate hallocate).2⟩, hg', ?_⟩
    rw [hpages]
    by_cases hlt : id.toNat < g.pageCount.toNat + count.toNat
    · rw [if_pos hlt]
      exact hpage
    · rw [if_neg hlt]
      exact Or.inr rfl
  | commitRoot _ hcommit ih =>
    obtain ⟨⟨j', hfollows⟩, hg, hpage⟩ := ih
    obtain ⟨hg', hpages⟩ := file_commitRoot hg hcommit
    rw [hpages id.toNat hpos]
    exact ⟨⟨_, hfollows.commitRoot hcommit⟩, hg', hpage⟩
  | writeSuperblock _ hwrite ih =>
    obtain ⟨⟨j', hfollows⟩, hg, hpage⟩ := ih
    obtain ⟨hg', hpages⟩ := file_writeSuperblock hg hwrite
    rw [hpages id.toNat hpos]
    exact ⟨⟨_, hfollows.writeSuperblock hwrite⟩, hg', hpage⟩
  | reopen _ hload ih =>
    obtain ⟨⟨j', hfollows⟩, hg, hpage⟩ := ih
    have hfile := file_load hload
    rw [hfile]
    exact ⟨⟨_, (hfollows.reopen hload).2⟩, hg, hpage⟩

/-! ## New pages -/

/-- A new page holds what the file held there before. -/
theorem Run.readPage_allocate_eq (h : Run path steps j f)
    (hallocate : f.allocate count = .ok (first, f')) (hfirst : first ≤ id)
    (hlast : id.toNat < first.toNat + count.toNat) :
    f'.file.page id.toNat = (ledger steps).page id.toNat ∧
      f'.readPage id = .ok ((ledger steps).page id.toNat) := by
  have hfollows : f'.Follows j := h.follows.grow (grows_allocate hallocate).2
  obtain ⟨rfl, hgrows⟩ := grows_allocate hallocate
  have hpos : 0 < id.toNat :=
    UInt64.lt_iff_toNat_lt.mp (UInt64.lt_of_lt_of_le h.follows.pageCount_pos hfirst)
  have hpage : f'.file.page id.toNat = (ledger steps).page id.toNat := by
    rw [(file_allocate h.tallies.trim hallocate).2, if_pos hlast, h.tallies.page_eq id.toNat hpos]
  have hlt : id < f'.pageCount := by
    rw [UInt64.lt_iff_toNat_lt, hgrows.count_eq]
    exact hlast
  exact ⟨hpage, hpage ▸ hfollows.readPage_eq hlt⟩

/-- New pages need not hold zeros. A leaf is put and not committed, the file is opened again, and a
page is added: the leaf stands on it, and is found there. -/
theorem readPage_allocate_forgotten :
    ∃ f f' : PageFile,
      Run "a" [.reopen, .put (draftOf .leaf 0x61).finish]
        ⟨0, 1, [(1, (draftOf .leaf 0x61).finish)]⟩ f ∧
      f.allocate 1 = .ok (1, f') ∧
      f'.readPage 1 = .ok (draftOf .leaf 0x61).finish.page ∧
      (draftOf .leaf 0x61).finish.page ≠ .zero ∧
      f'.fetch 1 = .ok (draftOf .leaf 0x61).finish := by
  have hsound := sound_draftOf_leaf 0x61
  obtain ⟨f₀, h₀, hcount₀⟩ := Run.exists_create "a"
  obtain ⟨f₁, h₁, -⟩ := h₀.exists_put hcount₀ (by decide) (draftOf .leaf 0x61).finish
  obtain ⟨f₂, h₂, -, -, hcount₂⟩ := h₁.exists_reopen (show (0 : PageId) < 1 by decide)
  obtain ⟨f₃, hallocate, -⟩ := h₂.exists_allocate hcount₂ 1 (by decide)
  have hread : f₃.readPage 1 = .ok (draftOf .leaf 0x61).finish.page :=
    (h₂.readPage_allocate_eq hallocate (by decide) (by decide)).2
  refine ⟨f₂, f₃, h₂, hallocate, hread, fun hzero => ?_, fetch_finish hsound (by decide) hread⟩
  -- a page of zeros is no node
  have hnode := hsound.ofPage_finish
  rw [hzero, Node.ofPage_zero] at hnode
  simp only [reduceCtorEq] at hnode

/-- A new page holds the node that was put last under its id if the file has not ended before the
page since, and otherwise zeros. Without an opening since the file last grew there is no such node.
Until the page is written it stays as it is, or the file is cut off before it and it holds zeros; an
opening may also forget it. -/
theorem Run.readPage_allocated (h : Run path steps j f)
    (hallocate : f.allocate count = .ok (first, f')) (hfirst : first ≤ id)
    (hlast : id.toNat < first.toNat + count.toNat) :
    f'.readPage id = .ok ((ledger steps).page id.toNat) ∧
      (∀ n, (ledger steps).node id.toNat = some n → j.puts.lookup id = some n) ∧
      ((Step.reopen ∉ steps.takeWhile fun step => !step.resizes) →
        (ledger steps).page id.toNat = .zero) ∧
      ∀ g, Spares id f' g →
        (g.pageCount ≤ id → g.readPage id = .error (.pageOutOfBounds id g.pageCount)) ∧
        (id < g.pageCount → g.readPage id = .ok ((ledger steps).page id.toNat) ∨
          g.readPage id = .ok .zero) := by
  obtain ⟨hpage, hread⟩ := h.readPage_allocate_eq hallocate hfirst hlast
  have hfollows : f'.Follows j := h.follows.grow (grows_allocate hallocate).2
  have hfile := file_allocate h.tallies.trim hallocate
  obtain ⟨rfl, -⟩ := grows_allocate hallocate
  refine ⟨hread, h.tallies.lookup_eq id, fun hsteps => ?_, fun g hg =>
    ⟨fun hle => ?_, fun hlt => ?_⟩⟩
  · have hbehind : (ledger steps).count ≤ id.toNat := by
      rw [← h.tallies.count_eq]
      exact UInt64.le_iff_toNat_le.mp hfirst
    rw [Ledger.page, node_ledger_of_not_reopened hsteps hbehind]
  · rw [readPage, pageNumber, if_pos hle]
  · have hpos : 0 < id := UInt64.lt_of_lt_of_le h.follows.pageCount_pos hfirst
    obtain ⟨⟨j', hfollows'⟩, -, hspared⟩ := hg.page_eq_or hfollows hfile.1 hpos
    rw [hfollows'.readPage_eq hlt, ← hpage]
    exact hspared.imp (congrArg _) (congrArg _)

/-- Two pages are added after a leaf was put and forgotten. The first holds the leaf and the second
zeros, and it still does when a node was put behind them. -/
theorem readPage_allocated_two :
    ∃ f f' g : PageFile,
      Run "a" [.reopen, .put (draftOf .leaf 1).finish] ⟨0, 1, [(1, (draftOf .leaf 1).finish)]⟩ f ∧
      f.allocate 2 = .ok (1, f') ∧ f'.put (draftOf .leaf 2).finish = (.ok 3, g) ∧
      f'.readPage 1 = .ok (draftOf .leaf 1).finish.page ∧ f'.readPage 2 = .ok .zero ∧
      g.readPage 2 = .ok .zero := by
  obtain ⟨f₀, h₀, hcount₀⟩ := Run.exists_create "a"
  obtain ⟨f₁, h₁, -⟩ := h₀.exists_put hcount₀ (by decide) (draftOf .leaf 1).finish
  obtain ⟨f₂, h₂, -, -, hcount₂⟩ := h₁.exists_reopen (show (0 : PageId) < 1 by decide)
  obtain ⟨f₃, hallocate, -⟩ := h₂.exists_allocate hcount₂ 2 (by decide)
  have hcount₃ : f₃.pageCount = 3 := by
    rw [← UInt64.toNat_inj, (grows_allocate hallocate).2.count_eq, hcount₂]
    rfl
  obtain ⟨f₄, hput⟩ := put_of_room (f := f₃) (by rw [hcount₃]; decide) (draftOf .leaf 2).finish
  have hcount₄ := (grows_put hput).2.1.count_eq
  rw [hcount₃] at hput hcount₄
  obtain ⟨hfirst, -⟩ :=
    h₂.readPage_allocated hallocate (show (1 : PageId) ≤ 1 by decide) (by decide)
  obtain ⟨hsecond, -, -, hspared⟩ :=
    h₂.readPage_allocated hallocate (show (1 : PageId) ≤ 2 by decide) (by decide)
  refine ⟨f₂, f₃, f₄, h₂, hallocate, hput, hfirst, hsecond, ?_⟩
  have hlt : (2 : PageId) < f₄.pageCount := by
    rw [UInt64.lt_iff_toNat_lt, hcount₄]
    decide
  exact ((hspared f₄ (.put .refl hput (by decide))).2 hlt).elim id id

end PageFile

end RangeStore
