import RangeStore.Database.Basic
import RangeStore.Proofs.Storage.Mirror
import RangeStore.Proofs.Storage.Positions
import RangeStore.Proofs.Tree.Damage
import RangeStore.Proofs.Tree.Ending
set_option autoImplicit false

/-! # Opening ends

A file is opened by reading its superblock and then the entries of its catalog. Whatever bytes it
has, this ends in a database or an error, as long as the child pointers that can be followed from
the root form no cycle: `Database.load_ends`. The bounds of the model are then never met, and more
of them would change nothing.

Nothing notices a cycle. A file whose root is its own child cannot be opened, and the descent in it
does not end (`Database.load_loop`). -/

namespace RangeStore

/-! ## Page files -/

namespace PageFile

variable {f : PageFile} {id : PageId} {e : StoreError}

/-- A page file fails to give a node because of its id, its file, its checksum or its bytes. -/
theorem fetch_eq_error (h : f.fetch id = .error e) :
    e ≠ .endless ∧ (e = .outOfRange → id < f.pageCount ∧ UInt64.size ≤ id.toNat * pageSize) := by
  unfold fetch at h
  split at h
  · cases h
    exact ⟨nofun, nofun⟩
  · split at h
    · next hread =>
      cases h
      rcases readPage_eq_error hread with ⟨rfl, -⟩ | ⟨rfl, hrange⟩ | ⟨failure, rfl⟩
      · exact ⟨nofun, nofun⟩
      · exact ⟨nofun, fun _ => hrange⟩
      · exact ⟨nofun, nofun⟩
    · split at h
      · cases h
        exact ⟨nofun, nofun⟩
      · split at h
        · cases h
          exact ⟨nofun, nofun⟩
        · cases h

theorem neverEndless (f : PageFile) : f.source.NeverEndless := fun _ h => (fetch_eq_error h).1 rfl

theorem Addressable.fetch_ne (h : f.Addressable) : f.fetch id ≠ .error .outOfRange := by
  intro he
  obtain ⟨hlt, hrange⟩ := (fetch_eq_error he).2 rfl
  have hbehind : id.toNat * pageSize < f.pageCount.toNat * pageSize :=
    Nat.mul_lt_mul_of_pos_right (UInt64.lt_iff_toNat_lt.mp hlt) (by decide)
  exact absurd hrange (Nat.not_le.mpr (Nat.lt_of_lt_of_le hbehind h))

end PageFile

/-! ## Reading the catalog -/

namespace Catalog

/-- The reading does not fail because of the store. -/
def Storeless {α : Type} (r : Except CatalogError α) : Prop := ∀ e, r ≠ .error (.store e)

namespace Storeless

variable {α β : Type}

theorem bind {r : Except CatalogError α} {f : α → Except CatalogError β} (hr : Storeless r)
    (hf : ∀ a, Storeless (f a)) : Storeless (r >>= f) := by
  intro e he
  cases r with
  | error err => exact hr e (congrArg Except.error (Except.error.inj he))
  | ok a => exact hf a e he

theorem readInt (bytes : Bytes) : Storeless (readInt bytes) := by
  intro e
  unfold Catalog.readInt
  split <;> exact nofun

theorem readName (bytes : Bytes) : Storeless (readName bytes) := by
  intro e
  unfold Catalog.readName
  split
  · exact nofun
  · split <;> exact nofun

theorem readCount (bytes : Bytes) : Storeless (readCount bytes) :=
  (readInt bytes).bind fun _ => by
    split
    split <;> exact fun _ => nofun

theorem readColumn (bytes : Bytes) : Storeless (readColumn bytes) :=
  (readName bytes).bind fun _ => (readInt _).bind fun _ => by
    split
    split <;> exact fun _ => nofun

theorem readMany {read : Bytes → Except CatalogError (α × Bytes)}
    (hread : ∀ bytes, Storeless (read bytes)) (n : Nat) (bytes : Bytes) :
    Storeless (readMany read n bytes) := by
  induction n generalizing bytes with
  | zero => exact fun _ => nofun
  | succ n ih => exact (hread bytes).bind fun _ => (ih _).bind fun _ _ => nofun

theorem readIndex (bytes : Bytes) : Storeless (readIndex bytes) :=
  (readName bytes).bind fun _ => (readCount _).bind fun _ => (readMany readName _ _).bind
    fun _ _ => nofun

theorem readDraft (name : String) (bytes : Bytes) : Storeless (readDraft name bytes) := by
  refine (readInt bytes).bind fun _ => ?_
  split
  split
  · exact fun _ => nofun
  · exact (readCount _).bind fun _ => (readCount _).bind fun _ => (readMany readColumn _ _).bind
      fun _ => (readCount _).bind fun _ => (readMany readIndex _ _).bind fun _ _ => nofun

theorem readTable (entry : Cell) : Storeless (readTable entry) := by
  unfold Catalog.readTable
  split
  · exact fun _ => nofun
  · split
    · exact fun _ => nofun
    · refine (readName _).bind fun _ => (readDraft _ _).bind fun _ => ?_
      split
      · exact fun _ => nofun
      · split <;> exact fun _ => nofun

end Storeless

variable {s : NodeSource} {root : PageId}

/-- Reading on from a cursor ends within two steps more than what is left of the walk. -/
theorem loadFrom_ends (hs : s.NeverEndless) {units : Nat} {c : Cursor} (h : c.Level s)
    (hunits : c.valid = true → Cursor.left s .ascending c.path < units) (found : Catalog) :
    Ends (· = .error (.store .endless)) (fun bound => loadFrom s bound c found) (units + 1) := by
  induction units generalizing c found with
  | zero =>
    refine .succ ?_
    simp only [loadFrom]
    cases hentry : c.entry? with
    | none => exact .const nofun
    | some entry =>
      have hvalid := Cursor.valid_of_entry? hentry
      exact absurd (hunits hvalid) (Nat.not_lt_zero _)
  | succ units ih =>
    refine .succ ?_
    simp only [loadFrom]
    cases hentry : c.entry? with
    | none => exact .const nofun
    | some entry =>
      have hvalid := Cursor.valid_of_entry? hentry
      simp only
      split
      · cases htable : readTable entry with
        | error e =>
          refine .const fun he => Storeless.readTable entry .endless ?_
          rw [htable, Except.error.inj he]
        | ok table =>
          have hends : (c.next s).1 ≠ .error .endless := h.step_ends hs (d := .ascending)
          simp only
          rcases hnext : c.next s with ⟨e | ⟨⟩, moved⟩
          · rw [hnext] at hends
            refine .const fun he => hends ?_
            exact congrArg Except.error (CatalogError.store.inj (Except.error.inj he))
          · have hstep : c.step s .ascending = (.ok (), moved) := hnext
            obtain ⟨hmoved, hlt⟩ := h.step hstep
            exact ih hmoved (fun hm => Nat.lt_of_lt_of_le (hlt hm)
              (Nat.le_of_lt_succ (hunits hvalid))) _
      · exact .const nofun

/-- Reading the catalog is not cut off by its bounds. -/
theorem load_not_endless (hs : s.NeverEndless) (h : s.Acyclic root) :
    load s root ≠ .error (.store .endless) := by
  rw [load]
  cases hseek : Cursor.seek s root keyStart .ge with
  | error e =>
    have hends := Cursor.seek_ends hs h keyStart .ge
    rw [hseek] at hends
    exact fun he => hends (congrArg Except.error (CatalogError.store.inj (Except.error.inj he)))
  | ok c =>
    have hlevel := Cursor.seek_level h hseek
    by_cases hvalid : c.valid = true
    · have hbound := hlevel.left_lt_walkBound (d := .ascending) hvalid
      exact (loadFrom_ends hs hlevel (fun _ => Nat.lt_succ_self _) _).not_cut hbound
    · exact (loadFrom_ends hs hlevel (fun htrue => absurd htrue hvalid) _).not_cut
        (Nat.succ_pos _)

/-- The store makes reading the catalog fail only in the ways in which it makes a cursor fail. -/
theorem loadFrom_trouble (hs : s.ReadsPages) {bound : Nat} {c : Cursor} (h : c.InRange)
    {found : Catalog} {e : StoreError} (he : loadFrom s bound c found = .error (.store e)) :
    s.Trouble e := by
  induction bound generalizing c found with
  | zero =>
    cases he
    exact .endless
  | succ bound ih =>
    rw [loadFrom] at he
    split at he
    · cases he
    · next entry _ =>
      split at he
      · cases htable : readTable entry with
        | error err =>
          rw [htable] at he
          cases he
          exact absurd htable (Storeless.readTable entry e)
        | ok table =>
          obtain ⟨hmoved, htrouble⟩ := Cursor.step_outcome hs .ascending h
          simp only [htable] at he
          rcases hnext : c.next s with ⟨err | ⟨⟩, moved⟩
          · have hstep : c.step s .ascending = (.error err, moved) := hnext
            rw [hnext] at he
            cases he
            exact htrouble (congrArg Prod.fst hstep)
          · have hstep : c.step s .ascending = (.ok (), moved) := hnext
            rw [hnext] at he
            rw [hstep] at hmoved
            exact ih hmoved he
      · cases he

theorem load_trouble (hs : s.ReadsPages) {e : StoreError} (he : load s root = .error (.store e)) :
    s.Trouble e := by
  rw [load] at he
  rcases Cursor.seek_outcome hs root keyStart .ge with ⟨c, hc, hrange⟩ | ⟨err, herr, htrouble⟩
  · simp only [hc] at he
    exact loadFrom_trouble hs hrange he
  · simp only [herr] at he
    cases he
    exact htrouble

end Catalog

/-! ## Opening -/

namespace Database

/-- The file as it is read under some settings. -/
def opened (f : PageFile) (settings : Settings) : PageFile :=
  { f with verify := settings.verifyChecksums }

/-- The store has failed in this way, at once or while the catalog was read. -/
inductive StoppedBy (e : StoreError) : DatabaseError → Prop where
  | store : StoppedBy e (.store e)
  | catalog : StoppedBy e (.catalog (.store e))

theorem load_eq_error {found : Option File} {settings : Settings} {e : DatabaseError}
    (h : load found settings = .error e) :
    (∃ err, PageFile.load found = .error err ∧ e = .store err) ∨
      ∃ f err, PageFile.load found = .ok f ∧
        Catalog.load (opened f settings).source f.root = .error err ∧ e = .catalog err := by
  unfold load at h
  split at h
  · next err herr =>
    cases h
    exact Or.inl ⟨err, herr, rfl⟩
  · next f hf =>
    dsimp only at h
    split at h
    · next err herr =>
      cases h
      exact Or.inr ⟨f, err, hf, herr, rfl⟩
    · cases h

theorem pageFile_load_eq_error {found : Option File} {e : StoreError}
    (h : PageFile.load found = .error e) : e ≠ .endless ∧ e ≠ .outOfRange := by
  unfold PageFile.load at h
  split at h
  · cases h
    exact ⟨nofun, nofun⟩
  · split at h
    · cases h
      exact ⟨nofun, nofun⟩
    · split at h
      · cases h
        exact ⟨nofun, nofun⟩
      · cases h

/-! ## Files of two nodes -/

/-- A node with one child. -/
def parentOf (child : PageId) : NodeDraft :=
  { kind := .internal, cells := #[Cell.ofChild [] child], used := 24 }

/-- A leaf with the key `a` and no value. -/
def tip : NodeDraft := { kind := .leaf, cells := #[⟨[0x61], []⟩], used := 17 }

theorem sound_parentOf (child : PageId) : (parentOf child).Sound where
  used_eq := rfl
  used_le := show 24 ≤ pageSize by decide
  child := fun _ c hc => by
    obtain rfl := List.mem_singleton.mp hc
    rfl

theorem sound_tip : tip.Sound where
  used_eq := rfl
  used_le := show 17 ≤ pageSize by decide
  child := nofun

/-- A file with two nodes, on the pages 1 and 2. -/
def twoNodes (root : PageId) (first second : NodeDraft) : PageFile where
  file := ((File.empty.writePage 0 (Superblock.toPage { pageCount := 3, root := root })).writePage 1
    first.finish.page).writePage 2 second.finish.page
  superblock := { pageCount := 3, root := root }
  verify := true

section

variable {root : PageId} {first second : NodeDraft}

theorem load_twoNodes (hroot : root < 3) :
    PageFile.load (some (twoNodes root first second).file) = .ok (twoNodes root first second) := by
  have hsuper : Superblock.ofPage (Superblock.toPage { pageCount := 3, root := root }) =
      .ok { pageCount := 3, root := root } := Superblock.ofPage_toPage rfl rfl hroot
  have hread : (twoNodes root first second).file.readPage 0 =
      .ok (Superblock.toPage { pageCount := 3, root := root }) := by
    rw [File.readPage, twoNodes, File.page_writePage, File.page_writePage, File.page_writePage]
    rfl
  simp only [PageFile.load, hread, hsuper]
  rfl

theorem fetch_twoNodes (root : PageId) (hfirst : first.Sound) (hsecond : second.Sound)
    (settings : Settings) :
    (opened (twoNodes root first second) settings).source.fetch 1 = .ok first.finish ∧
      (opened (twoNodes root first second) settings).source.fetch 2 = .ok second.finish := by
  have hcount : (opened (twoNodes root first second) settings).pageCount = 3 := rfl
  have hone : (opened (twoNodes root first second) settings).readPage 1 =
      .ok first.finish.page := by
    refine PageFile.readPage_of_page (hcount ▸ by decide) (by decide) ?_ ?_
    · exact (by decide : 2 * pageSize ≤ 3 * pageSize)
    · rw [opened, twoNodes, File.page_writePage, File.page_writePage]
      rfl
  have htwo : (opened (twoNodes root first second) settings).readPage 2 =
      .ok second.finish.page := by
    refine PageFile.readPage_of_page (hcount ▸ by decide) (by decide) ?_ ?_
    · exact (by decide : 3 * pageSize ≤ 3 * pageSize)
    · rw [opened, twoNodes, File.page_writePage]
      rfl
  exact ⟨PageFile.fetch_finish hfirst (by decide) hone,
    PageFile.fetch_finish hsecond (by decide) htwo⟩

end

/-! ## Files without a cycle -/

/-- Whatever bytes a file has, opening it ends if the child pointers that can be followed from its
root form no cycle. It gives a database or an error, and if the positions of all pages are 64-bit
numbers, this is none of a number out of its range. In every source a descent from a page below
which there is no cycle ends within one fetch more than there are nodes. -/
theorem load_ends {found : Option File} {settings : Settings}
    (hacyclic : ∀ f, PageFile.load found = .ok f →
      (opened f settings).source.Acyclic f.root) :
    (∀ e, load found settings = .error e → ¬ StoppedBy .endless e) ∧
      ((∀ f, PageFile.load found = .ok f → f.Addressable) →
        ∀ e, load found settings = .error e → ¬ StoppedBy .outOfRange e) ∧
      ∀ {s : NodeSource} {id : PageId}, s.NeverEndless → s.Acyclic id →
        (∀ key above, Ends (· = .error .endless)
          (fun bound => Cursor.descendLE s key bound id above) (s.extent + 1)) ∧
        ∀ edge frame above, frame.node.child? frame.slot = some id →
          Ends (·.1 = .error .endless)
            (fun bound => Cursor.descend s edge bound (frame :: above)) (s.extent + 1) := by
  refine ⟨fun e he hstopped => ?_, fun hfits e he hstopped => ?_, fun {s id} hs hid => ⟨?_, ?_⟩⟩
  · rcases load_eq_error he with ⟨err, herr, rfl⟩ | ⟨f, err, hf, herr, rfl⟩
    · cases hstopped
      exact (pageFile_load_eq_error herr).1 rfl
    · cases hstopped
      exact Catalog.load_not_endless (PageFile.neverEndless _) (hacyclic f hf) herr
  · rcases load_eq_error he with ⟨err, herr, rfl⟩ | ⟨f, err, hf, herr, rfl⟩
    · cases hstopped
      exact (pageFile_load_eq_error herr).2 rfl
    · cases hstopped
      have haddressable : (opened f settings).Addressable := hfits f hf
      cases Catalog.load_trouble (PageFile.readsPages _) herr with
      | fetch hfetch => exact haddressable.fetch_ne hfetch
  · exact fun key above => hid.endsWithin.descendLE_ends hs key above
  · intro edge frame above hchild
    refine NodeSource.EndsWithin.descend_ends hs edge (fun child hid' => ?_) above
    obtain rfl : id = child := Option.some.inj (hchild.symm.trans hid')
    exact hid.endsWithin

/-- The leaf as the only child of the root. -/
theorem load_ends_stem :
    (∀ f, PageFile.load (some (twoNodes 2 tip (parentOf 1)).file) = .ok f →
      (opened f {}).source.Acyclic f.root) ∧
    (∀ e, load (some (twoNodes 2 tip (parentOf 1)).file) {} = .error e →
      ¬ StoppedBy .endless e) ∧
      ((∀ f, PageFile.load (some (twoNodes 2 tip (parentOf 1)).file) = .ok f → f.Addressable) →
        ∀ e, load (some (twoNodes 2 tip (parentOf 1)).file) {} = .error e →
          ¬ StoppedBy .outOfRange e) ∧
      ∀ {s : NodeSource} {id : PageId}, s.NeverEndless → s.Acyclic id →
        (∀ key above, Ends (· = .error .endless)
          (fun bound => Cursor.descendLE s key bound id above) (s.extent + 1)) ∧
        ∀ edge frame above, frame.node.child? frame.slot = some id →
          Ends (·.1 = .error .endless)
            (fun bound => Cursor.descend s edge bound (frame :: above)) (s.extent + 1) := by
  have hacyclic : ∀ f, PageFile.load (some (twoNodes 2 tip (parentOf 1)).file) = .ok f →
      (opened f {}).source.Acyclic f.root := by
    intro f hf
    obtain rfl := Except.ok.inj ((load_twoNodes (by decide)).symm.trans hf)
    have hfetch := fetch_twoNodes 2 sound_tip (sound_parentOf 1) {}
    have hstored : (Tree.inner (parentOf 1).finish fun _ => .leaf tip.finish).Stored
        (opened (twoNodes 2 tip (parentOf 1)) {}).source 2 :=
      { fetch := hfetch.2
        held := ⟨rfl, fun ⟨0, _⟩ => ⟨1, rfl, hfetch.1, rfl⟩⟩ }
    exact hstored.acyclic
  exact ⟨hacyclic, load_ends hacyclic⟩

/-! ## A cycle -/

section

variable {s : NodeSource}

/-- Where page 1 is its own child, a descent spends all its fetches and has not ended. -/
theorem descendLE_cycle (hnode : s.fetch 1 = .ok (parentOf 1).finish) (key : Bytes) (bound : Nat)
    (above : List Frame) : Cursor.descendLE s key bound 1 above = .error .endless := by
  have hslot : (parentOf 1).finish.lookupLE key = 0 :=
    Nat.lt_one_iff.mp (Node.lookupLE_lt (n := (parentOf 1).finish) Nat.one_pos key)
  have hchild : (parentOf 1).finish.child? 0 = some 1 := rfl
  have hsize : (parentOf 1).finish.size = 1 := rfl
  have hinner : (parentOf 1).finish.isLeaf = false := rfl
  induction bound generalizing above with
  | zero => rfl
  | succ bound ih =>
    simp only [Cursor.descendLE, hnode, hsize, hinner, hslot, hchild, ih]
    rfl

theorem descend_cycle (hnode : s.fetch 1 = .ok (parentOf 1).finish) (edge : Edge) (bound : Nat)
    (above : List Frame) :
    Cursor.descend s edge bound (⟨(parentOf 1).finish, 0⟩ :: above) = (.error .endless, .none) := by
  have hslot : edge.slot (parentOf 1).finish = 0 := by
    cases edge <;> rfl
  have hchild : (parentOf 1).finish.child? 0 = some 1 := rfl
  have hsize : (parentOf 1).finish.size = 1 := rfl
  have hinner : (parentOf 1).finish.isLeaf = false := rfl
  induction bound generalizing above with
  | zero => rfl
  | succ bound ih =>
    simp only [Cursor.descend, hnode, hsize, hinner, hslot, hchild, ih]
    rfl

end

/-- The root is its own child: however many fetches a descent is granted, it has not ended, and the
file cannot be opened. -/
theorem load_loop :
    (∀ settings, load (some (twoNodes 1 (parentOf 1) tip).file) settings =
      .error (.catalog (.store .endless))) ∧
    ∀ (settings : Settings) (bound : Nat) (above : List Frame),
      (∀ key, Cursor.descendLE (opened (twoNodes 1 (parentOf 1) tip) settings).source key bound 1
        above = .error .endless) ∧
      ∀ edge, Cursor.descend (opened (twoNodes 1 (parentOf 1) tip) settings).source edge bound
        (⟨(parentOf 1).finish, 0⟩ :: above) = (.error .endless, .none) := by
  have hnode : ∀ settings : Settings,
      (opened (twoNodes 1 (parentOf 1) tip) settings).source.fetch 1 = .ok (parentOf 1).finish :=
    fun settings => (fetch_twoNodes 1 (sound_parentOf 1) sound_tip settings).1
  refine ⟨fun settings => ?_, fun settings bound above =>
    ⟨fun key => descendLE_cycle (hnode settings) key bound above,
      fun edge => descend_cycle (hnode settings) edge bound above⟩⟩
  have hseek : Cursor.seek (opened (twoNodes 1 (parentOf 1) tip) settings).source 1
      Catalog.keyStart .ge = .error .endless := by
    rw [Cursor.seek, Cursor.seekLE, if_neg (by decide), descendLE_cycle (hnode settings)]
  have hload : Catalog.load (opened (twoNodes 1 (parentOf 1) tip) settings).source 1 =
      .error (.store .endless) := by
    rw [Catalog.load, hseek]
  have hroot : (opened (twoNodes 1 (parentOf 1) tip) settings).root = 1 := rfl
  unfold load
  rw [load_twoNodes (by decide)]
  dsimp only
  rw [← opened, hroot, hload]

end Database

end RangeStore
