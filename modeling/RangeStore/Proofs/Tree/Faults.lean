import RangeStore.Proofs.Tree.Packing
set_option autoImplicit false

/-! # Faults of a list of cells

Packing judges the cells in their order: a key that is not greater than the one before it and a cell
that is too large for a page are faults, and the first fault ends the packing. The draft that waits
ends in the key before (`BulkLoad.Waiting`), and only a cell that fits joins it; so what the draft
would say of a full page or of the order never comes up (`BulkLoad.Waiting.push_cases`). Packing
fails for the first fault, or because the store does, and for nothing else
(`BulkLoad.packFrom_outcome`). -/

namespace RangeStore

/-! ## The first fault -/

/-- The key of an entry is not greater than that of the entry before it. -/
def Unordered (entries : List Cell) (i : Nat) : Prop :=
  ∃ before cell, 0 < i ∧ entries[i - 1]? = some before ∧ entries[i]? = some cell ∧
    compare before.key cell.key ≠ .lt

/-- An entry has more bytes than there is room for on a page. -/
def Oversized (entries : List Cell) (i : Nat) : Prop :=
  ∃ cell, entries[i]? = some cell ∧ 8176 < cell.key.length + cell.value.length

/-- No tree can be built with the entry. -/
def Faulty (entries : List Cell) (i : Nat) : Prop := Unordered entries i ∨ Oversized entries i

/-- What is said of a faulty entry: first of all that its key is not greater than the one before. -/
inductive Blames (entries : List Cell) (i : Nat) : BuildError → Prop
  | unsorted (h : Unordered entries i) : Blames entries i (.unsorted i)
  | tooLarge {cell : Cell} (hordered : ¬ Unordered entries i) (hcell : entries[i]? = some cell)
      (hlarge : 8176 < cell.key.length + cell.value.length) :
      Blames entries i (.node (.cellTooLarge (cell.key.length + cell.value.length)))

namespace BulkLoad

/-- The key of the last of some cells. -/
def lastKey (cells : List Cell) : Option Bytes := cells.getLast?.map (·.key)

theorem lastKey_append_singleton (cells : List Cell) (cell : Cell) :
    lastKey (cells ++ [cell]) = some cell.key := by
  simp [lastKey]

section

variable {seen rest : List Cell} {cell : Cell}

theorem unsortedAfter_some_iff {p key : Bytes} :
    unsortedAfter (some p) key = true ↔ compare p key ≠ .lt := by
  show (compare p key).isGE = true ↔ _
  generalize compare p key = order
  cases order <;> decide

/-- The cell behind some others is judged by the last of them. -/
theorem unordered_iff :
    Unordered (seen ++ cell :: rest) seen.length ↔
      unsortedAfter (lastKey seen) cell.key = true := by
  rcases List.eq_nil_or_concat seen with rfl | ⟨front, last, rfl⟩
  · constructor
    · rintro ⟨_, _, hpos, -⟩
      exact absurd hpos (Nat.lt_irrefl 0)
    · intro h
      contradiction
  · rw [List.concat_eq_append, lastKey_append_singleton, unsortedAfter_some_iff]
    have hlast : (front ++ [last] ++ cell :: rest)[(front ++ [last]).length - 1]? = some last := by
      simp
    have hcell : (front ++ [last] ++ cell :: rest)[(front ++ [last]).length]? = some cell := by
      simp
    constructor
    · rintro ⟨before, found, -, hbefore, hfound, hcompare⟩
      obtain rfl := Option.some.inj (hlast.symm.trans hbefore)
      obtain rfl := Option.some.inj (hcell.symm.trans hfound)
      exact hcompare
    · intro hcompare
      exact ⟨last, cell, by simp, hlast, hcell, hcompare⟩

theorem oversized_iff :
    Oversized (seen ++ cell :: rest) seen.length ↔
      8176 < cell.key.length + cell.value.length := by
  simp [Oversized]

/-- A cell without fault behind others without fault. -/
theorem not_faulty_cons (hseen : ∀ j < seen.length, ¬ Faulty (seen ++ cell :: rest) j)
    (hordered : ¬ unsortedAfter (lastKey seen) cell.key = true)
    (hsize : ¬ 8176 < cell.key.length + cell.value.length) :
    ∀ j < (seen ++ [cell]).length, ¬ Faulty (seen ++ [cell] ++ rest) j := by
  intro j hj
  rw [List.length_append, List.length_singleton] at hj
  rw [List.append_assoc, List.singleton_append]
  rcases Nat.lt_succ_iff_lt_or_eq.mp hj with hj | rfl
  · exact hseen j hj
  · rintro (hunordered | hoversized)
    · exact hordered (unordered_iff.mp hunordered)
    · exact hsize (oversized_iff.mp hoversized)

/-- Only an entry that there is can be faulty. -/
theorem not_faulty_of_lt (h : ∀ j < seen.length, ¬ Faulty seen j) (j : Nat) : ¬ Faulty seen j := by
  intro hfaulty
  have hlt : j < seen.length := by
    rcases hfaulty with ⟨_, _, -, -, hcell, -⟩ | ⟨_, hcell, -⟩
    · exact (List.getElem?_eq_some_iff.mp hcell).1
    · exact (List.getElem?_eq_some_iff.mp hcell).1
  exact h j hlt hfaulty

end

/-! ## The draft that waits -/

/-- The draft that waits counts its bytes rightly, and its last key is that of the cells that were
packed so far. -/
structure Waiting (d : NodeDraft) (seen : List Cell) : Prop where
  filled : d.Filled
  last_eq : d.cells.back?.map (·.key) = lastKey seen

theorem waiting_empty (kind : NodeKind) : Waiting { kind := kind } [] :=
  ⟨NodeDraft.filled_empty kind, rfl⟩

variable {d grown : NodeDraft} {seen : List Cell} {cell : Cell}

theorem Waiting.disordered_eq (h : Waiting d seen) (key : Bytes) :
    d.disordered key = unsortedAfter (lastKey seen) key := by
  rw [← h.last_eq]
  unfold NodeDraft.disordered unsortedAfter
  cases d.cells.back? with
  | none => rfl
  | some last => rfl

/-- The cell that was pushed last is that of which the next one is judged. -/
theorem Waiting.of_push (h : d.Filled) (hpush : d.push cell = .ok grown) (seen : List Cell) :
    Waiting grown (seen ++ [cell]) := by
  refine ⟨h.push hpush, ?_⟩
  obtain ⟨-, rfl⟩ := NodeDraft.push_eq_ok hpush
  rw [lastKey_append_singleton, Array.back?_push]
  rfl

/-- A draft without cells takes every cell that is not too large for a page. -/
theorem fits_of_isEmpty (h : d.Filled) (hempty : d.isEmpty = true)
    (hle : cell.payload ≤ Node.maxPayload) : d.fits cell.key.length cell.value.length = true := by
  have hnil : d.cells.toList = [] := congrArg Array.toList (Array.isEmpty_iff.mp hempty)
  have hused := h.used_eq
  rw [hnil, NodeDraft.cellsSize, Node.slotsStart] at hused
  apply decide_eq_true
  rw [NodeDraft.cellSize, hused, Node.cellHeader, pageSize]
  simp only [Cell.payload, Node.maxPayload, Node.cellHeader, Node.slotsStart, pageSize] at hle
  omega

/-- A draft that need not be put yet is empty or has room for the cell. -/
theorem room_of_not_isFull {maxKeys : Nat} (h : isFull maxKeys d cell = false) :
    d.isEmpty = true ∨ d.fits cell.key.length cell.value.length = true := by
  rw [isFull, Bool.or_eq_false_iff, Bool.and_eq_false_iff, Bool.not_eq_false',
    Bool.not_eq_false'] at h
  exact h.2

/-- A cell in order for which the draft has been found to have room is taken, if it is not too large
for any page: the draft does not find itself full, and not out of order either. -/
theorem push_cases (h : d.Filled) (cell : Cell) (hordered : d.disordered cell.key = false)
    (hroom : d.isEmpty = true ∨ d.fits cell.key.length cell.value.length = true) :
    (8176 < cell.key.length + cell.value.length ∧
      d.push cell = .error (.cellTooLarge (cell.key.length + cell.value.length))) ∨
    (¬ 8176 < cell.key.length + cell.value.length ∧ ∃ grown, d.push cell = .ok grown) := by
  by_cases hlarge : Node.maxPayload < cell.payload
  · exact Or.inl ⟨hlarge, by rw [NodeDraft.push, if_pos hlarge, Cell.payload]⟩
  · have hfits : d.fits cell.key.length cell.value.length = true := by
      rcases hroom with hempty | hfits
      · exact fits_of_isEmpty h hempty (Nat.not_lt.mp hlarge)
      · exact hfits
    refine Or.inr ⟨hlarge, ?_⟩
    rw [NodeDraft.push, if_neg hlarge, hfits, hordered]
    exact ⟨_, rfl⟩

/-! ## Packing -/

variable {σ : Type} [Storage σ]

/-- A store refuses a node with an error, now or after other nodes were put. -/
inductive Refuses : σ → StoreError → Prop
  | now {store : σ} {n : Node} {e : StoreError} (h : (Storage.put store n).1 = .error e) :
      Refuses store e
  | later {store : σ} {n : Node} {e : StoreError} (h : Refuses (Storage.put store n).2 e) :
      Refuses store e

/-- A draft is put, unless the store refuses it. -/
theorem flush_cases (d : NodeDraft) (store : σ) :
    (∃ e flushed, flush d store = (.error (.store e), flushed) ∧ Refuses store e) ∨
      ∃ id, flush d store = (.ok (d.firstKey?.getD [], id), (Storage.put store d.finish).2) := by
  unfold flush
  cases hput : Storage.put store d.finish with
  | mk result flushed =>
    cases result with
    | error e => exact Or.inl ⟨e, flushed, rfl, .now (n := d.finish) (by rw [hput])⟩
    | ok id => exact Or.inr ⟨id, rfl⟩

/-- How packing ends: the store has refused a node, or the first fault has been found, or all cells
are packed and none is faulty. -/
inductive PackOutcome (store : σ) (cells : List Cell) :
    Except BuildError (List (Bytes × PageId)) → Prop
  | refused {e : StoreError} (h : Refuses store e) : PackOutcome store cells (.error (.store e))
  | fault {i : Nat} {e : BuildError} (hfirst : ∀ j < i, ¬ Faulty cells j) (h : Blames cells i e) :
      PackOutcome store cells (.error e)
  | packed (h : ∀ i, ¬ Faulty cells i) (children : List (Bytes × PageId)) :
      PackOutcome store cells (.ok children)

theorem PackOutcome.later {store : σ} {n : Node} {cells : List Cell}
    {result : Except BuildError (List (Bytes × PageId))}
    (h : PackOutcome (Storage.put store n).2 cells result) : PackOutcome store cells result := by
  cases h with
  | refused h => exact .refused h.later
  | fault hfirst h => exact .fault hfirst h
  | packed h children => exact .packed h children

/-- By the cells that are still to be packed. Those that were packed have no fault. -/
theorem packFrom_outcome {maxKeys : Nat} {cells : List Cell} {done : List (Bytes × PageId)}
    {store : σ} (h : Waiting d seen) (hseen : ∀ j < seen.length, ¬ Faulty (seen ++ cells) j) :
    PackOutcome store (seen ++ cells)
      (packFrom maxKeys d seen.length (lastKey seen) done store cells).1 := by
  induction cells generalizing d seen done store with
  | nil =>
    rw [List.append_nil] at hseen ⊢
    have hnone := not_faulty_of_lt hseen
    unfold packFrom
    split
    · rcases flush_cases d store with ⟨e, flushed, hflush, hrefuses⟩ | ⟨id, hflush⟩
      · rw [hflush]
        exact .refused hrefuses
      · rw [hflush]
        exact .packed hnone _
    · exact .packed hnone _
  | cons cell rest ih =>
    unfold packFrom
    by_cases hunsorted : unsortedAfter (lastKey seen) cell.key = true
    · rw [if_pos hunsorted]
      exact .fault hseen (.unsorted (unordered_iff.mpr hunsorted))
    have hordered : ¬ Unordered (seen ++ cell :: rest) seen.length :=
      fun hunordered => hunsorted (unordered_iff.mp hunordered)
    have hget : (seen ++ cell :: rest)[seen.length]? = some cell := by simp
    -- what follows when the cell has been pushed into some draft
    have hnext {grown : NodeDraft} {done : List (Bytes × PageId)} {store : σ}
        (hgrown : Waiting grown (seen ++ [cell]))
        (hsize : ¬ 8176 < cell.key.length + cell.value.length) :
        PackOutcome store (seen ++ cell :: rest)
          (packFrom maxKeys grown (seen.length + 1) (some cell.key) done store rest).1 := by
      have hrest : PackOutcome store (seen ++ [cell] ++ rest)
          (packFrom maxKeys grown (seen ++ [cell]).length (lastKey (seen ++ [cell])) done store
            rest).1 := ih hgrown (not_faulty_cons hseen hunsorted hsize)
      rwa [List.append_assoc, List.length_append, lastKey_append_singleton] at hrest
    rw [if_neg hunsorted]
    by_cases hfull : isFull maxKeys d cell = true
    · rw [if_pos hfull]
      rcases flush_cases d store with ⟨e, flushed, hflush, hrefuses⟩ | ⟨id, hflush⟩
      · rw [hflush]
        exact .refused hrefuses
      · rw [hflush]
        have hempty := waiting_empty d.kind
        rcases push_cases hempty.filled cell rfl (Or.inl rfl) with
          ⟨hlarge, hpush⟩ | ⟨hsize, grown, hpush⟩
        · simp only [hpush]
          exact .fault hseen (.tooLarge hordered hget hlarge)
        · simp only [hpush]
          exact (hnext (Waiting.of_push hempty.filled hpush seen) hsize).later
    · have hroom := room_of_not_isFull (Bool.eq_false_iff.mpr hfull)
      have hgood : d.disordered cell.key = false := by
        rw [h.disordered_eq]
        exact Bool.eq_false_iff.mpr hunsorted
      rw [if_neg hfull]
      rcases push_cases h.filled cell hgood hroom with ⟨hlarge, hpush⟩ | ⟨hsize, grown, hpush⟩
      · simp only [hpush]
        exact .fault hseen (.tooLarge hordered hget hlarge)
      · simp only [hpush]
        exact hnext (Waiting.of_push h.filled hpush seen) hsize

/-- Packing a level. -/
theorem pack_outcome (maxKeys : Nat) (kind : NodeKind) (cells : List Cell) (store : σ) :
    PackOutcome store cells (pack maxKeys kind cells store).1 :=
  packFrom_outcome (waiting_empty kind) fun j hj => absurd hj (Nat.not_lt_zero j)

end BulkLoad

end RangeStore
