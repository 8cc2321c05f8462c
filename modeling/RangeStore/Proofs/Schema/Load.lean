import RangeStore.Proofs.Schema.Catalog
import RangeStore.Proofs.Tree.Window
set_option autoImplicit false

/-! # Reading the catalog of a tree

In a search tree the keys that begin with the same bytes stand side by side. So reading tables from
the first such key on, until a key begins otherwise, reads the entries of the whole catalog and
nothing else: `Catalog.load_eq`. -/

namespace RangeStore

open Std

namespace Bytes

/-- A beginning comes no later than the whole. -/
theorem isLE_of_isPrefix {p b : Bytes} (h : p <+: b) : (compare p b).isLE := by
  obtain ⟨rest, rfl⟩ := h
  have hcompare := compare_append_left p [] rest
  rw [List.append_nil] at hcompare
  rw [hcompare]
  cases rest with
  | nil => rfl
  | cons _ _ => rfl

/-- What lies between some bytes and a string that begins with them begins with them, too. -/
theorem isPrefix_of_isLE {p a b : Bytes} (hpa : (compare p a).isLE) (hab : (compare a b).isLE)
    (hb : p <+: b) : p <+: a := by
  induction p generalizing a b with
  | nil => exact List.nil_prefix
  | cons x p ih =>
    obtain ⟨rest, rfl⟩ := hb
    cases a with
    | nil => contradiction
    | cons y a =>
      rw [List.cons_append] at hab
      rw [compare_cons] at hpa hab
      cases hxy : compare x y with
      | lt =>
        rw [OrientedCmp.gt_of_lt hxy] at hab
        contradiction
      | gt =>
        rw [hxy] at hpa
        contradiction
      | eq =>
        obtain rfl : x = y := LawfulEqOrd.eq_of_compare hxy
        rw [hxy, Ordering.eq_then] at hpa hab
        exact List.cons_prefix_cons.mpr ⟨rfl, ih hpa hab (List.prefix_append p rest)⟩

end Bytes

theorem Comparison.ge_holds_iff {key reference : Bytes} :
    Comparison.ge.holds key reference = true ↔ (compare reference key).isLE := by
  have hswap : compare reference key = (compare key reference).swap := OrientedCmp.eq_swap
  rw [hswap, Comparison.holds]
  cases compare key reference <;> decide

namespace Catalog

def inCatalog (e : Cell) : Bool := keyStart.isPrefixOf e.key

/-- The catalog with the tables of some entries. -/
def gather (found : Catalog) : List Cell → Except CatalogError Catalog
  | [] => .ok found
  | entry :: rest =>
    match readTable entry with
    | .error e => .error e
    | .ok table => gather (found.insert table) rest

variable {s : NodeSource} {root : PageId} {t : Tree}

/-- Reading from an index on takes the entries onward as long as they lie in the catalog. -/
theorem loadFrom_eq (ht : t.Rooted s root) {i : Option Nat} {c : Cursor} (h : t.Tracks c i)
    {bound : Nat} (hbound : (Direction.ascending.onward t.entries i).length < bound)
    (found : Catalog) :
    loadFrom s bound c found =
      gather found ((Direction.ascending.onward t.entries i).takeWhile inCatalog) := by
  induction bound generalizing i c found with
  | zero => exact absurd hbound (Nat.not_lt_zero _)
  | succ bound ih =>
    rw [loadFrom, h.entry?_eq]
    cases i with
    | none => rfl
    | some i =>
      have hstands : t.Stands c i := h
      obtain ⟨e, he⟩ : ∃ e, t.entries[i]? = some e := ⟨_, List.getElem?_eq_getElem hstands.lt_count⟩
      have honward := Direction.ascending.onward_some he
      rw [honward] at hbound ⊢
      obtain ⟨moved, hmoved, htracks⟩ := ht.step .ascending h
      have hnext : c.next s = (.ok (), moved) := hmoved
      rw [Option.bind_some, he, List.takeWhile_cons]
      by_cases hin : inCatalog e = true
      · -- the table of this entry is read, and the cursor goes on to the next
        have hbegins : keyStart.isPrefixOf e.key = true := hin
        simp only [hbegins, hin, if_true, gather, hnext]
        cases readTable e with
        | error err => rfl
        | ok table => exact ih htracks (Nat.lt_of_succ_lt_succ hbound) _
      · -- here the catalog ends
        have hbegins : ¬ keyStart.isPrefixOf e.key = true := hin
        simp only [hbegins, hin]
        rfl

/-- The entries of the catalog are those onward from where the search for its first key lands. -/
theorem takeWhile_onward (ht : t.Rooted s root) (hsearch : t.Search) :
    (Direction.ascending.onward t.entries (t.landing keyStart .ge)).takeWhile inCatalog =
      t.entries.filter inCatalog := by
  have hcovers := ht.landing_covers hsearch keyStart .ge
  have hge : ∀ e : Cell, inCatalog e = true → Comparison.ge.holds e.key keyStart = true :=
    fun e he => Comparison.ge_holds_iff.mpr
      (Bytes.isLE_of_isPrefix (List.isPrefixOf_iff_prefix.mp he))
  cases hlanding : t.landing keyStart .ge with
  | none =>
    rw [hlanding] at hcovers
    have hnone : t.entries.filter inCatalog = [] := by
      refine List.filter_eq_nil_iff.mpr fun e he hin => ?_
      have hholds := hge e hin
      rw [hcovers e he] at hholds
      contradiction
    rw [hnone]
    rfl
  | some p =>
    rw [hlanding] at hcovers
    obtain ⟨-, hcovers⟩ := hcovers
    rw [takeWhile_eq_filter, Direction.ascending.filter_onward]
    · rfl
    · exact fun i e he hin => (hcovers i e he).mp (hge e hin)
    · -- between the first key of the catalog and a key in it there are only keys in it
      refine (hsearch.ascending.sublist
        (Direction.ascending.onward_sublist _ _)).imp_of_mem fun {a b} ha _ hab hb => ?_
      obtain ⟨i, hi, hcovered⟩ := Direction.ascending.mem_onward ha
      have hholds := (hcovers i a hi).mpr hcovered
      refine List.isPrefixOf_iff_prefix.mpr (Bytes.isPrefix_of_isLE ?_ ?_
        (List.isPrefixOf_iff_prefix.mp hb))
      · exact Comparison.ge_holds_iff.mp hholds
      · rw [hab]
        rfl

/-- Reading the catalog of a tree reads the tables of all entries that lie in it. -/
theorem load_eq (ht : t.Rooted s root) (hsearch : t.Search) :
    load s root = gather empty (t.entries.filter inCatalog) := by
  obtain ⟨cursor, hcursor, htracks⟩ := ht.seek keyStart .ge
  rw [load, hcursor, ← takeWhile_onward ht hsearch]
  refine loadFrom_eq ht htracks ?_ empty
  cases hlanding : t.landing keyStart .ge with
  | none => exact Nat.succ_pos _
  | some p =>
    rw [hlanding] at htracks
    have hstands : t.Stands cursor p := htracks
    exact Nat.lt_of_le_of_lt (Direction.ascending.onward_sublist t.entries (some p)).length_le
      (hstands.count_lt_walkBound ht.toStored)

end Catalog

end RangeStore
