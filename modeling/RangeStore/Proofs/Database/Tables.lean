import Mathlib.Data.List.Perm.Basic
import RangeStore.Proofs.Database.Content
import RangeStore.Proofs.Schema.Load
set_option autoImplicit false

/-! # The tables of a stored database

Among the entries of a database those of the catalog are one for each table. A catalog keeps its
tables in the order of their names, so it does not matter in which order they are read: what is read
is the catalog that was written (`Content.Holds.gather_eq`). -/

namespace RangeStore

open Std

namespace Catalog

/-! ## The order of tables -/

def NamesAscend (tables : List Table) : Prop :=
  tables.Pairwise fun t u => compare t.name u.name = .lt

theorem mem_place {t v : Table} {tables : List Table} (h : v ∈ place t tables) :
    v = t ∨ v ∈ tables := by
  induction tables with
  | nil => exact Or.inl (List.mem_singleton.mp h)
  | cons u rest ih =>
    unfold place at h
    split at h
    · exact List.mem_cons.mp h
    · exact (List.mem_cons.mp h).imp id (List.mem_cons_of_mem _)
    · rcases List.mem_cons.mp h with rfl | h
      · exact Or.inr (List.mem_cons_self ..)
      · exact (ih h).imp id (List.mem_cons_of_mem _)

/-- A table is put at its place. -/
theorem NamesAscend.place {tables : List Table} (h : NamesAscend tables) (t : Table) :
    NamesAscend (place t tables) := by
  induction tables with
  | nil => exact List.pairwise_singleton _ _
  | cons u rest ih =>
    obtain ⟨hfirst, hrest⟩ := List.pairwise_cons.mp h
    unfold Catalog.place
    split
    · next hlt =>
      refine List.pairwise_cons.mpr ⟨fun v hv => ?_, h⟩
      rcases List.mem_cons.mp hv with rfl | hv
      · exact hlt
      · exact TransCmp.lt_trans hlt (hfirst v hv)
    · next heq =>
      have hname : t.name = u.name := LawfulEqOrd.eq_of_compare heq
      exact List.pairwise_cons.mpr ⟨fun v hv => hname ▸ hfirst v hv, hrest⟩
    · next hgt =>
      refine List.pairwise_cons.mpr ⟨fun v hv => ?_, ih hrest⟩
      rcases mem_place hv with rfl | hv
      · exact OrientedCmp.lt_of_gt hgt
      · exact hfirst v hv

/-- Tables with the same names in ascending order are the same list, if they are the same tables. -/
theorem NamesAscend.eq_of_perm {tables others : List Table} (h : NamesAscend tables)
    (h' : NamesAscend others) (hperm : tables.Perm others) : tables = others := by
  refine List.Perm.eq_of_pairwise (fun t u _ _ htu hut => ?_) h h' hperm
  rw [OrientedCmp.gt_of_lt htu] at hut
  contradiction

def NamesDiffer (tables : List Table) : Prop := tables.Pairwise fun t u => t.name ≠ u.name

theorem NamesDiffer.perm {tables others : List Table} (h : NamesDiffer tables)
    (hperm : tables.Perm others) : NamesDiffer others :=
  (hperm.pairwise_iff Ne.symm).mp h

theorem NamesAscend.differ {tables : List Table} (h : NamesAscend tables) :
    NamesDiffer tables := by
  refine h.imp fun {t u} hlt heq => ?_
  rw [heq, ReflOrd.compare_self] at hlt
  contradiction

/-! ## Gathering tables -/

theorem gather_map {tables : List Table} (hread : ∀ t ∈ tables, readTable (entry t) = .ok t)
    (found : Catalog) : gather found (tables.map entry) = .ok (tables.foldl insert found) := by
  induction tables generalizing found with
  | nil => rfl
  | cons t tables ih =>
    rw [List.map_cons, gather, hread t (List.mem_cons_self ..)]
    exact ih (fun u hu => hread u (List.mem_cons_of_mem _ hu)) _

/-- Tables of new and different names replace nothing. -/
theorem foldl_insert_perm (tables : List Table) {found : Catalog}
    (hsorted : NamesAscend found.tables)
    (hnames : NamesDiffer (found.tables ++ tables)) :
    NamesAscend (tables.foldl insert found).tables ∧
      (tables.foldl insert found).tables.Perm (found.tables ++ tables) := by
  induction tables generalizing found with
  | nil =>
    rw [List.append_nil]
    exact ⟨hsorted, List.Perm.refl _⟩
  | cons t tables ih =>
    have hnew : ∀ u ∈ found.tables, t.name ≠ u.name := fun u hu heq =>
      (List.pairwise_append.mp hnames).2.2 u hu t (List.mem_cons_self ..) heq.symm
    have hplace : (found.insert t).tables.Perm (t :: found.tables) := Content.place_perm hnew
    have hmoved : ((found.insert t).tables ++ tables).Perm (found.tables ++ t :: tables) :=
      (hplace.append_right tables).trans List.perm_middle.symm
    obtain ⟨hascend, hperm⟩ := ih (hsorted.place t) (hnames.perm hmoved.symm)
    exact ⟨hascend, hperm.trans hmoved⟩

/-- From the entries of its tables, in any order, a catalog is gathered again. -/
theorem gather_eq {c : Catalog} (hsorted : NamesAscend c.tables)
    (hread : ∀ t ∈ c.tables, readTable (entry t) = .ok t) {entries : List Cell}
    (hperm : entries.Perm (c.tables.map entry)) : gather empty entries = .ok c := by
  obtain ⟨tables, rfl, htables⟩ : Relation.Comp (fun entries tables => entries = tables.map entry)
      List.Perm entries c.tables := by
    rw [List.eq_map_comp_perm]
    exact hperm
  have hempty : NamesAscend empty.tables := List.Pairwise.nil
  obtain ⟨hascend, hall⟩ :=
    foldl_insert_perm tables hempty (hsorted.differ.perm htables.symm)
  rw [gather_map fun t ht => hread t (htables.mem_iff.mp ht)]
  have heq := hascend.eq_of_perm hsorted (hall.trans htables)
  exact congrArg Except.ok (congrArg Catalog.mk heq)

/-- Only the keys of one key space begin as the keys of the catalog do. -/
theorem inCatalog_encodeKey {space : UInt32} {values : List Value} {value : Bytes} :
    inCatalog ⟨Tuple.encodeKey space values, value⟩ = true ↔ space = keySpace := by
  constructor
  · intro h
    have hlen : keyStart.length = (Bytes.big 4 space.toNat).length := by
      rw [keyStart, Bytes.length_big, Bytes.length_big]
    have hbegins : keyStart <+: Bytes.big 4 space.toNat ++ Tuple.encode values :=
      List.isPrefixOf_iff_prefix.mp h
    have hstart : keyStart = Bytes.big 4 space.toNat :=
      (List.prefix_of_prefix_length_le hbegins (List.prefix_append _ _)
        (Nat.le_of_eq hlen)).eq_of_length hlen
    -- four bytes are enough to tell two key spaces apart
    have hlimit : Bytes.limit 4 = UInt32.size := rfl
    have hnumber := congrArg Bytes.ofBig hstart
    rw [keyStart, Bytes.ofBig_big, Bytes.ofBig_big, hlimit,
      Nat.mod_eq_of_lt space.toNat_lt_size, Nat.mod_eq_of_lt keySpace.toNat_lt_size] at hnumber
    exact (UInt32.toNat_inj.mp hnumber).symm
  · rintro rfl
    exact List.isPrefixOf_iff_prefix.mpr (List.prefix_append _ _)

end Catalog

/-! ## The entries of the catalog -/

namespace Content

open Catalog (NamesAscend NamesDiffer)

variable {c : Catalog} {tables : List Table} {rows : List (String × Record)} {entries : List Cell}

theorem addTable_ascend {c' : Catalog} {t : Table} (hc : NamesAscend c.tables)
    (h : addTable c t = .ok c') : NamesAscend c'.tables := by
  unfold addTable at h
  split at h
  · contradiction
  · split at h
    · contradiction
    · obtain rfl := Except.ok.inj h
      exact hc.place t

/-- The tables of a new catalog are in order. -/
theorem catalogOf_ascend (h : catalogOf tables = .ok c) : NamesAscend c.tables := by
  have hempty : NamesAscend Catalog.empty.tables := List.Pairwise.nil
  exact @foldlM_invariant _ _ _ addTable (fun _ c => NamesAscend c.tables) addTable_ascend []
    tables .empty c hempty h

theorem ofRows_ascend (h : ofRows tables rows = .ok (c, entries)) : NamesAscend c.tables := by
  unfold ofRows at h
  split at h
  · contradiction
  · next found hfound =>
    split at h
    · contradiction
    · obtain ⟨rfl, -⟩ := Prod.mk.inj (Except.ok.inj h)
      exact catalogOf_ascend hfound

/-- The entries of two tables with different names have different keys. -/
theorem key_entry_ne {t u : Table} (h : t.name ≠ u.name) :
    (Catalog.entry t).key ≠ (Catalog.entry u).key := by
  intro heq
  have hagree : Tuple.Agree [Value.ofText t.name] [Value.ofText u.name] :=
    Tuple.agree_of_types (List.prefix_refl [ColumnType.bytes])
  have hvalues := (Tuple.encodeKey_injective hagree heq).2
  have hbytes : Text.utf8 t.name = Text.utf8 u.name :=
    Value.bytes.inj (List.cons.inj hvalues).1
  have hname := Text.text?_utf8 t.name
  rw [hbytes, Text.text?_utf8] at hname
  exact h (Option.some.inj hname).symm

theorem catalogEntries_perm (h : NamesDiffer c.tables) :
    (catalogEntries c).Perm (c.tables.map Catalog.entry) :=
  Entries.insertAll_perm (List.pairwise_map.mpr (h.imp fun hne => key_entry_ne hne))
    fun _ _ _ he => absurd he List.not_mem_nil

/-- Of the entries of a database those in the catalog are one for each table. -/
theorem Holds.filter_inCatalog (h : Holds c rows entries) (hnames : NamesDiffer c.tables)
    (hsound : ∀ t ∈ c.tables, t.Sound) :
    (entries.filter Catalog.inCatalog).Perm (c.tables.map Catalog.entry) := by
  have htables : (c.tables.map Catalog.entry).filter Catalog.inCatalog =
      c.tables.map Catalog.entry := by
    refine List.filter_eq_self.mpr fun e he => ?_
    obtain ⟨t, -, rfl⟩ := List.mem_map.mp he
    exact Catalog.inCatalog_encodeKey.mpr rfl
  have hrows : (rows.flatMap (cellsOf c)).filter Catalog.inCatalog = [] := by
    refine List.filter_eq_nil_iff.mpr fun e he hin => ?_
    obtain ⟨row, -, hcell⟩ := List.mem_flatMap.mp he
    obtain ⟨t, l, ht, hl, rfl⟩ := mem_cellsOf hcell
    have hspace := Catalog.inCatalog_encodeKey.mp hin
    exact catalog_keySpace_ne (hsound t (List.mem_of_find?_eq_some ht)) hl hspace.symm
  calc entries.filter Catalog.inCatalog
      |>.Perm ((catalogEntries c ++ rows.flatMap (cellsOf c)).filter Catalog.inCatalog) :=
        h.perm.filter _
    _ = (catalogEntries c).filter Catalog.inCatalog := by
      rw [List.filter_append, hrows, List.append_nil]
    _ |>.Perm ((c.tables.map Catalog.entry).filter Catalog.inCatalog) :=
        (catalogEntries_perm hnames).filter _
    _ = c.tables.map Catalog.entry := htables

/-- From the entries of a database its catalog is gathered again. -/
theorem Holds.gather_eq (h : Holds c rows entries) (hnames : NamesAscend c.tables)
    (hsound : ∀ t ∈ c.tables, t.Sound)
    (hread : ∀ t ∈ c.tables, Catalog.readTable (Catalog.entry t) = .ok t) :
    Catalog.gather .empty (entries.filter Catalog.inCatalog) = .ok c :=
  Catalog.gather_eq hnames hread (h.filter_inCatalog hnames.differ hsound)

end Content

end RangeStore
