import RangeStore.Tuple.Record
set_option autoImplicit false

/-! # Columns of records

A record gives a tuple for any list of columns (`Record.tuple`). Records may list columns in any
order, so a row is known by the tuples that it gives; `Record.restrict` is the record that gives the
same ones in a fixed order. -/

namespace RangeStore.Record

/-- The values of some columns, in the order asked for. A column without a value is left out. -/
def tuple (r : Record) (columns : List String) : List Value :=
  columns.filterMap fun column => (r.find? column).join

/-- The record of some columns, in the order asked for. -/
def restrict (r : Record) (columns : List String) : Record := ⟨columns, r.tuple columns⟩

/-- Each of the columns has a value. -/
def Has (r : Record) (columns : List String) : Prop :=
  ∀ column ∈ columns, ∃ value, r.find? column = some (some value)

variable {r : Record} {columns names : List String}

@[simp] theorem tuple_nil (r : Record) : r.tuple [] = [] := rfl

theorem tuple_append (r : Record) (columns names : List String) :
    r.tuple (columns ++ names) = r.tuple columns ++ r.tuple names := by
  unfold tuple
  rw [List.filterMap_append]

theorem tuple_cons {column : String} {value : Value} (h : r.find? column = some (some value))
    (columns : List String) : r.tuple (column :: columns) = value :: r.tuple columns := by
  unfold tuple
  rw [List.filterMap_cons, h]
  rfl

theorem Has.sublist (h : r.Has columns) (hsub : ∀ name ∈ names, name ∈ columns) : r.Has names :=
  fun name hname => h name (hsub name hname)

theorem Has.tail {column : String} (h : r.Has (column :: columns)) : r.Has columns :=
  fun name hname => h name (List.mem_cons_of_mem _ hname)

theorem Has.getElem?_tuple (h : r.Has columns) (i : Nat) :
    (r.tuple columns)[i]? = columns[i]?.bind fun column => (r.find? column).join := by
  induction columns generalizing i with
  | nil => rfl
  | cons column columns ih =>
    obtain ⟨value, hvalue⟩ := h column (List.mem_cons_self ..)
    rw [tuple_cons hvalue]
    cases i with
    | zero => simp [hvalue]
    | succ i => simpa using ih h.tail i

theorem Has.length_tuple (h : r.Has columns) : (r.tuple columns).length = columns.length := by
  induction columns with
  | nil => rfl
  | cons column columns ih =>
    obtain ⟨value, hvalue⟩ := h column (List.mem_cons_self ..)
    rw [tuple_cons hvalue, List.length_cons, List.length_cons, ih h.tail]

/-- Cutting the columns in two cuts the tuple in two. -/
theorem Has.take_drop_tuple (h : r.Has columns) (count : Nat) :
    (r.tuple columns).take count = r.tuple (columns.take count) ∧
      (r.tuple columns).drop count = r.tuple (columns.drop count) := by
  induction columns generalizing count with
  | nil => simp
  | cons column columns ih =>
    obtain ⟨value, hvalue⟩ := h column (List.mem_cons_self ..)
    cases count with
    | zero => simp
    | succ count =>
      obtain ⟨htake, hdrop⟩ := ih h.tail count
      rw [tuple_cons hvalue, List.take_succ_cons, List.take_succ_cons, tuple_cons hvalue, htake]
      exact ⟨rfl, hdrop⟩

/-- The value that stands at the place of a column. -/
theorem Has.getElem?_tuple_findIdx? (h : r.Has columns) {name : String} {i : Nat}
    (hi : columns.findIdx? (· == name) = some i) :
    (r.tuple columns)[i]? = (r.find? name).join := by
  obtain ⟨hlt, hname, -⟩ := List.findIdx?_eq_some_iff_getElem.mp hi
  rw [h.getElem?_tuple, List.getElem?_eq_getElem hlt, Option.bind_some, beq_iff_eq.mp hname]

theorem findIdx?_of_mem {name : String} (h : name ∈ columns) :
    ∃ i, columns.findIdx? (· == name) = some i := by
  refine Option.isSome_iff_exists.mp ?_
  rw [List.findIdx?_isSome, List.any_eq_true]
  exact ⟨name, h, beq_self_eq_true name⟩

/-- The restricted record gives what the record gives. -/
theorem Has.find?_restrict (h : r.Has columns) {name : String} (hname : name ∈ columns) :
    (r.restrict columns).find? name = r.find? name := by
  obtain ⟨i, hi⟩ := findIdx?_of_mem hname
  obtain ⟨value, hvalue⟩ := h name hname
  have hget := h.getElem?_tuple_findIdx? hi
  simp only [find?, restrict] at hget hvalue ⊢
  rw [hi]
  simp only [hget, hvalue, Option.join_some]

/-- A record with as many values as columns has a value for each. -/
theorem has_of_length (h : r.columns.length = r.values.length) : r.Has r.columns := by
  intro name hname
  obtain ⟨i, hi⟩ := findIdx?_of_mem hname
  obtain ⟨hlt, -, -⟩ := List.findIdx?_eq_some_iff_getElem.mp hi
  rw [h] at hlt
  refine ⟨r.values[i], ?_⟩
  simp only [find?, hi, List.getElem?_eq_getElem hlt]

theorem tuple_congr {other : Record} (h : ∀ name ∈ names, r.find? name = other.find? name) :
    r.tuple names = other.tuple names := by
  unfold tuple
  induction names with
  | nil => rfl
  | cons name names ih =>
    rw [List.filterMap_cons, List.filterMap_cons, h name (List.mem_cons_self ..),
      ih fun other hother => h other (List.mem_cons_of_mem _ hother)]

theorem Has.restrict (h : r.Has columns) : (r.restrict columns).Has columns := by
  intro name hname
  rw [h.find?_restrict hname]
  exact h name hname

theorem Has.tuple_restrict (h : r.Has columns) (hsub : ∀ name ∈ names, name ∈ columns) :
    (r.restrict columns).tuple names = r.tuple names := by
  exact tuple_congr fun name hname => h.find?_restrict (hsub name hname)

/-- Records with the same tuple agree on each of its columns. -/
theorem Has.find?_eq {other : Record} (h : r.Has columns) (hother : other.Has columns)
    (heq : r.tuple columns = other.tuple columns) :
    ∀ name ∈ columns, r.find? name = other.find? name := by
  induction columns with
  | nil => intro name hname; contradiction
  | cons column columns ih =>
    obtain ⟨value, hvalue⟩ := h column (List.mem_cons_self ..)
    obtain ⟨value', hvalue'⟩ := hother column (List.mem_cons_self ..)
    rw [tuple_cons hvalue, tuple_cons hvalue'] at heq
    obtain ⟨rfl, htail⟩ := List.cons.inj heq
    intro name hname
    rcases List.mem_cons.mp hname with rfl | hname
    · rw [hvalue, hvalue']
    · exact ih h.tail hother.tail htail name hname

theorem ofPairs_zip {values : List Value} (h : columns.length = values.length) :
    ofPairs (columns.zip values) = ⟨columns, values⟩ := by
  unfold ofPairs
  rw [List.map_fst_zip (Nat.le_of_eq h), List.map_snd_zip (Nat.le_of_eq h.symm)]

end RangeStore.Record
