import RangeStore.Proofs.Scan.Rows
set_option autoImplicit false

/-! # Scans the other way around

A scan whose bounds change places runs over the same keys in the opposite order
(`Scanner.visits_swapped`). Its index is chosen by the bound that was the other one before; but both
bounds hold columns that the chosen key begins with, so the first key that begins with one of them
is also the first that begins with the other (`KeyLayout.resolve_swapped`). In this key both scans
select the same entries, and they read them in opposite directions
(`ScanRequest.select_swapped`). -/

namespace RangeStore

/-- If what is found first by each of two tests passes the other test as well, it is the same. -/
theorem find?_eq_of_both {α : Type} {p q : α → Bool} {l : List α} {a b : α}
    (hp : l.find? p = some a) (hq : l.find? q = some b) (ha : q a = true) (hb : p b = true) :
    a = b := by
  induction l with
  | nil => contradiction
  | cons x l ih =>
    by_cases hpx : p x = true
    · rw [List.find?_cons_of_pos hpx] at hp
      obtain rfl := Option.some.inj hp
      rw [List.find?_cons_of_pos ha] at hq
      exact Option.some.inj hq
    · rw [List.find?_cons_of_neg hpx] at hp
      by_cases hqx : q x = true
      · rw [List.find?_cons_of_pos hqx] at hq
        obtain rfl := Option.some.inj hq
        contradiction
      · rw [List.find?_cons_of_neg hqx] at hq
        exact ih hp hq

/-- A list that is read in one direction is the reverse of what is read in the other. -/
theorem Direction.arrange_of_ne {α : Type} {d d' : Direction} (h : d ≠ d') (l : List α) :
    d'.arrange l = (d.arrange l).reverse := by
  cases d with
  | ascending =>
    cases d' with
    | ascending => exact absurd rfl h
    | descending => rfl
  | descending =>
    cases d' with
    | ascending => exact (List.reverse_reverse l).symm
    | descending => exact absurd rfl h

/-! ## The layout -/

namespace KeyLayout

variable {t : Table} {l l' : KeyLayout} {index : Option String} {start stop : Record}

theorem leadsWith_of_checkBound {bound : Record} (h : l.checkBound t bound = .ok ()) :
    l.leadsWith bound.columns = true := by
  unfold checkBound at h
  split at h
  · next hleads => exact hleads.1
  · contradiction

/-- Both orders of the bounds resolve to the same key. -/
theorem resolve_swapped (h : resolve t index start stop = .ok l)
    (h' : resolve t index stop start = .ok l') : l = l' := by
  obtain ⟨hchosen, -, hstop⟩ := resolve_steps h
  obtain ⟨hchosen', -, hstart'⟩ := resolve_steps h'
  cases index with
  | some name => exact Option.some.inj (hchosen.symm.trans hchosen')
  | none =>
    exact find?_eq_of_both (covering_eq_ok_iff.mp hchosen) (covering_eq_ok_iff.mp hchosen')
      (leadsWith_of_checkBound hstop) (leadsWith_of_checkBound hstart')

end KeyLayout

/-! ## The entries -/

namespace ScanRequest

variable {request : ScanRequest} {l : KeyLayout}

/-- The request with its bounds in each other's place. -/
def swapped (request : ScanRequest) : ScanRequest where
  start := request.stop
  stop := request.start
  index := request.index

theorem inRange_swapped (key : Bytes) : request.swapped.inRange l key = request.inRange l key :=
  Bool.and_comm _ _

/-- The same entries are selected, in the opposite order. -/
theorem select_swapped
    (hdir : request.start.comparison.direction ≠ request.stop.comparison.direction)
    (entries : List Cell) :
    request.swapped.select l entries = (request.select l entries).reverse := by
  have hfilter : (entries.filter fun e => request.swapped.inRange l e.key) =
      entries.filter fun e => request.inRange l e.key :=
    List.filter_congr fun e _ => inRange_swapped e.key
  calc request.swapped.select l entries
      = request.stop.comparison.direction.arrange
          (entries.filter fun e => request.swapped.inRange l e.key) := rfl
    _ = request.stop.comparison.direction.arrange
          (entries.filter fun e => request.inRange l e.key) := by rw [hfilter]
    _ = (request.select l entries).reverse := Direction.arrange_of_ne hdir _

end ScanRequest

/-! ## Visiting keys -/

namespace Scanner

variable {s : NodeSource} {root : PageId} {t : Tree} {sc : Scanner}

/-- The keys under a scanner that is stepped until it is no longer valid. -/
inductive Visits (s : NodeSource) : Scanner → List Bytes → Prop
  | done {sc : Scanner} (h : sc.valid = false) : Visits s sc []
  | step {sc moved : Scanner} {e : Cell} {keys : List Bytes} (h : sc.entry? = some e)
      (hnext : sc.next s = (.ok (), moved)) (rest : Visits s moved keys) :
      Visits s sc (e.key :: keys)

/-- A scanner visits no other keys. -/
theorem Visits.unique {keys others : List Bytes} (h : sc.Visits s keys)
    (h' : sc.Visits s others) : others = keys := by
  induction h generalizing others with
  | done hinvalid =>
    cases h' with
    | done => rfl
    | step he _ _ =>
      rw [valid, he] at hinvalid
      contradiction
  | step he hnext _ ih =>
    cases h' with
    | done hinvalid =>
      rw [valid, he] at hinvalid
      contradiction
    | step he' hnext' rest' =>
      rw [he] at he'
      rw [hnext] at hnext'
      obtain rfl := Option.some.inj he'
      obtain ⟨-, rfl⟩ := Prod.mk.inj hnext'
      rw [ih rest']

/-- A scanner that stands at an index visits the keys from there on as long as they lie between the
bounds. -/
theorem visits_onward (ht : t.Rooted s root) {i : Option Nat} (h : t.Tracks sc.cursor i) :
    sc.Visits s ((sc.coming t i).map (·.key)) := by
  -- by the entries that come
  generalize hahead : sc.coming t i = ahead
  induction ahead generalizing sc i with
  | nil =>
    rcases sc.coming_cases h with ⟨-, hnone⟩ | ⟨j, e, -, -, -, -, hcoming⟩
    · refine .done ?_
      rw [valid]
      exact congrArg Option.isSome hnone
    · rw [hahead] at hcoming
      contradiction
  | cons e ahead ih =>
    rcases sc.coming_cases h with ⟨hnil, -⟩ | ⟨j, e', rfl, hcursor, -, hrange, hcoming⟩
    · rw [hahead] at hnil
      contradiction
    · -- the key is visited, and the scanner steps on
      rw [hahead] at hcoming
      obtain ⟨rfl, hrest⟩ := List.cons.inj hcoming
      have hentry : sc.entry? = some e := entry?_at hcursor hrange
      obtain ⟨moved, hmoved, htracks⟩ := ht.step sc.start.direction h
      have hnext : sc.next s = (.ok (), { sc with cursor := moved }) := by
        rw [next, valid, hentry, Option.isSome_some, if_pos rfl, hmoved]
      exact .step hentry hnext (ih htracks hrest.symm)

/-- The scan of a request visits the keys that it selects. -/
theorem visits_select (ht : t.Rooted s root) (hsearch : t.Search) {request : ScanRequest}
    {l : KeyLayout}
    (hdir : request.start.comparison.direction ≠ request.stop.comparison.direction)
    {cursor : Cursor}
    (hcursor : Cursor.seek s root (boundKey l request.start) request.start.comparison = .ok cursor)
    (table : Table) (policy : MissPolicy) :
    (request.scanner table l policy cursor).Visits s
      ((request.select l t.entries).map (·.key)) := by
  obtain ⟨i, htracks, hcoming⟩ := exists_coming_eq_select ht hsearch hdir hcursor table policy
  have hvisits : (request.scanner table l policy cursor).Visits s _ := visits_onward ht htracks
  rwa [hcoming] at hvisits

/-- Where there is no root, no key is visited. -/
theorem visits_of_root_eq_zero {request : ScanRequest} {l : KeyLayout} {cursor : Cursor}
    (hcursor : Cursor.seek s 0 (boundKey l request.start) request.start.comparison = .ok cursor)
    (table : Table) (policy : MissPolicy) :
    (request.scanner table l policy cursor).Visits s [] := by
  obtain rfl : Cursor.none = cursor := Except.ok.inj hcursor
  exact .done rfl

/-- A request and the one with its bounds in each other's place, if both are accepted, scan the same
key, and one visits its keys in the reverse order of the other: in every search tree and where there
is no tree, for every table, whatever the bounds. -/
theorem visits_swapped {tables : Catalog} {policy policy' : MissPolicy} {name : String}
    {request : ScanRequest} {sc sc' : Scanner}
    (htree : root = 0 ∨ ∃ t : Tree, t.Rooted s root ∧ t.Search)
    (h : ofRequest s root tables policy name request = .ok sc)
    (h' : ofRequest s root tables policy' name request.swapped = .ok sc') :
    sc.layout = sc'.layout ∧
    ∃ keys, (∀ visited, sc.Visits s visited ↔ visited = keys) ∧
      ∀ visited, sc'.Visits s visited ↔ visited = keys.reverse := by
  obtain ⟨table, l, cursor, htable, hdir, hl, hcursor, rfl⟩ := ofRequest_steps h
  obtain ⟨table', l', cursor', htable', hdir', hl', hcursor', rfl⟩ := ofRequest_steps h'
  obtain rfl := Option.some.inj (htable.symm.trans htable')
  obtain rfl : l = l' := KeyLayout.resolve_swapped hl hl'
  refine ⟨rfl, ?_⟩
  obtain ⟨keys, hkeys, hkeys'⟩ : ∃ keys,
      (request.scanner table l policy cursor).Visits s keys ∧
      (request.swapped.scanner table l policy' cursor').Visits s keys.reverse := by
    rcases htree with rfl | ⟨t, ht, hsearch⟩
    · exact ⟨[], visits_of_root_eq_zero hcursor table policy,
        visits_of_root_eq_zero hcursor' table policy'⟩
    · refine ⟨(request.select l t.entries).map (·.key),
        visits_select ht hsearch hdir hcursor table policy, ?_⟩
      have hvisits := visits_select ht hsearch hdir' hcursor' table policy'
      rwa [ScanRequest.select_swapped hdir, List.map_reverse] at hvisits
  refine ⟨keys, ?_, ?_⟩
  · intro visited
    exact ⟨hkeys.unique, fun heq => heq ▸ hkeys⟩
  · intro visited
    exact ⟨hkeys'.unique, fun heq => heq ▸ hkeys'⟩

/-! ## A leaf of three numbers -/

def numbers : Table := ⟨"numbers", [⟨"n", .int64⟩], 1, 100, []⟩

def numberKey (n : Int64) : Bytes := Tuple.encodeKey 100 [.int n]

def numberLeaf : Node :=
  NodeDraft.finish
    { kind := .leaf, cells := #[⟨numberKey 1, []⟩, ⟨numberKey 2, []⟩, ⟨numberKey 3, []⟩] }

/-- The numbers 1, 2 and 3 on page 1. -/
def numberStore : MemoryStore where
  nodes := #[numberLeaf]
  root := 1

theorem numberLeaf_rooted : (Tree.leaf numberLeaf).Rooted numberStore.source 1 where
  fetch := rfl
  held := rfl
  root_ne_zero := by decide
  full := Or.inr rfl

theorem numberLeaf_search : (Tree.leaf numberLeaf).Search where
  ascending := by unfold Ascending; decide
  separated := trivial

/-- The numbers greater than 1, upwards. The bound above has no column. -/
def numbersUp : ScanRequest where
  start := ⟨.gt, ⟨["n"], [.int 1]⟩⟩
  stop := ⟨.le, .empty⟩

/-- The numbers 2 and 3 upwards, and downwards when the bounds change places. -/
theorem visits_swapped_numbers :
    ∃ sc sc',
      ofRequest numberStore.source 1 ⟨[numbers]⟩ .skip "numbers" numbersUp = .ok sc ∧
      ofRequest numberStore.source 1 ⟨[numbers]⟩ .skip "numbers" numbersUp.swapped = .ok sc' ∧
      sc.layout = sc'.layout ∧ sc.Visits numberStore.source [numberKey 2, numberKey 3] ∧
      sc'.Visits numberStore.source [numberKey 3, numberKey 2] := by
  have hruns : (match ofRequest numberStore.source 1 ⟨[numbers]⟩ .skip "numbers" numbersUp,
        ofRequest numberStore.source 1 ⟨[numbers]⟩ .skip "numbers" numbersUp.swapped with
      | .ok _, .ok _ => true
      | _, _ => false) = true := by decide +kernel
  split at hruns
  · next sc sc' h h' =>
    obtain ⟨hlayout, keys, hkeys, hkeys'⟩ :=
      visits_swapped (Or.inr ⟨_, numberLeaf_rooted, numberLeaf_search⟩) h h'
    obtain ⟨t, l, cursor, ht, hdir, hl, hcursor, rfl⟩ := ofRequest_steps h
    obtain rfl : numbers = t := Option.some.inj ht
    obtain rfl : KeyLayout.primary numbers = l := Except.ok.inj hl
    have hselect : (numbersUp.select (KeyLayout.primary numbers)
        (Tree.leaf numberLeaf).entries).map (·.key) = [numberKey 2, numberKey 3] := by decide
    have hvisits := visits_select numberLeaf_rooted numberLeaf_search hdir hcursor numbers .skip
    rw [hselect] at hvisits
    obtain rfl : [numberKey 2, numberKey 3] = keys := (hkeys _).mp hvisits
    exact ⟨_, sc', h, h', hlayout, hvisits, (hkeys' _).mpr rfl⟩
  · contradiction

end Scanner

end RangeStore
