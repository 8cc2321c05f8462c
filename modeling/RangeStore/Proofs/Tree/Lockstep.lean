import RangeStore.Proofs.Tree.Packing
set_option autoImplicit false

/-! # Loading into two stores

What loading does depends on the store only through the page ids that it gives out and its errors.
So if every node that is put gets the same id in two stores, the same entries are loaded into both
in lockstep (`BulkLoad.Lockstep.bulkLoad`): the result is the same, the root or the error. The
second store may also fail where the first does not, if that is excused, as is a reason that only a
file can have. With one store in place of the two this says that loading keeps what putting a node
keeps, whether the tree is built or not (`bulkLoad_keeps`). -/

namespace RangeStore

/-- The store has failed because the file has. -/
def StoreError.IsFile : StoreError → Prop
  | file _ => True
  | _ => False

/-- The tree was not built because the file has failed. -/
def BuildError.IsFile : BuildError → Prop
  | store e => e.IsFile
  | _ => False

/-- What an operation gives on two stores that are in a relation: the same result, and stores that
are in the relation again. The second store may also fail on its own for a reason that is
excused. -/
inductive InStep {σ τ ε α : Type} (R : σ → τ → Prop) (excused : ε → Prop) :
    Except ε α × σ → Except ε α × τ → Prop
  | ok {store : σ} {other : τ} (a : α) (h : R store other) :
      InStep R excused (.ok a, store) (.ok a, other)
  | error {store : σ} {other : τ} (e : ε) (h : R store other) :
      InStep R excused (.error e, store) (.error e, other)
  | alone {x : Except ε α × σ} {other : τ} {e : ε} (h : excused e) :
      InStep R excused x (.error e, other)

/-- The stores are in the relation again if no failure is excused. -/
theorem InStep.related {σ τ ε α : Type} {R : σ → τ → Prop} {excused : ε → Prop}
    {x : Except ε α × σ} {y : Except ε α × τ} (h : InStep R excused x y)
    (hnone : ∀ e, ¬ excused e) : R x.2 y.2 := by
  cases h with
  | ok _ h => exact h
  | error _ h => exact h
  | alone hexcused => exact absurd hexcused (hnone _)

namespace BulkLoad

variable {σ τ : Type} [Storage σ] [Storage τ]

/-- Nodes that are put into two stores of the relation get the same ids. -/
def Lockstep (excused : BuildError → Prop) (R : σ → τ → Prop) : Prop :=
  ∀ {store : σ} {other : τ} (n : Node), R store other →
    InStep R (fun e => excused (.store e)) (Storage.put store n) (Storage.put other n)

namespace Lockstep

variable {excused : BuildError → Prop} {R : σ → τ → Prop} {store : σ} {other : τ} {maxKeys : Nat}

theorem flush (hput : Lockstep excused R) (h : R store other) (d : NodeDraft) :
    InStep R excused (BulkLoad.flush d store) (BulkLoad.flush d other) := by
  unfold BulkLoad.flush
  -- after a result of both, an error of both, an error of the second alone
  exact (hput d.finish h).casesOn (fun _ hnext => .ok _ hnext) (fun _ hnext => .error _ hnext)
    fun hexcused => .alone hexcused

theorem packFrom (hput : Lockstep excused R) (cells : List Cell) (h : R store other) (d : NodeDraft)
    (position : Nat) (previous : Option Bytes) (done : List (Bytes × PageId)) :
    InStep R excused (BulkLoad.packFrom maxKeys d position previous done store cells)
      (BulkLoad.packFrom maxKeys d position previous done other cells) := by
  induction cells generalizing d position previous done store other with
  | nil =>
    unfold BulkLoad.packFrom
    split
    · exact (hput.flush h d).casesOn (fun _ hnext => .ok _ hnext) (fun _ hnext => .error _ hnext)
        .alone
    · exact InStep.ok _ h
  | cons cell rest ih =>
    unfold BulkLoad.packFrom
    split
    · exact InStep.error _ h
    · split
      · refine (hput.flush h d).casesOn (fun child hnext => ?_) (fun _ hnext => .error _ hnext)
          .alone
        dsimp only
        split
        · exact InStep.error _ hnext
        · exact ih hnext _ _ _ _
      · split
        · exact InStep.error _ h
        · exact ih h _ _ _ _

theorem pack (hput : Lockstep excused R) (kind : NodeKind) (cells : List Cell) (h : R store other) :
    InStep R excused (BulkLoad.pack maxKeys kind cells store)
      (BulkLoad.pack maxKeys kind cells other) :=
  hput.packFrom cells h _ _ _ _

theorem climb (hput : Lockstep excused R) (level : List (Bytes × PageId)) (h : R store other) :
    InStep R excused (BulkLoad.climb maxKeys level store)
      (BulkLoad.climb maxKeys level other) := by
  -- by the length of the level, since the one above it is shorter
  induction hlen : level.length using Nat.strongRecOn generalizing level store other with
  | ind count ih =>
    match level with
    | [] =>
      unfold BulkLoad.climb
      exact InStep.error _ h
    | [root] =>
      unfold BulkLoad.climb
      exact InStep.ok _ h
    | first :: second :: rest =>
      have hpack (cells : List Cell) : InStep R excused
          (BulkLoad.pack maxKeys .internal cells store)
          (BulkLoad.pack maxKeys .internal cells other) := hput.pack .internal cells h
      unfold BulkLoad.climb
      dsimp only
      refine (hpack _).casesOn (fun parents hnext => ?_) (fun _ hnext => .error _ hnext)
        (fun hexcused => .alone hexcused)
      dsimp only
      split
      · next hlt => exact ih parents.length (hlen ▸ hlt) parents hnext rfl
      · exact InStep.error _ hnext

/-- The same entries are loaded into both stores in lockstep. -/
theorem bulkLoad (hput : Lockstep excused R) (entries : List Cell) (h : R store other) :
    InStep R excused (RangeStore.bulkLoad maxKeys entries store)
      (RangeStore.bulkLoad maxKeys entries other) := by
  unfold RangeStore.bulkLoad
  split
  · exact InStep.error _ h
  · exact (hput.pack .leaf entries h).casesOn (fun leaves hnext => hput.climb leaves hnext)
      (fun _ hnext => .error _ hnext) .alone

/-- A store runs in lockstep with itself, and keeps what putting a node keeps. -/
theorem self {P : σ → Prop} (hput : ∀ store n, P store → P (Storage.put store n).2) :
    Lockstep (fun _ => False) fun s s' : σ => s = s' ∧ P s := by
  rintro s _ n ⟨rfl, hs⟩
  have hnext := hput s n hs
  generalize Storage.put s n = x at hnext ⊢
  obtain ⟨result, next⟩ := x
  cases result with
  | ok id => exact .ok id ⟨rfl, hnext⟩
  | error e => exact .error e ⟨rfl, hnext⟩

end Lockstep

/-- Packing keeps what putting a node keeps. -/
theorem pack_keeps {P : σ → Prop} (hput : ∀ store n, P store → P (Storage.put store n).2)
    (maxKeys : Nat) (kind : NodeKind) (cells : List Cell) {store : σ} (h : P store) :
    P (pack maxKeys kind cells store).2 := by
  have hself : Lockstep (fun _ => False) fun s s' : σ => s = s' ∧ P s := Lockstep.self hput
  exact ((hself.pack kind cells ⟨rfl, h⟩).related fun _ => not_false).2

end BulkLoad

/-- Loading keeps what putting a node keeps, at whatever point it fails. -/
theorem bulkLoad_keeps {σ : Type} [Storage σ] {P : σ → Prop}
    (hput : ∀ store n, P store → P (Storage.put store n).2) (maxKeys : Nat) (entries : List Cell)
    {store : σ} (h : P store) : P (bulkLoad maxKeys entries store).2 := by
  have hself : BulkLoad.Lockstep (fun _ => False) fun s s' : σ => s = s' ∧ P s :=
    BulkLoad.Lockstep.self hput
  exact ((hself.bulkLoad entries ⟨rfl, h⟩).related fun _ => not_false).2

end RangeStore
