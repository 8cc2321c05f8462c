set_option autoImplicit false

/-! # Changes in place

A computation that changes a state in place may fail after some of its changes, and these then stay.
Whether a failing call leaves things as they were is therefore a question of where it fails. The
computations here keep the state beside the outcome, so that the question can be asked: what
`InPlace.on` gives has a state in both cases. -/

namespace RangeStore

/-- A computation on a state that it changes in place, and that may fail on the way. -/
abbrev InPlace (σ ε : Type) := ExceptT ε (StateM σ)

namespace InPlace

variable {σ ε ε' α β : Type}

/-- The result, and what the state is then. -/
def on (f : InPlace σ ε α) (s : σ) : Except ε α × σ := f.run.run s

/-- A result that was got without the state. -/
def ofExcept (x : Except ε α) : InPlace σ ε α := ExceptT.mk (pure x)

theorem on_adapt (g : ε → ε') (x : InPlace σ ε α) (s : σ) :
    on (ExceptT.adapt g x) s = ((x.on s).1.mapError g, (x.on s).2) := rfl

theorem on_get_bind (f : σ → InPlace σ ε α) (s : σ) :
    (get >>= f : InPlace σ ε α).on s = (f s).on s := rfl

/-- Behind a failure nothing is done. -/
theorem on_bind (x : InPlace σ ε α) (f : α → InPlace σ ε β) (s : σ) :
    (x >>= f).on s =
      match x.on s with
      | (.error e, left) => (.error e, left)
      | (.ok a, left) => (f a).on left := by
  unfold on
  rw [ExceptT.run_bind, StateT.run_bind]
  rcases (ExceptT.run x).run s with ⟨e | a, left⟩ <;> rfl

/-- Where the failure comes before the first change, the state stays as it is. -/
theorem on_ofExcept_bind (x : Except ε α) (f : α → InPlace σ ε β) (s : σ) :
    (ofExcept x >>= f).on s =
      match x with
      | .error e => (.error e, s)
      | .ok a => (f a).on s := by
  rw [on_bind]
  cases x <;> rfl

end InPlace

end RangeStore
