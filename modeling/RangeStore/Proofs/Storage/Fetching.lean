import RangeStore.Storage.Source
set_option autoImplicit false

/-! # Fetch by fetch

A computation over a source of nodes, with its fetches made visible: it has come to a result, or it
names the page that it needs next and says how it goes on with the answer. It can be run over a
source (`Fetching.run`), or over a source whose single fetches fail as they like, each for itself
(`Fetching.runUnder`).

What holds of the result whatever the fetches answer is `Fetching.Ensures`. Most computations also
give up at the first fetch that fails (`Fetching.Stops`): such a computation comes to the same
result as without failures if none of its fetches fails; otherwise the failed fetch is its last, and
what it gives then is known (`Fetching.Stops.outcome`). -/

namespace RangeStore

/-- A computation that fetches nodes one after the other. -/
inductive Fetching (α : Type) where
  | done (result : α)
  | fetch (id : PageId) (resume : Except StoreError Node → Fetching α)

/-- Which fetches fail, and how. The fetches are counted from the first one that the store was ever
asked for. -/
def Outages : Type := Nat → Option StoreError

namespace Fetching

variable {α β : Type}

/-- One computation after the other. -/
def bind (p : Fetching α) (f : α → Fetching β) : Fetching β :=
  match p with
  | done a => f a
  | fetch id resume => .fetch id fun answer => (resume answer).bind f

/-- A computation whose result is looked at in another way. -/
def map (f : α → β) (p : Fetching α) : Fetching β := p.bind fun a => .done (f a)

/-- The result over a source. -/
def run (s : NodeSource) : Fetching α → α
  | done a => a
  | fetch id resume => (resume (s.fetch id)).run s

/-- The answer to a fetch of a page, when `k` fetches have been made before it. -/
def answer (s : NodeSource) (w : Outages) (k : Nat) (id : PageId) : Except StoreError Node :=
  match w k with
  | some e => .error e
  | none => s.fetch id

/-- The result over a source under outages, when `k` fetches have been made before, and the number
of those made afterwards. -/
def runUnder (s : NodeSource) (w : Outages) : Fetching α → Nat → α × Nat
  | done a, k => (a, k)
  | fetch id resume, k => (resume (answer s w k id)).runUnder s w (k + 1)

variable {s : NodeSource} {w : Outages} {p : Fetching α} {f : α → Fetching β} {k : Nat}

theorem run_bind (s : NodeSource) (p : Fetching α) (f : α → Fetching β) :
    (p.bind f).run s = (f (p.run s)).run s := by
  induction p with
  | done a => rfl
  | fetch id resume ih => exact ih _

theorem run_map (s : NodeSource) (p : Fetching α) (f : α → β) :
    (p.map f).run s = f (p.run s) :=
  run_bind s p _

/-! ## Whatever the fetches answer -/

/-- Whatever the fetches answer, the result has this property. -/
inductive Ensures (P : α → Prop) : Fetching α → Prop where
  | done {a : α} (h : P a) : Ensures P (.done a)
  | fetch {id : PageId} {resume : Except StoreError Node → Fetching α}
      (h : ∀ answer, Ensures P (resume answer)) : Ensures P (.fetch id resume)

namespace Ensures

variable {P : α → Prop} {Q : β → Prop}

theorem trivial (p : Fetching α) : p.Ensures fun _ => True := by
  induction p with
  | done a => exact .done True.intro
  | fetch id resume ih => exact .fetch ih

theorem bind (hp : p.Ensures P) (hf : ∀ a, P a → (f a).Ensures Q) : (p.bind f).Ensures Q := by
  induction hp with
  | done h => exact hf _ h
  | fetch _ ih => exact .fetch ih

theorem map {g : α → β} (hp : p.Ensures P) (hg : ∀ a, P a → Q (g a)) : (p.map g).Ensures Q :=
  hp.bind fun a h => .done (hg a h)

theorem runUnder (hp : p.Ensures P) (s : NodeSource) (w : Outages) (k : Nat) :
    P (p.runUnder s w k).1 := by
  induction hp generalizing k with
  | done h => exact h
  | fetch _ ih => exact ih _ _

end Ensures

/-! ## Giving up -/

/-- Over the source and after a fetch that fails with an error, the computation makes no other fetch
and gives a result that is `cut` by this error. -/
inductive Stops (s : NodeSource) (cut : StoreError → α → Prop) : Fetching α → Prop where
  | done (a : α) : Stops s cut (.done a)
  | fetch {id : PageId} {resume : Except StoreError Node → Fetching α}
      (hfail : ∀ e, ∃ a, resume (.error e) = .done a ∧ cut e a)
      (hgo : Stops s cut (resume (s.fetch id))) : Stops s cut (.fetch id resume)

namespace Stops

variable {cut : StoreError → α → Prop} {cut' : StoreError → β → Prop}

/-- A computation that only passes the result of a cut one on is cut, too. -/
theorem bind (hp : p.Stops s cut) (hcut : ∀ e a, cut e a → ∃ b, f a = .done b ∧ cut' e b)
    (hf : (f (p.run s)).Stops s cut') : (p.bind f).Stops s cut' := by
  induction hp with
  | done a => exact hf
  | fetch hfail _ ih =>
    refine .fetch (fun e => ?_) (ih hf)
    obtain ⟨a, ha, hcuta⟩ := hfail e
    obtain ⟨b, hb, hcutb⟩ := hcut e a hcuta
    exact ⟨b, by rw [ha, Fetching.bind, hb], hcutb⟩

theorem map {g : α → β} (hp : p.Stops s cut) (hcut : ∀ e a, cut e a → cut' e (g a)) :
    (p.map g).Stops s cut' :=
  hp.bind (fun e a h => ⟨g a, rfl, hcut e a h⟩) (.done _)

end Stops

/-- How a computation ends under outages: no fetch has failed, and it has its whole result; or the
last fetch has failed and no other, and the result is cut. -/
inductive Outcome (w : Outages) (cut : StoreError → α → Prop) (whole : α) (k : Nat) :
    α × Nat → Prop where
  | whole {last : Nat} (hle : k ≤ last) (hnone : ∀ j, k ≤ j → j < last → w j = none) :
      Outcome w cut whole k (whole, last)
  | cut {result : α} {e : StoreError} {last : Nat} (hle : k ≤ last)
      (hnone : ∀ j, k ≤ j → j < last → w j = none) (hfail : w last = some e)
      (hcut : cut e result) : Outcome w cut whole k (result, last + 1)

/-- What holds of the whole result and of every cut one. -/
theorem Outcome.of {cut : StoreError → α → Prop} {whole : α} {out : α × Nat} {P : α → Prop}
    (h : Outcome w cut whole k out) (hwhole : P whole) (hcut : ∀ e a, cut e a → P a) : P out.1 := by
  cases h with
  | whole => exact hwhole
  | cut _ _ _ h => exact hcut _ _ h

theorem Stops.outcome {cut : StoreError → α → Prop} (hp : p.Stops s cut) (w : Outages) (k : Nat) :
    Outcome w cut (p.run s) k (p.runUnder s w k) := by
  induction hp generalizing k with
  | done a => exact .whole (Nat.le_refl k) fun j hle hlt => absurd hlt (Nat.not_lt.mpr hle)
  | @fetch id resume hfail hgo ih =>
    rw [runUnder, answer]
    cases hw : w k with
    | some e =>
      obtain ⟨a, ha, hcut⟩ := hfail e
      simp only [ha, runUnder]
      exact .cut (Nat.le_refl k) (fun j hle hlt => absurd hlt (Nat.not_lt.mpr hle)) hw hcut
    | none =>
      -- this fetch did not fail, and the rest begins behind it
      have hbefore : ∀ {last : Nat}, (∀ j, k + 1 ≤ j → j < last → w j = none) →
          ∀ j, k ≤ j → j < last → w j = none := by
        intro last hnone j hle hlt
        rcases Nat.eq_or_lt_of_le hle with rfl | hlt'
        · exact hw
        · exact hnone j hlt' hlt
      have hrest := ih (k + 1)
      simp only
      generalize (resume (s.fetch id)).runUnder s w (k + 1) = out at hrest
      cases hrest with
      | whole hle hnone => exact .whole (Nat.le_of_succ_le hle) (hbefore hnone)
      | cut hle hnone hfail hcut =>
        exact .cut (Nat.le_of_succ_le hle) (hbefore hnone) hfail hcut

/-- A computation that gives up with an error has not failed if it has succeeded. -/
theorem Stops.run_eq_ok {ε : Type} {p : Fetching (Except ε α)} {g : StoreError → ε}
    (hp : p.Stops s fun e result => result = .error (g e)) {a : α} {last : Nat}
    (h : p.runUnder s w k = (.ok a, last)) : p.run s = .ok a := by
  have houtcome := hp.outcome w k
  rw [h] at houtcome
  generalize p.run s = whole at houtcome ⊢
  cases houtcome with
  | whole => rfl
  | cut _ _ _ hcut => contradiction

end Fetching

end RangeStore
