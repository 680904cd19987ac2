import Mathlib.Logic.Basic

/-!
# Computations with a state and exceptions

A computation that changes a state and may raise keeps what it has changed before it raises. So each
outcome, a value or an exception, has a state behind it, and a reflexive and transitive relation
between the states before and after holds of a composed computation if it holds of its parts.

## Main definitions

* `stateAfter`, `outcome`: the state behind a computation, and what it returns or raises
* `StateExcept.Within R x`: every outcome of `x` leaves a state that `R` relates to the first one

## Main results

* `StateExcept.bind_apply`, `StateExcept.tryCatch_apply`: running a composed computation
* `StateExcept.Within.bind`, `StateExcept.Within.tryCatch`: a relation holds of a composed
  computation if it holds of its parts
-/

namespace StateExcept

variable {ε σ α β : Type}

/-- The state behind a computation, whether it returns or raises. -/
def stateAfter : EStateM.Result ε σ α → σ
  | .ok _ s => s
  | .error _ s => s

/-- What a computation returns or raises. -/
def outcome : EStateM.Result ε σ α → Except ε α
  | .ok a _ => .ok a
  | .error e _ => .error e

variable {x : EStateM ε σ α} {f : α → EStateM ε σ β} (s : σ)

/-! ## Running a computation -/

@[simp] theorem pure_apply (a : α) : (pure a : EStateM ε σ α) s = .ok a s := rfl

@[simp] theorem get_apply : (get : EStateM ε σ σ) s = .ok s s := rfl

@[simp] theorem modify_apply (f : σ → σ) (s : σ) :
    (modify f : EStateM ε σ Unit) s = .ok () (f s) := rfl

@[simp] theorem throw_apply (e : ε) : (throw e : EStateM ε σ α) s = .error e s := rfl

@[simp] theorem bind_apply : (x >>= f) s =
    match x s with
    | .ok a t => f a t
    | .error e t => .error e t := rfl

@[simp] theorem map_apply (g : α → β) : (g <$> x) s =
    match x s with
    | .ok a t => .ok (g a) t
    | .error e t => .error e t := rfl

@[simp] theorem tryCatch_apply {g : ε → EStateM ε σ α} : (tryCatch x g) s =
    match x s with
    | .ok a t => .ok a t
    | .error e t => g e t := by
  show EStateM.tryCatch x g s = _
  delta EStateM.tryCatch
  cases x s <;> rfl

/-! ## Relations between the states before and after -/

/-- Every outcome of the computation leaves a state that the relation admits. -/
def Within (R : σ → σ → Prop) (x : EStateM ε σ α) : Prop := ∀ s, R s (stateAfter (x s))

namespace Within

variable {R : σ → σ → Prop}

theorem pure (hrefl : ∀ s, R s s) (a : α) : Within R (pure a : EStateM ε σ α) := fun s => hrefl s

theorem throw (hrefl : ∀ s, R s s) (e : ε) : Within R (throw e : EStateM ε σ α) :=
  fun s => hrefl s

theorem get (hrefl : ∀ s, R s s) : Within R (get : EStateM ε σ σ) := fun s => hrefl s

theorem bind (htrans : ∀ s t u, R s t → R t u → R s u) (hx : Within R x)
    (hf : ∀ a, Within R (f a)) : Within R (x >>= f) := by
  intro s
  have hfirst := hx s
  rw [bind_apply]
  cases h : x s with
  | ok a t =>
    rw [h] at hfirst
    exact htrans s t _ hfirst (hf a t)
  | error e t =>
    rw [h] at hfirst
    exact hfirst

theorem tryCatch {g : ε → EStateM ε σ α} (htrans : ∀ s t u, R s t → R t u → R s u)
    (hx : Within R x) (hg : ∀ e, Within R (g e)) : Within R (tryCatch x g) := by
  intro s
  have hfirst := hx s
  rw [tryCatch_apply]
  cases h : x s with
  | ok a t =>
    rw [h] at hfirst
    exact hfirst
  | error e t =>
    rw [h] at hfirst
    exact htrans s t _ hfirst (hg e t)

end Within

end StateExcept
