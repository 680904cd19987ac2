import NettyTcpWeb.Library.Runs

/-!
# Refinement of automata

A concrete automaton refines an abstract one if each of its states stands for an abstract state, and
each of its events for a list of abstract events that lead between these states. An event that the
abstract automaton does not see stands for none. So a concrete run stands for an abstract run, and
what holds along all abstract runs holds of what the concrete ones stand for.

## Main definitions

* `Refinement`: the abstract state and the abstract events of a concrete step
* `Refinement.trace`: the abstract events of a concrete run

## Main results

* `Refinement.exec_trace`: the abstract events lead to the abstract state
* `Refinement.run_trace`: **a concrete run stands for an abstract run**
* `Refinement.mem_trace_iff`: an abstract event is one of some concrete step
* `Run.linearize`: **a run whose steps take effect one by one** is matched by those that do
-/

namespace Automaton

section Append

variable {σ ε : Type*} {A : Automaton σ ε} {P : σ → ε → Prop} {s : σ} {es fs : List ε}

theorem along_append : A.Along P s (es ++ fs) ↔ A.Along P s es ∧ A.Along P (A.exec s es) fs := by
  induction es generalizing s with
  | nil => exact (and_iff_right along_nil).symm
  | cons e es ih =>
    rw [List.cons_append, along_cons, along_cons, ih, and_assoc]
    rfl

theorem run_append : A.Run s (es ++ fs) ↔ A.Run s es ∧ A.Run (A.exec s es) fs := along_append

end Append

variable {σ ε τ φ : Type*}

/-- Each state of `A` stands for one of `B`, and each step of `A` for a run of `B`. -/
structure Refinement (A : Automaton σ ε) (B : Automaton τ φ) where
  abs : σ → τ
  events : σ → ε → List φ
  next : ∀ s e, abs (A.next s e) = B.exec (abs s) (events s e)
  run : ∀ s e, A.enabled s e → B.Run (abs s) (events s e)

namespace Refinement

variable {A : Automaton σ ε} {B : Automaton τ φ} (R : A.Refinement B) {s t : σ} {e : ε}
  {es fs : List ε}

/-- The abstract events of a list of concrete ones. -/
def trace : σ → List ε → List φ
  | _, [] => []
  | s, e :: es => R.events s e ++ trace (A.next s e) es

theorem trace_cons : R.trace s (e :: es) = R.events s e ++ R.trace (A.next s e) es := rfl

theorem trace_append : R.trace s (es ++ fs) = R.trace s es ++ R.trace (A.exec s es) fs := by
  induction es generalizing s with
  | nil => rfl
  | cons e es ih =>
    rw [List.cons_append, trace_cons, trace_cons, ih, List.append_assoc]
    rfl

theorem trace_concat : R.trace s (es ++ [e]) = R.trace s es ++ R.events (A.exec s es) e := by
  rw [trace_append, trace_cons]
  exact congrArg _ (List.append_nil _)

/-- The abstract events lead to the abstract state. -/
theorem exec_trace (s : σ) (es : List ε) :
    R.abs (A.exec s es) = B.exec (R.abs s) (R.trace s es) := by
  induction es generalizing s with
  | nil => rfl
  | cons e es ih =>
    rw [trace_cons, exec_append, ← R.next]
    exact ih (A.next s e)

/-- **A concrete run stands for an abstract run.** -/
theorem run_trace (h : A.Run s es) : B.Run (R.abs s) (R.trace s es) := by
  induction es generalizing s with
  | nil => exact along_nil
  | cons e es ih =>
    obtain ⟨he, h⟩ := run_cons.mp h
    rw [trace_cons, run_append, ← R.next]
    exact ⟨R.run s e he, ih h⟩

/-- An abstract event is one of the step that some concrete event takes in the state it meets. -/
theorem mem_trace_iff {f : φ} : f ∈ R.trace s es ↔
    ∃ xs e ys, es = xs ++ e :: ys ∧ f ∈ R.events (A.exec s xs) e := by
  induction es generalizing s with
  | nil =>
    refine iff_of_false List.not_mem_nil ?_
    rintro ⟨xs, e, ys, he, -⟩
    exact List.append_ne_nil_of_right_ne_nil xs (List.cons_ne_nil e ys) he.symm
  | cons e es ih =>
    rw [trace_cons, List.mem_append, ih]
    constructor
    · rintro (h | ⟨xs, e', ys, rfl, h⟩)
      · exact ⟨[], e, es, rfl, h⟩
      · exact ⟨e :: xs, e', ys, rfl, h⟩
    · rintro ⟨xs, e', ys, he, h⟩
      cases xs with
      | nil =>
        obtain ⟨rfl, rfl⟩ := List.cons.inj he
        exact .inl h
      | cons x xs =>
        obtain ⟨rfl, rfl⟩ := List.cons.inj he
        exact .inr ⟨xs, e', ys, rfl, h⟩

end Refinement

/-! ## Linearization -/

/-- If each step of `A` is matched by the step of `B` for the same event, or by none, then a run of
`A` is matched by the run of `B` over some of its events, in the same order. -/
theorem Run.linearize {A : Automaton σ ε} {B : Automaton τ ε} {R : σ → τ → Prop} {s : σ} {u : τ}
    {es : List ε} (hrun : A.Run s es) (hR : R s u)
    (hstep : ∀ s u e, R s u → A.enabled s e →
      R (A.next s e) u ∨ B.enabled u e ∧ R (A.next s e) (B.next u e)) :
    ∃ order, order.Sublist es ∧ B.Run u order ∧ R (A.exec s es) (B.exec u order) := by
  induction es generalizing s u with
  | nil => exact ⟨[], .slnil, along_nil, hR⟩
  | cons e es ih =>
    obtain ⟨he, hrun⟩ := run_cons.mp hrun
    rcases hstep s u e hR he with hnext | ⟨hu, hnext⟩
    · obtain ⟨order, hsub, hB, hlast⟩ := ih hrun hnext
      exact ⟨order, hsub.cons e, hB, hlast⟩
    · obtain ⟨order, hsub, hB, hlast⟩ := ih hrun hnext
      exact ⟨e :: order, hsub.cons_cons e, ⟨hu, hB⟩, hlast⟩

end Automaton
