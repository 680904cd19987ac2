import Mathlib.Logic.Basic
import Mathlib.Data.List.Basic
import Mathlib.Data.List.Induction

/-!
# Runs of event automata

An automaton takes one step for each event that is enabled in its state. A property of states holds
throughout a run if it holds before the first event and after each one; a property of steps holds
along a run if it holds of each event in the state it meets.

## Main definitions

* `Automaton`, `Automaton.exec`: an automaton, and the state behind a list of events
* `Automaton.Along`, `Automaton.Run`: a property of the steps of a list of events; the lists whose
  events are all enabled
* `Automaton.Throughout`: a property of the states of a list of events

## Main results

* `Automaton.exec_past`: what each step preserves of the past events and the state
* `Automaton.Run.invariant`: what every enabled step preserves holds throughout a run
* `Automaton.Run.throughout`: what a step preserves under a condition holds throughout a run along
  which the condition holds
* `Automaton.Run.throughout_iff`: if a step preserves a property exactly under the condition, the
  property holds throughout a run exactly if the condition holds along it
* `Automaton.Run.along_of_throughout`: what each step from a state with an invariant has holds along
  a run throughout which the invariant holds
* `Automaton.Run.along_iff`: properties of steps that agree under an invariant agree along runs
-/

/-- An automaton: which events a state admits, and the state behind an event. -/
structure Automaton (σ ε : Type*) where
  enabled : σ → ε → Prop
  next : σ → ε → σ

namespace Automaton

variable {σ ε : Type*} (A : Automaton σ ε)

/-- The state behind a list of events. -/
def exec (s : σ) (es : List ε) : σ := es.foldl A.next s

/-- Each event of the list has the property in the state it meets. -/
def Along (P : σ → ε → Prop) : σ → List ε → Prop
  | _, [] => True
  | s, e :: es => P s e ∧ Along P (A.next s e) es

/-- Every event of the list is enabled in the state it meets. -/
def Run (s : σ) (es : List ε) : Prop := A.Along A.enabled s es

/-- The state before the list and the states behind its events have the property. -/
def Throughout (I : σ → Prop) (s : σ) (es : List ε) : Prop :=
  I s ∧ A.Along (fun s e => I (A.next s e)) s es

/-- The states behind the runs from `s`. -/
def Reachable (s t : σ) : Prop := ∃ es, A.Run s es ∧ A.exec s es = t

variable {A} {P Q : σ → ε → Prop} {I J : σ → Prop} {s t : σ} {e : ε} {es fs : List ε}

@[simp] theorem along_nil : A.Along P s [] := trivial

@[simp] theorem along_cons : A.Along P s (e :: es) ↔ P s e ∧ A.Along P (A.next s e) es := Iff.rfl

theorem exec_append : A.exec s (es ++ fs) = A.exec (A.exec s es) fs := List.foldl_append

/-- A relation between the past events and the state that every step preserves. -/
theorem exec_past {R : List ε → σ → Prop} (hs : R [] s)
    (hstep : ∀ es t e, R es t → R (es ++ [e]) (A.next t e)) (es : List ε) :
    R es (A.exec s es) := by
  induction es using List.reverseRecOn with
  | nil => exact hs
  | append_singleton es e ih =>
    rw [exec_append]
    exact hstep es _ e ih

theorem run_cons : A.Run s (e :: es) ↔ A.enabled s e ∧ A.Run (A.next s e) es := Iff.rfl

theorem throughout_nil : A.Throughout I s [] ↔ I s := by simp [Throughout]

theorem throughout_cons :
    A.Throughout I s (e :: es) ↔ I s ∧ A.Throughout I (A.next s e) es := by
  simp [Throughout]

theorem Throughout.exec (h : A.Throughout I s es) : I (A.exec s es) := by
  induction es generalizing s with
  | nil => exact h.1
  | cons e es ih => exact ih (throughout_cons.mp h).2

theorem along_mono (h : A.Along P s es) (hPQ : ∀ s e, P s e → Q s e) : A.Along Q s es := by
  induction es generalizing s with
  | nil => exact along_nil
  | cons e es ih => exact along_cons.mpr ⟨hPQ s e h.1, ih h.2⟩

theorem Throughout.mono (h : A.Throughout I s es) (hIJ : ∀ s, I s → J s) :
    A.Throughout J s es :=
  ⟨hIJ s h.1, along_mono h.2 fun _ _ => hIJ _⟩

/-- A property of states that every enabled step preserves holds throughout a run. -/
theorem Run.invariant (hrun : A.Run s es) (hs : I s)
    (hstep : ∀ s e, I s → A.enabled s e → I (A.next s e)) : A.Throughout I s es := by
  induction es generalizing s with
  | nil => exact throughout_nil.mpr hs
  | cons e es ih =>
    obtain ⟨he, hrun⟩ := run_cons.mp hrun
    exact throughout_cons.mpr ⟨hs, ih hrun (hstep s e hs he)⟩

/-- A property that steps preserve under a condition holds throughout a run along which the
condition holds. -/
theorem Run.throughout (hrun : A.Run s es) (hs : I s) (hP : A.Along P s es)
    (hstep : ∀ s e, I s → A.enabled s e → P s e → I (A.next s e)) : A.Throughout I s es := by
  induction es generalizing s with
  | nil => exact throughout_nil.mpr hs
  | cons e es ih =>
    obtain ⟨he, hrun⟩ := run_cons.mp hrun
    obtain ⟨hPe, hP⟩ := along_cons.mp hP
    exact throughout_cons.mpr ⟨hs, ih hrun (hstep s e hs he hPe) hP⟩

/-- If a step preserves `I` exactly under the condition, then `I` holds throughout a run exactly if
the condition holds along it. The invariant `J` may be used for each step. -/
theorem Run.throughout_iff (hrun : A.Run s es) (hJ : J s) (hs : I s)
    (hJstep : ∀ s e, J s → A.enabled s e → J (A.next s e))
    (hstep : ∀ s e, J s → I s → A.enabled s e → (I (A.next s e) ↔ P s e)) :
    A.Throughout I s es ↔ A.Along P s es := by
  induction es generalizing s with
  | nil => exact iff_of_true (throughout_nil.mpr hs) along_nil
  | cons e es ih =>
    obtain ⟨he, hrun⟩ := run_cons.mp hrun
    rw [throughout_cons, along_cons]
    constructor
    · rintro ⟨-, h⟩
      exact ⟨(hstep s e hJ hs he).mp h.1, (ih hrun (hJstep s e hJ he) h.1).mp h⟩
    · rintro ⟨hP, h⟩
      have hnext := (hstep s e hJ hs he).mpr hP
      exact ⟨hs, (ih hrun (hJstep s e hJ he) hnext).mpr h⟩

/-- If `I` holds throughout a run, then what each step from a state with `I` has holds along it. -/
theorem Run.along_of_throughout (hrun : A.Run s es) (hJ : J s) (h : A.Throughout I s es)
    (hJstep : ∀ s e, J s → A.enabled s e → J (A.next s e))
    (hstep : ∀ s e, J s → I s → A.enabled s e → Q s e) : A.Along Q s es := by
  induction es generalizing s with
  | nil => exact along_nil
  | cons e es ih =>
    obtain ⟨he, hrun⟩ := run_cons.mp hrun
    obtain ⟨hI, h⟩ := throughout_cons.mp h
    exact along_cons.mpr ⟨hstep s e hJ hI he, ih hrun (hJstep s e hJ he) h⟩

/-- Two properties of steps that agree wherever `J` holds agree along a run. -/
theorem Run.along_iff (hrun : A.Run s es) (hJ : J s)
    (hJstep : ∀ s e, J s → A.enabled s e → J (A.next s e))
    (hstep : ∀ s e, J s → A.enabled s e → (P s e ↔ Q s e)) :
    A.Along P s es ↔ A.Along Q s es := by
  induction es generalizing s with
  | nil => exact Iff.rfl
  | cons e es ih =>
    obtain ⟨he, hrun⟩ := run_cons.mp hrun
    rw [along_cons, along_cons, hstep s e hJ he, ih hrun (hJstep s e hJ he)]

/-- What every enabled step preserves holds in every reachable state. -/
theorem Reachable.invariant (h : A.Reachable s t) (hs : I s)
    (hstep : ∀ s e, I s → A.enabled s e → I (A.next s e)) : I t := by
  obtain ⟨es, hrun, rfl⟩ := h
  exact (hrun.invariant hs hstep).exec

end Automaton
