import Mathlib.Data.List.Induction
import Mathlib.Data.List.Infix

/-!
# Runs of a step function

A run applies a total step to a list of inputs. `Throughout` says that a property holds in
every state of it, the first one included, and `EachStep` that every step of it meets a
condition on the state before it and on its input.

* `throughout_invariant`: what every step keeps.
* `throughout_iff`: if a step keeps a property exactly when it meets a condition, then a run
  keeps the property exactly when all its steps meet the condition.
-/

namespace Guard

variable {σ ι : Type*} {step : σ → ι → σ} {I P : σ → Prop} {ok : σ → ι → Prop} {s : σ} {i : ι}
  {is : List ι}

/-- In every state of the run from `s`. -/
def Throughout (step : σ → ι → σ) (P : σ → Prop) (s : σ) (is : List ι) : Prop :=
  ∀ pre, pre <+: is → P (pre.foldl step s)

/-- At every step of the run from `s`. -/
def EachStep (step : σ → ι → σ) (ok : σ → ι → Prop) (s : σ) (is : List ι) : Prop :=
  ∀ pre i, pre ++ [i] <+: is → ok (pre.foldl step s) i

theorem Throughout.here (h : Throughout step P s is) : P s := h [] is.nil_prefix

theorem throughout_nil : Throughout step P s [] ↔ P s := by
  constructor
  · exact Throughout.here
  · intro h pre hpre
    rw [List.prefix_nil] at hpre
    subst hpre
    exact h

theorem throughout_cons :
    Throughout step P s (i :: is) ↔ P s ∧ Throughout step P (step s i) is := by
  constructor
  · intro h
    refine ⟨h.here, fun pre hpre => ?_⟩
    exact h (i :: pre) (List.cons_prefix_cons.2 ⟨rfl, hpre⟩)
  · rintro ⟨hs, hrest⟩ pre hpre
    cases pre with
    | nil => exact hs
    | cons j pre =>
      obtain ⟨rfl, htail⟩ := List.cons_prefix_cons.1 hpre
      exact hrest pre htail

theorem eachStep_nil : EachStep step ok s [] := by
  intro pre i hpre
  simp at hpre

theorem eachStep_cons :
    EachStep step ok s (i :: is) ↔ ok s i ∧ EachStep step ok (step s i) is := by
  constructor
  · intro h
    refine ⟨h [] i (by simp), fun pre j hpre => ?_⟩
    exact h (i :: pre) j (List.cons_prefix_cons.2 ⟨rfl, hpre⟩)
  · rintro ⟨hs, hrest⟩ pre j hpre
    cases pre with
    | nil =>
      obtain ⟨rfl, -⟩ := List.cons_prefix_cons.1 hpre
      exact hs
    | cons k pre =>
      obtain ⟨rfl, htail⟩ := List.cons_prefix_cons.1 hpre
      exact hrest pre j htail

theorem EachStep.of_prefix {is' : List ι} (h : EachStep step ok s is) (hpre : is' <+: is) :
    EachStep step ok s is' := fun pre i hi => h pre i (hi.trans hpre)

/-- What every step keeps, a run keeps. -/
theorem throughout_invariant (hstep : ∀ s i, I s → I (step s i)) (hs : I s) :
    Throughout step I s is := by
  induction is generalizing s with
  | nil => exact throughout_nil.2 hs
  | cons i is ih => exact throughout_cons.2 ⟨hs, ih (hstep s i hs)⟩

/-- **A property that a step keeps exactly when it meets a condition** holds throughout a run
exactly when every step of the run meets it. An invariant of all steps may be used on the way. -/
theorem throughout_iff (hI : ∀ s i, I s → I (step s i))
    (hstep : ∀ s i, I s → P s → (P (step s i) ↔ ok s i)) (hs : I s) (hP : P s) :
    Throughout step P s is ↔ EachStep step ok s is := by
  induction is generalizing s with
  | nil => exact ⟨fun _ => eachStep_nil, fun _ => throughout_nil.2 hP⟩
  | cons i is ih =>
    rw [throughout_cons, eachStep_cons]
    constructor
    · rintro ⟨-, hrest⟩
      have hnext : P (step s i) := hrest.here
      exact ⟨(hstep s i hs hP).1 hnext, (ih (hI s i hs) hnext).1 hrest⟩
    · rintro ⟨hok, hrest⟩
      have hnext : P (step s i) := (hstep s i hs hP).2 hok
      exact ⟨hP, (ih (hI s i hs) hnext).2 hrest⟩

end Guard
