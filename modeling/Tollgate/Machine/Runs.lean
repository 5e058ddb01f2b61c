import Mathlib.Data.Option.Basic

/-! # Runs of a machine that may refuse an input

A step returns nothing where the input is not possible. A run is then a history of inputs that were
all possible, newest first, and `Along` says of a run that every input was also allowed by a condition
on the state it came in. What one step keeps, a whole run keeps.
-/

namespace Tollgate.Machine

variable {σ ι : Type*}

/-- The state after a history of inputs, newest first, if each of them was possible. -/
def run (step : σ → ι → Option σ) (start : σ) : List ι → Option σ
  | [] => some start
  | input :: past => (run step start past).bind fun state => step state input

/-- Every input of a history was allowed in the state it came in. -/
def Along (step : σ → ι → Option σ) (start : σ) (allowed : σ → ι → Prop) : List ι → Prop
  | [] => True
  | input :: past => (∀ state, run step start past = some state → allowed state input) ∧ Along step start allowed past

instance Along.decidable (step : σ → ι → Option σ) (start : σ) (allowed : σ → ι → Prop)
    [∀ state input, Decidable (allowed state input)] : (history : List ι) → Decidable (Along step start allowed history)
  | [] => isTrue trivial
  | input :: past =>
      haveI : Decidable (∀ state, run step start past = some state → allowed state input) :=
        inferInstanceAs (Decidable (∀ state ∈ run step start past, allowed state input))
      haveI := Along.decidable step start allowed past
      inferInstanceAs (Decidable (_ ∧ _))

variable {step : σ → ι → Option σ} {start state : σ} {allowed : σ → ι → Prop} {history : List ι}

theorem run_cons {input : ι} {past : List ι} :
    run step start (input :: past) = some state ↔ ∃ before, run step start past = some before ∧ step before input = some state :=
  Option.bind_eq_some_iff

/-- What holds at the start and is kept by every allowed step holds after every run of allowed steps. -/
theorem run_invariant (holds : σ → Prop) (initial : holds start)
    (kept : ∀ before input after, holds before → allowed before input → step before input = some after → holds after)
    (along : Along step start allowed history) (ran : run step start history = some state) : holds state := by
  induction history generalizing state with
  | nil =>
    obtain rfl := Option.some.inj ran
    exact initial
  | cons input past ih =>
    obtain ⟨before, earlier, stepped⟩ := run_cons.mp ran
    exact kept before input state (ih along.2 earlier) (along.1 before earlier) stepped

/-- Inputs that are allowed in every state are allowed along every run. -/
theorem along_of_forall_mem (always : ∀ input ∈ history, ∀ state, allowed state input) :
    Along step start allowed history := by
  induction history with
  | nil => trivial
  | cons input past ih =>
    obtain ⟨here, earlier⟩ := List.forall_mem_cons.mp always
    exact ⟨fun state _ => here state, ih earlier⟩

end Tollgate.Machine
