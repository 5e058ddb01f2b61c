import Tollgate.Machine.Runs

/-! # Runs seen from above

A machine with labelled steps says what a component is for; a run of it is a path with its labels, newest
first. If each step of a machine below is one step above, with the label that its input and its outcome have,
then each run below is a path above with these labels.
-/

namespace Tollgate.Machine

variable {σ τ ι κ : Type*}

/-- From a start to a state, with the labels of the steps, newest first. -/
inductive Path (moves : τ → κ → τ → Prop) (start : τ) : List κ → τ → Prop where
  | nil : Path moves start [] start
  | cons {past : List κ} {before after : τ} {label : κ} (path : Path moves start past before)
      (moved : moves before label after) : Path moves start (label :: past) after

/-- The labels of a history, newest first. -/
def labels (step : σ → ι → Option σ) (start : σ) (label : ι → σ → κ) : List ι → List κ
  | [] => []
  | input :: past =>
      ((run step start (input :: past)).map (label input)).toList ++ labels step start label past

variable {step : σ → ι → Option σ} {start state : σ} {label : ι → σ → κ} {history : List ι}

theorem labels_cons {input : ι} {past : List ι} (ran : run step start (input :: past) = some state) :
    labels step start label (input :: past) = label input state :: labels step start label past := by
  rw [labels, ran]
  rfl

/-- A run is a path above, if each step from a state where an invariant holds is one above. -/
theorem path_of_run {moves : τ → κ → τ → Prop} (view : σ → τ) (holds : σ → Prop) (initial : holds start)
    (kept : ∀ before input after, holds before → step before input = some after → holds after)
    (above : ∀ before input after, holds before → step before input = some after →
      moves (view before) (label input after) (view after))
    (ran : run step start history = some state) :
    Path moves (view start) (labels step start label history) (view state) := by
  induction history generalizing state with
  | nil =>
    obtain rfl := Option.some.inj ran
    exact .nil
  | cons input past ih =>
    obtain ⟨before, earlier, stepped⟩ := run_cons.mp ran
    have sound : holds before :=
      run_invariant holds initial (fun before input after held _ => kept before input after held)
        (along_of_forall_mem fun _ _ _ => trivial) earlier
    rw [labels_cons ran]
    exact .cons (ih earlier) (above before input state sound stepped)

end Tollgate.Machine
