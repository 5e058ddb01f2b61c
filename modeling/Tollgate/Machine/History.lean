import Mathlib.Data.List.Basic

/-! # Histories of inputs

A machine that takes one input after another is in the state its history of inputs leads to. A
history is read from its newest input, so that a property of a moment is a function of the history
up to that moment. `since` collects what such a function reads at each moment back to the last one
that clears, which is the shape of every count that a later event may reset.
-/

namespace Tollgate.Machine

variable {σ ι β : Type*}

/-- The state after a history of inputs, newest first. -/
def after (step : σ → ι → σ) (start : σ) : List ι → σ
  | [] => start
  | input :: past => step (after step start past) input

/-- What is read at each moment of a history, newest first, back to the last moment that clears. -/
def since (clears : List ι → Bool) (read : List ι → Option β) : List ι → List β
  | [] => []
  | input :: past =>
      if clears (input :: past) then []
      else (read (input :: past)).toList ++ since clears read past

variable {step : σ → ι → σ} {start : σ} {clears : List ι → Bool} {read : List ι → Option β}

theorem since_cleared {history : List ι} (cleared : clears history = true) : since clears read history = [] := by
  cases history with
  | nil => rfl
  | cons input past => rw [since, if_pos cleared]

theorem since_cons {input : ι} {past : List ι} (kept : clears (input :: past) = false) :
    since clears read (input :: past) = (read (input :: past)).toList ++ since clears read past := by
  rw [since, if_neg (by simp [kept])]

/-- What is collected was read at a moment since which nothing cleared. -/
theorem mem_since_iff {b : β} {history : List ι} : b ∈ since clears read history ↔
    ∃ moment, moment <:+ history ∧ read moment = some b ∧ moment ≠ [] ∧
      ∀ later, later <:+ history → moment <:+ later → clears later = false := by
  induction history with
  | nil =>
    refine ⟨nofun, ?_⟩
    rintro ⟨moment, suffix, -, nonempty, -⟩
    exact absurd (List.suffix_nil.mp suffix) nonempty
  | cons input past ih =>
    cases cleared : clears (input :: past) with
    | true =>
      rw [since_cleared cleared]
      refine ⟨nofun, ?_⟩
      rintro ⟨moment, suffix, -, -, kept⟩
      exact absurd (cleared.symm.trans (kept _ (List.suffix_refl _) suffix)) nofun
    | false =>
      rw [since_cons cleared, List.mem_append, Option.mem_toList, ih]
      constructor
      · rintro (here | ⟨moment, suffix, found, nonempty, kept⟩)
        · refine ⟨input :: past, List.suffix_refl _, here, List.cons_ne_nil _ _, fun later inside covers => ?_⟩
          rw [inside.eq_of_length_le covers.length_le]
          exact cleared
        · refine ⟨moment, suffix.trans (List.suffix_cons ..), found, nonempty, fun later inside covers => ?_⟩
          rcases List.suffix_cons_iff.mp inside with rfl | earlier
          · exact cleared
          · exact kept later earlier covers
      · rintro ⟨moment, suffix, found, nonempty, kept⟩
        rcases List.suffix_cons_iff.mp suffix with rfl | earlier
        · exact .inl found
        · exact .inr ⟨moment, earlier, found, nonempty,
            fun later inside => kept later (inside.trans (List.suffix_cons ..))⟩

/-- Whatever is collected was read at some moment of the history. -/
theorem exists_of_mem_since {b : β} {history : List ι} (member : b ∈ since clears read history) :
    ∃ moment, moment <:+ history ∧ read moment = some b := by
  obtain ⟨moment, suffix, found, -⟩ := mem_since_iff.mp member
  exact ⟨moment, suffix, found⟩

theorem length_since_le (history : List ι) : (since clears read history).length ≤ history.length := by
  induction history with
  | nil => exact Nat.le_refl 0
  | cons input past ih =>
    rw [since]
    split
    · exact Nat.zero_le _
    · have short : (read (input :: past)).toList.length ≤ 1 := by
        cases read (input :: past) <;> simp
      rw [List.length_append, List.length_cons]
      omega

end Tollgate.Machine
