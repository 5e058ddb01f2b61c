import Mathlib.Data.List.DropRight

/-! # Words of a list

The words are the longest runs without a separator, where the separators are the elements that satisfy `p`.
Separators at either end do not matter, and the first word is found at the first place that is no separator.
-/

namespace List

variable {α : Type*} {p : α → Bool}

/-- The nonempty parts between separators. -/
def words (p : α → Bool) (whole : List α) : List (List α) := (whole.splitOnP p).filter (· ≠ [])

@[simp] theorem words_nil : words p [] = [] := by simp [words]

theorem words_append_cons (first second : List α) {sep : α} (met : p sep = true) :
    words p (first ++ sep :: second) = words p first ++ words p second := by
  rw [words, splitOnP_append_cons _ _ met, filter_append, words, words]

theorem words_singleton {word : List α} (nonempty : word ≠ []) (plain : ∀ c ∈ word, p c = false) :
    words p word = [word] := by
  simp [words, splitOnP_eq_singleton plain, nonempty]

theorem words_append_of_seps {front : List α} (seps : ∀ c ∈ front, p c = true) (rest : List α) :
    words p (front ++ rest) = words p rest := by
  induction front with
  | nil => rfl
  | cons c front ih =>
    obtain ⟨head, tail⟩ := forall_mem_cons.mp seps
    rw [← ih tail, cons_append]
    exact words_append_cons [] _ head

theorem words_eq_nil_of_seps {whole : List α} (seps : ∀ c ∈ whole, p c = true) : words p whole = [] := by
  have all := words_append_of_seps seps []
  rwa [append_nil, words_nil] at all

theorem seps_of_words_eq_nil {whole : List α} (none : words p whole = []) : ∀ c ∈ whole, p c = true := by
  induction whole with
  | nil => nofun
  | cons c rest ih =>
    cases sep : p c with
    | true =>
      have later : words p (c :: rest) = words p rest := words_append_cons [] rest sep
      exact forall_mem_cons.mpr ⟨sep, ih (later ▸ none)⟩
    | false =>
      rw [words, splitOnP_cons_eq_if_modifyHead, if_neg (by simp [sep])] at none
      obtain ⟨first, parts, same⟩ := exists_cons_of_ne_nil (splitOnP_ne_nil p rest)
      rw [same, modifyHead_cons] at none
      simp at none

theorem words_append_seps (whole : List α) {back : List α} (seps : ∀ c ∈ back, p c = true) :
    words p (whole ++ back) = words p whole := by
  cases back with
  | nil => rw [append_nil]
  | cons c back =>
    obtain ⟨head, tail⟩ := forall_mem_cons.mp seps
    rw [words_append_cons _ _ head, words_eq_nil_of_seps tail, append_nil]

/-- A run without separators, before a separator or the end, is a word. -/
theorem words_append {word rest : List α} (nonempty : word ≠ []) (plain : ∀ c ∈ word, p c = false)
    (ends : ∀ c ∈ rest.head?, p c = true) : words p (word ++ rest) = word :: words p rest := by
  cases rest with
  | nil => rw [append_nil, words_singleton nonempty plain, words_nil]
  | cons c rest =>
    have same : words p (c :: rest) = words p rest := words_append_cons [] rest (ends c rfl)
    rw [words_append_cons _ _ (ends c rfl), words_singleton nonempty plain, same, singleton_append]

/-- The first word, with what stands before and behind it. -/
theorem words_eq_cons {whole word : List α} {rest : List (List α)} (found : words p whole = word :: rest) :
    ∃ front back, whole = front ++ (word ++ back) ∧ (∀ c ∈ front, p c = true) ∧ word ≠ [] ∧
      (∀ c ∈ word, p c = false) ∧ (∀ c ∈ back.head?, p c = true) ∧ words p back = rest := by
  have seps : ∀ c ∈ whole.takeWhile p, p c = true := fun c member => mem_takeWhile_imp member
  cases later : whole.dropWhile p with
  | nil =>
    rw [words_eq_nil_of_seps (dropWhile_eq_nil_iff.mp later)] at found
    contradiction
  | cons first behind =>
    have stop := head?_dropWhile_not p whole
    rw [later] at stop
    have start : p first = false := by simpa using stop
    have split : whole = whole.takeWhile p ++
        (first :: behind.takeWhile (fun c => !p c) ++ behind.dropWhile (fun c => !p c)) := by
      rw [cons_append, takeWhile_append_dropWhile, ← later, takeWhile_append_dropWhile]
    have plain : ∀ c ∈ first :: behind.takeWhile (fun c => !p c), p c = false := by
      intro c member
      rcases mem_cons.mp member with rfl | inside
      · exact start
      · simpa using mem_takeWhile_imp inside
    have ends : ∀ c ∈ (behind.dropWhile fun c => !p c).head?, p c = true := by
      intro c next
      have met := head?_dropWhile_not (fun c => !p c) behind
      rw [Option.mem_def.mp next] at met
      simpa using met
    rw [split, words_append_of_seps seps, words_append (cons_ne_nil _ _) plain ends] at found
    obtain ⟨rfl, rfl⟩ := cons.inj found
    exact ⟨_, _, split, seps, cons_ne_nil _ _, plain, ends, rfl⟩

theorem mem_of_mem_words {whole word : List α} (found : word ∈ words p whole) : ∀ c ∈ word, c ∈ whole := by
  induction count : words p whole generalizing whole with
  | nil => simp [count] at found
  | cons first rest ih =>
    obtain ⟨front, back, rfl, -, -, -, -, later⟩ := words_eq_cons count
    rw [count] at found
    intro c member
    rcases mem_cons.mp found with rfl | inRest
    · simp [member]
    · have inBack := @ih back (later ▸ inRest) later c member
      simp [inBack]

end List
