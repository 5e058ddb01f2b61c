import Mathlib.Data.List.Infix
import Mathlib.Data.List.Basic

/-! # Tails of a separated list

A name is a list cut into labels by a separator. `tailsAfter` lists what stands after each
separator, which for a host name are its parents, and `Under` relates a tail to the whole. Two
tails of one list are always comparable; everything here is independent of the label alphabet.
-/

namespace List

variable {α : Type*}

/-- `tail` is the whole list, or stands right after one of its separators. -/
def Under (sep : α) (tail whole : List α) : Prop :=
  tail = whole ∨ ∃ front, whole = front ++ sep :: tail

theorem Under.refl (sep : α) (whole : List α) : Under sep whole whole := .inl rfl

theorem Under.suffix {sep : α} {tail whole : List α} (under : Under sep tail whole) : tail <:+ whole := by
  rcases under with rfl | ⟨front, rfl⟩
  · exact suffix_refl _
  · exact (suffix_cons sep tail).trans (suffix_append front _)

theorem Under.of_append_cons (sep : α) (front tail : List α) : Under sep tail (front ++ sep :: tail) :=
  .inr ⟨front, rfl⟩

theorem Under.trans {sep : α} {first second third : List α} (lower : Under sep first second)
    (upper : Under sep second third) : Under sep first third := by
  rcases lower with rfl | ⟨front, rfl⟩
  · exact upper
  · rcases upper with rfl | ⟨outer, rfl⟩
    · exact .of_append_cons ..
    · exact .inr ⟨outer ++ sep :: front, by simp⟩

/-- Two tails of one list are nested. -/
theorem Under.total {sep : α} {first second whole : List α} (left : Under sep first whole)
    (right : Under sep second whole) :
    Under sep first second ∨ ∃ front, first = front ++ sep :: second := by
  rcases right with rfl | ⟨front, rfl⟩
  · exact .inl left
  · rcases left with rfl | ⟨outer, equal⟩
    · exact .inr ⟨front, rfl⟩
    · rcases append_eq_append_iff.mp equal with ⟨middle, rfl, tails⟩ | ⟨middle, rfl, tails⟩
      · cases middle with
        | nil => exact .inl (.inl (cons.inj tails).2.symm)
        | cons c middle =>
          obtain ⟨rfl, rfl⟩ := cons.inj tails
          exact .inl (.of_append_cons ..)
      · cases middle with
        | nil => exact .inl (.inl (cons.inj tails).2)
        | cons c middle =>
          obtain ⟨rfl, rfl⟩ := cons.inj tails
          exact .inr ⟨middle, rfl⟩

theorem Under.length_le {sep : α} {tail whole : List α} (under : Under sep tail whole) :
    tail.length ≤ whole.length := under.suffix.length_le

theorem Under.map {β : Type*} {sep : α} {tail whole : List α} (f : α → β) (under : Under sep tail whole) :
    Under (f sep) (tail.map f) (whole.map f) := by
  rcases under with rfl | ⟨front, rfl⟩
  · exact .refl ..
  · exact .inr ⟨front.map f, by simp⟩

/-- A map that sends only the separator to the separator's image loses no tail. -/
theorem under_map_iff {β : Type*} {f : α → β} {sep : α} {tail : List β} {whole : List α}
    (only : ∀ c ∈ whole, f c = f sep → c = sep) :
    Under (f sep) tail (whole.map f) ↔ ∃ inner, Under sep inner whole ∧ tail = inner.map f := by
  constructor
  · rintro (rfl | ⟨front, equal⟩)
    · exact ⟨whole, .refl .., rfl⟩
    · obtain ⟨left, right, rfl, rfl, mapped⟩ := map_eq_append_iff.mp equal
      obtain ⟨c, inner, rfl, same, rfl⟩ := map_eq_cons_iff.mp mapped
      obtain rfl := only c (by simp) same
      exact ⟨inner, .of_append_cons .., rfl⟩
  · rintro ⟨inner, under, rfl⟩
    exact under.map f

/-- A list ends in a separator and a tail exactly if they stand where the tail's length says. -/
theorem eq_append_cons_iff {sep : α} {tail whole : List α} {n : ℕ} (length : whole.length = n + 1 + tail.length) :
    (∃ front, whole = front ++ sep :: tail) ↔ whole[n]? = some sep ∧ whole.drop (n + 1) = tail := by
  constructor
  · rintro ⟨front, rfl⟩
    have before : n = front.length := by
      rw [length_append, length_cons] at length
      omega
    simp [before]
  · rintro ⟨last, rest⟩
    obtain ⟨bound, value⟩ := getElem?_eq_some_iff.mp last
    refine ⟨whole.take n, ?_⟩
    rw [← value, ← rest, getElem_cons_drop, take_append_drop]

variable [DecidableEq α]

/-- What stands after each separator, from the longest to the shortest. -/
def tailsAfter (sep : α) : List α → List (List α)
  | [] => []
  | c :: rest => if c = sep then rest :: tailsAfter sep rest else tailsAfter sep rest

theorem mem_tailsAfter_iff {sep : α} {tail whole : List α} :
    tail ∈ tailsAfter sep whole ↔ ∃ front, whole = front ++ sep :: tail := by
  induction whole with
  | nil => simp [tailsAfter]
  | cons c rest ih =>
    have step : (∃ front, c :: rest = front ++ sep :: tail) ↔
        (c = sep ∧ rest = tail) ∨ ∃ front, rest = front ++ sep :: tail := by
      constructor
      · rintro ⟨front, equal⟩
        cases front with
        | nil => exact .inl (cons.inj equal)
        | cons _ front => exact .inr ⟨front, (cons.inj equal).2⟩
      · rintro (⟨rfl, rfl⟩ | ⟨front, rfl⟩)
        · exact ⟨[], rfl⟩
        · exact ⟨c :: front, rfl⟩
    rw [step, ← ih, tailsAfter]
    split
    · next same => simp [same, eq_comm]
    · next different => simp [different]

theorem under_iff_mem {sep : α} {tail whole : List α} :
    Under sep tail whole ↔ tail = whole ∨ tail ∈ tailsAfter sep whole := by
  rw [mem_tailsAfter_iff, Under]

instance (sep : α) (tail whole : List α) : Decidable (Under sep tail whole) :=
  decidable_of_iff _ under_iff_mem.symm

/-- The separator splits a list at its first occurrence. -/
theorem tailsAfter_append_of_notMem {sep : α} {front : List α} (plain : sep ∉ front) (rest : List α) :
    tailsAfter sep (front ++ sep :: rest) = rest :: tailsAfter sep rest := by
  induction front with
  | nil => simp [tailsAfter]
  | cons c front ih =>
    have different : c ≠ sep := fun equal => plain (equal ▸ mem_cons_self ..)
    rw [cons_append, tailsAfter, if_neg different]
    exact ih (fun member => plain (mem_cons_of_mem _ member))

theorem tailsAfter_eq_nil {sep : α} {whole : List α} (plain : sep ∉ whole) : tailsAfter sep whole = [] := by
  apply eq_nil_iff_forall_not_mem.mpr
  intro tail member
  obtain ⟨front, rfl⟩ := mem_tailsAfter_iff.mp member
  exact plain (by simp)

theorem tailsAfter_map {β : Type*} [DecidableEq β] {f : α → β} {sep : α} {whole : List α}
    (only : ∀ c ∈ whole, f c = f sep → c = sep) :
    tailsAfter (f sep) (whole.map f) = (tailsAfter sep whole).map (List.map f) := by
  induction whole with
  | nil => rfl
  | cons c rest ih =>
    obtain ⟨head, tail⟩ := forall_mem_cons.mp only
    rw [map_cons, tailsAfter, tailsAfter, ih tail]
    by_cases same : c = sep
    · rw [if_pos same, if_pos (congrArg f same), map_cons]
    · rw [if_neg same, if_neg (fun equal => same (head equal))]

/-- Induction on the first separator. -/
theorem separated_induction (sep : α) {motive : List α → Prop} (plain : ∀ whole, sep ∉ whole → motive whole)
    (split : ∀ front rest, sep ∉ front → motive rest → motive (front ++ sep :: rest)) (whole : List α) :
    motive whole := by
  induction length : whole.length using Nat.strong_induction_on generalizing whole with
  | _ n ih =>
    by_cases member : sep ∈ whole
    · obtain ⟨front, rest, rfl, first⟩ := eq_append_cons_of_mem member
      refine split front rest first (ih rest.length ?_ rest rfl)
      rw [← length, length_append, length_cons]
      omega
    · exact plain whole member

/-- Splitting a list that is mapped by a function that gives the separator only for the separator. -/
theorem splitOn_map {β : Type*} [DecidableEq β] {f : α → β} {sep : α} {whole : List α}
    (only : ∀ c ∈ whole, f c = f sep → c = sep) :
    (whole.map f).splitOn (f sep) = (whole.splitOn sep).map (List.map f) := by
  have still : ∀ {part : List α}, (∀ c ∈ part, f c = f sep → c = sep) → sep ∉ part → f sep ∉ part.map f := by
    intro part inside absent member
    obtain ⟨c, found, same⟩ := mem_map.mp member
    exact absent (inside c found same ▸ found)
  induction whole using separated_induction sep with
  | plain whole absent => rw [splitOn_eq_singleton absent, splitOn_eq_singleton (still only absent), map_singleton]
  | split front rest absent ih =>
    obtain ⟨inFront, inRest⟩ := forall_mem_append.mp only
    rw [map_append, map_cons, splitOn_append_cons_self_of_not_mem absent,
      splitOn_append_cons_self_of_not_mem (still inFront absent), ih (forall_mem_cons.mp inRest).2, map_cons]

/-- What holds of every element of every part holds of every element but the separators. -/
theorem forall_of_splitOn {sep : α} {p : α → Prop} {whole : List α}
    (parts : ∀ part ∈ whole.splitOn sep, ∀ c ∈ part, p c) : ∀ c ∈ whole, c = sep ∨ p c := by
  induction whole using separated_induction sep with
  | plain whole absent =>
    rw [splitOn_eq_singleton absent] at parts
    exact fun c member => .inr (parts whole (mem_singleton_self _) c member)
  | split front rest absent ih =>
    rw [splitOn_append_cons_self_of_not_mem absent] at parts
    obtain ⟨head, tail⟩ := forall_mem_cons.mp parts
    intro c member
    rcases mem_append.mp member with inFront | later
    · exact .inr (head c inFront)
    · rcases mem_cons.mp later with same | inRest
      · exact .inl same
      · exact ih tail c inRest

/-- What holds of every element but the separators holds of every element of every part. -/
theorem forall_splitOn {sep : α} {p : α → Prop} {whole : List α} (chars : ∀ c ∈ whole, c = sep ∨ p c) :
    ∀ part ∈ whole.splitOn sep, ∀ c ∈ part, p c := by
  have apart : ∀ {part : List α}, sep ∉ part → (∀ c ∈ part, c = sep ∨ p c) → ∀ c ∈ part, p c := by
    intro part absent inside c member
    rcases inside c member with rfl | holds
    · exact absurd member absent
    · exact holds
  induction whole using separated_induction sep with
  | plain whole absent =>
    rw [splitOn_eq_singleton absent]
    exact forall_mem_singleton.mpr (apart absent chars)
  | split front rest absent ih =>
    rw [splitOn_append_cons_self_of_not_mem absent]
    obtain ⟨inFront, inRest⟩ := forall_mem_append.mp chars
    exact forall_mem_cons.mpr ⟨apart absent inFront, ih (forall_mem_cons.mp inRest).2⟩

/-- The parts, each with a separator behind it, are the list with a separator behind it. -/
theorem flatMap_splitOn (sep : α) (whole : List α) :
    (whole.splitOn sep).flatMap (· ++ [sep]) = whole ++ [sep] := by
  induction whole using separated_induction sep with
  | plain whole absent => rw [splitOn_eq_singleton absent, flatMap_singleton]
  | split front rest absent ih =>
    rw [splitOn_append_cons_self_of_not_mem absent, flatMap_cons, ih]
    simp

/-- A list of nonempty parts does not end in a separator. -/
theorem getLast?_ne_of_splitOn {sep : α} {whole : List α} (parts : ∀ part ∈ whole.splitOn sep, part ≠ []) :
    whole.getLast? ≠ some sep := by
  induction whole using separated_induction sep with
  | plain whole absent => exact fun last => absent (mem_of_getLast? last)
  | split front rest absent ih =>
    rw [splitOn_append_cons_self_of_not_mem absent] at parts
    obtain ⟨-, tail⟩ := forall_mem_cons.mp parts
    have nonempty : rest ≠ [] := by
      rintro rfl
      exact tail [] (by simp) rfl
    rw [getLast?_append_of_ne_nil _ (cons_ne_nil _ _), getLast?_cons_of_ne_nil nonempty]
    exact ih tail

/-- Nonempty parts leave room for few separators. -/
theorem two_mul_tailsAfter_lt {sep : α} {whole : List α} (parts : ∀ part ∈ whole.splitOn sep, part ≠ []) :
    2 * (tailsAfter sep whole).length < whole.length := by
  induction whole using separated_induction sep with
  | plain whole absent =>
    rw [splitOn_eq_singleton absent] at parts
    rw [tailsAfter_eq_nil absent]
    exact length_pos_of_ne_nil (parts whole (mem_singleton_self _))
  | split front rest absent ih =>
    rw [splitOn_append_cons_self_of_not_mem absent] at parts
    obtain ⟨head, tail⟩ := forall_mem_cons.mp parts
    have later := ih tail
    have positive := length_pos_of_ne_nil head
    rw [tailsAfter_append_of_notMem absent, length_cons, length_append, length_cons]
    omega

end List
