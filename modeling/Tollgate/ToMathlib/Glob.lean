import Mathlib.Data.List.Infix

/-! # Globs with one wildcard symbol

A glob is a list in which one distinguished symbol stands for any run of elements, the empty run
included, and every other element stands for itself. The lemmas expose the two literal ends of a
glob, which every matching text must carry, and the freedom of a leading wildcard.
-/

namespace Glob

variable {α : Type*} {star : α}

/-- Whether the whole text matches the glob. -/
inductive Matches (star : α) : List α → List α → Prop
  | nil : Matches star [] []
  | literal {c : α} {glob text : List α} (plain : c ≠ star) (rest : Matches star glob text) :
      Matches star (c :: glob) (c :: text)
  | skip {glob text : List α} (rest : Matches star glob text) : Matches star (star :: glob) text
  | take {c : α} {glob text : List α} (rest : Matches star (star :: glob) text) :
      Matches star (star :: glob) (c :: text)

namespace Matches

theorem nil_left_iff {text : List α} : Matches star [] text ↔ text = [] := by
  constructor
  · intro matched
    cases matched
    rfl
  · rintro rfl
    exact .nil

theorem literal_iff {c : α} (plain : c ≠ star) {glob text : List α} :
    Matches star (c :: glob) text ↔ ∃ rest, text = c :: rest ∧ Matches star glob rest := by
  constructor
  · intro matched
    cases matched with
    | literal _ rest => exact ⟨_, rfl, rest⟩
    | skip => exact absurd rfl plain
    | take => exact absurd rfl plain
  · rintro ⟨rest, rfl, matched⟩
    exact .literal plain matched

/-- A leading wildcard drops some front of the text. -/
theorem star_iff {glob text : List α} :
    Matches star (star :: glob) text ↔ ∃ front back, text = front ++ back ∧ Matches star glob back := by
  constructor
  · intro matched
    generalize equal : star :: glob = pattern at matched
    induction matched with
    | nil => contradiction
    | literal plain _ _ => exact absurd (List.cons.inj equal).1.symm plain
    | skip rest _ =>
      obtain rfl := (List.cons.inj equal).2
      exact ⟨[], _, rfl, rest⟩
    | @take c _ _ _ ih =>
      obtain ⟨front, back, rfl, rest⟩ := ih equal
      exact ⟨c :: front, back, rfl, rest⟩
  · rintro ⟨front, back, rfl, rest⟩
    induction front with
    | nil => exact .skip rest
    | cons c front ih => exact .take ih

/-- A leading wildcard also absorbs whatever stands before a matching text. -/
theorem star_prepend {glob text : List α} (front : List α) (matched : Matches star (star :: glob) text) :
    Matches star (star :: glob) (front ++ text) := by
  obtain ⟨skipped, back, rfl, rest⟩ := star_iff.mp matched
  exact star_iff.mpr ⟨front ++ skipped, back, (List.append_assoc ..).symm, rest⟩

/-- A literal head must start the text, and the rest of the glob matches what follows it. -/
theorem head_iff {head : List α} (plain : star ∉ head) {glob text : List α} :
    Matches star (head ++ glob) text ↔ ∃ rest, text = head ++ rest ∧ Matches star glob rest := by
  induction head generalizing text with
  | nil => simp
  | cons c head ih =>
    have plainHead : c ≠ star := fun equal => plain (equal ▸ List.mem_cons_self ..)
    have plainTail : star ∉ head := fun member => plain (List.mem_cons_of_mem _ member)
    rw [List.cons_append, literal_iff plainHead]
    simp only [ih plainTail]
    constructor
    · rintro ⟨_, rfl, rest, rfl, matched⟩
      exact ⟨rest, rfl, matched⟩
    · rintro ⟨rest, rfl, matched⟩
      exact ⟨head ++ rest, rfl, rest, rfl, matched⟩

/-- Without a wildcard a glob matches only itself. -/
theorem literals_iff {glob text : List α} (plain : star ∉ glob) : Matches star glob text ↔ text = glob := by
  have split : Matches star (glob ++ []) text ↔ _ := head_iff plain
  rw [List.append_nil] at split
  simpa [nil_left_iff] using split

/-- A literal tail must end the text. -/
theorem tail_suffix {glob tail text : List α} (plain : star ∉ tail)
    (matched : Matches star (glob ++ tail) text) : tail <:+ text := by
  induction glob generalizing text with
  | nil =>
    rw [(literals_iff plain).mp matched]
  | cons c glob ih =>
    by_cases wild : c = star
    · subst wild
      obtain ⟨front, back, rfl, rest⟩ := star_iff.mp matched
      exact (ih rest).trans (List.suffix_append front back)
    · obtain ⟨back, rfl, rest⟩ := (literal_iff wild).mp matched
      exact (ih rest).trans (List.suffix_cons c back)

/-- Only wildcards match the empty text. -/
theorem nil_right_iff {glob : List α} : Matches star glob [] ↔ ∀ c ∈ glob, c = star := by
  induction glob with
  | nil => simp [nil_left_iff]
  | cons c glob ih =>
    by_cases wild : c = star
    · subst wild
      rw [star_iff, List.forall_mem_cons, ← ih]
      constructor
      · rintro ⟨front, back, empty, rest⟩
        obtain ⟨rfl, rfl⟩ := List.append_eq_nil_iff.mp empty.symm
        exact ⟨rfl, rest⟩
      · rintro ⟨_, rest⟩
        exact ⟨[], [], rfl, rest⟩
    · rw [literal_iff wild, List.forall_mem_cons]
      simp [wild]

/-- Every literal of a glob occurs in each matching text. -/
theorem mem_of_mem {glob text : List α} (matched : Matches star glob text) {c : α} (plain : c ≠ star)
    (member : c ∈ glob) : c ∈ text := by
  induction matched with
  | nil => exact member
  | literal _ _ ih =>
    rcases List.mem_cons.mp member with rfl | member
    · exact List.mem_cons_self ..
    · exact List.mem_cons_of_mem _ (ih member)
  | skip _ ih =>
    rcases List.mem_cons.mp member with rfl | member
    · exact absurd rfl plain
    · exact ih member
  | take _ ih => exact List.mem_cons_of_mem _ (ih member)

/-- Two globs in a row match two texts in a row. -/
theorem append_iff {first second text : List α} : Matches star (first ++ second) text ↔
    ∃ front back, text = front ++ back ∧ Matches star first front ∧ Matches star second back := by
  induction first generalizing text with
  | nil =>
    simp only [List.nil_append, nil_left_iff]
    constructor
    · intro matched
      exact ⟨[], text, rfl, rfl, matched⟩
    · rintro ⟨_, back, rfl, rfl, matched⟩
      exact matched
  | cons c first ih =>
    rw [List.cons_append]
    by_cases wild : c = star
    · subst wild
      simp only [star_iff, ih]
      constructor
      · rintro ⟨skipped, _, rfl, front, back, rfl, inFront, inBack⟩
        exact ⟨skipped ++ front, back, (List.append_assoc ..).symm, ⟨skipped, front, rfl, inFront⟩, inBack⟩
      · rintro ⟨_, back, rfl, ⟨skipped, front, rfl, inFront⟩, inBack⟩
        exact ⟨skipped, front ++ back, List.append_assoc .., front, back, rfl, inFront, inBack⟩
    · simp only [literal_iff wild, ih]
      constructor
      · rintro ⟨_, rfl, front, back, rfl, inFront, inBack⟩
        exact ⟨c :: front, back, rfl, ⟨front, rfl, inFront⟩, inBack⟩
      · rintro ⟨_, back, rfl, ⟨front, rfl, inFront⟩, inBack⟩
        exact ⟨front ++ back, rfl, front, back, rfl, inFront, inBack⟩

theorem star_all (text : List α) : Matches star [star] text :=
  star_iff.mpr ⟨text, [], (List.append_nil _).symm, .nil⟩

/-- A wildcard at the end allows any end. -/
theorem append_star_iff {glob text : List α} :
    Matches star (glob ++ [star]) text ↔ ∃ front back, text = front ++ back ∧ Matches star glob front := by
  rw [append_iff]
  exact ⟨fun ⟨front, back, split, matched, _⟩ => ⟨front, back, split, matched⟩,
    fun ⟨front, back, split, matched⟩ => ⟨front, back, split, matched, star_all back⟩⟩

theorem star_star_iff {glob text : List α} : Matches star (star :: star :: glob) text ↔ Matches star (star :: glob) text := by
  constructor
  · intro matched
    obtain ⟨front, back, rfl, rest⟩ := star_iff.mp matched
    exact star_prepend front rest
  · exact .skip

theorem append_congr {front first second : List α} (same : ∀ text, Matches star first text ↔ Matches star second text)
    (text : List α) : Matches star (front ++ first) text ↔ Matches star (front ++ second) text := by
  simp only [append_iff, same]

/-- Renaming symbols changes no match, as long as it keeps those that occur apart. -/
theorem map_iff {β : Type*} {f : α → β} {p : α → Prop} (apart : ∀ a b, p a → p b → f a = f b → a = b)
    {glob text : List α} (wild : p star) (inGlob : ∀ c ∈ glob, p c) (inText : ∀ c ∈ text, p c) :
    Matches (f star) (glob.map f) (text.map f) ↔ Matches star glob text := by
  induction glob generalizing text with
  | nil => simp [nil_left_iff]
  | cons c glob ih =>
    obtain ⟨head, tail⟩ := List.forall_mem_cons.mp inGlob
    rw [List.map_cons]
    by_cases equal : c = star
    · subst equal
      rw [star_iff, star_iff]
      constructor
      · rintro ⟨_, _, split, rest⟩
        obtain ⟨front, back, rfl, rfl, rfl⟩ := List.map_eq_append_iff.mp split
        exact ⟨front, back, rfl, (ih tail fun c member => inText c (by simp [member])).mp rest⟩
      · rintro ⟨front, back, rfl, rest⟩
        exact ⟨front.map f, back.map f, List.map_append,
          (ih tail fun c member => inText c (by simp [member])).mpr rest⟩
    · have different : f c ≠ f star := fun same => equal (apart c star head wild same)
      rw [literal_iff equal, literal_iff different]
      constructor
      · rintro ⟨_, split, rest⟩
        obtain ⟨d, back, rfl, same, rfl⟩ := List.map_eq_cons_iff.mp split
        obtain rfl := apart d c (inText d (by simp)) head same
        exact ⟨back, rfl, (ih tail fun c member => inText c (by simp [member])).mp rest⟩
      · rintro ⟨back, rfl, rest⟩
        exact ⟨back.map f, rfl, (ih tail fun c member => inText c (by simp [member])).mpr rest⟩

end Matches

end Glob
