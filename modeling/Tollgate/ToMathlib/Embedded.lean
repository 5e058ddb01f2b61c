import Mathlib.Data.List.Infix

/-! # A part of a list at an offset

`HasAt xs start part` says that `part` stands in `xs` from offset `start` on. It splits over
concatenation, so a reader that moves through a list by offsets can be described by the parts it
passes, one after the other.
-/

namespace List

variable {α : Type*} {xs part first second : List α} {start : ℕ} {a : α}

/-- The list holds the part from the offset on. -/
def HasAt (xs : List α) (start : ℕ) (part : List α) : Prop := part <+: xs.drop start

@[simp] theorem hasAt_nil : HasAt xs start [] := nil_prefix

theorem hasAt_append_iff :
    HasAt xs start (first ++ second) ↔ HasAt xs start first ∧ HasAt xs (start + first.length) second := by
  constructor
  · rintro ⟨rest, same⟩
    refine ⟨⟨second ++ rest, by rw [← same, append_assoc]⟩, rest, ?_⟩
    rw [← drop_drop, ← same, append_assoc, drop_left]
  · rintro ⟨⟨middle, same⟩, rest, tail⟩
    rw [← drop_drop, ← same, drop_left] at tail
    exact ⟨rest, by rw [append_assoc, tail, same]⟩

theorem hasAt_singleton_iff : HasAt xs start [a] ↔ xs[start]? = some a := by
  rw [HasAt, ← head?_drop]
  cases xs.drop start with
  | nil => simp
  | cons b rest => simp [eq_comm]

theorem hasAt_cons_iff : HasAt xs start (a :: part) ↔ xs[start]? = some a ∧ HasAt xs (start + 1) part := by
  rw [← singleton_append, hasAt_append_iff, hasAt_singleton_iff, length_singleton]

theorem HasAt.length_le (here : HasAt xs start part) (nonempty : part ≠ []) : start + part.length ≤ xs.length := by
  have short := IsPrefix.length_le here
  have positive := length_pos_of_ne_nil nonempty
  rw [length_drop] at short
  omega

theorem HasAt.getElem? (here : HasAt xs start part) {i : ℕ} (inside : i < part.length) :
    xs[start + i]? = part[i]? := by
  obtain ⟨rest, split⟩ := here
  rw [← getElem?_drop, ← split, getElem?_append_left inside]

theorem HasAt.take_drop (here : HasAt xs start part) : (xs.drop start).take part.length = part :=
  (prefix_iff_eq_take.mp here).symm

/-- Every part of a list stands at the length of what comes before it. -/
theorem hasAt_middle (before part after : List α) : HasAt (before ++ (part ++ after)) before.length part := by
  rw [HasAt, drop_left]
  exact prefix_append ..

/-- Whatever lies inside a list from an offset on can be read there. -/
theorem hasAt_take_drop (xs : List α) (start width : ℕ) : HasAt xs start ((xs.drop start).take width) :=
  take_prefix ..

/-- A part read at an offset cuts the list in three. -/
theorem HasAt.exists_split (here : HasAt xs start part) (inside : start ≤ xs.length) :
    ∃ before after, xs = before ++ (part ++ after) ∧ before.length = start := by
  obtain ⟨after, same⟩ := here
  exact ⟨xs.take start, after, by rw [same, take_append_drop], length_take_of_le inside⟩

end List
