import Mathlib.Algebra.Group.Nat.Defs
import Mathlib.Algebra.GroupWithZero.Nat
import Mathlib.Data.List.Infix

/-! # Operations that can panic

A function that can panic returns an option, with `none` for the panic: a range index outside its
slice, an `expect` on a conversion that does not fit, or a sum that overflows. Sums are taken in
integers of a given width, so one definition says what a function computes and where it overflows.
Proving that it returns `some` value is proving that it does not panic.
-/

namespace Tollgate

variable {α : Type*}

/-- `xs[first..last]`. -/
def slice (xs : List α) (first last : ℕ) : Option (List α) :=
  if first ≤ last ∧ last ≤ xs.length then some ((xs.take last).drop first) else none

/-- `u32::try_from(n).expect(..)`. -/
def expectU32 (n : ℕ) : Option ℕ := if n < 2 ^ 32 then some n else none

/-- Unsigned integers of 64 bits or more, by the numbers that fit in them. -/
class Width where
  fits : ℕ → Bool
  fits_of_lt : ∀ {n}, n < 2 ^ 64 → fits n = true
  fits_of_le : ∀ {m n}, m ≤ n → fits n = true → fits m = true

namespace Width

/-- Integers without a largest one, for what does not depend on their width. -/
instance unbounded : Width := ⟨fun _ => true, fun _ => rfl, fun _ _ => rfl⟩

@[reducible] def u64 : Width where
  fits n := n < 2 ^ 64
  fits_of_lt := decide_eq_true
  fits_of_le le fits := decide_eq_true (Nat.lt_of_le_of_lt le (of_decide_eq_true fits))

/-- `a + b`, which panics on overflow. -/
def add [Width] (a b : ℕ) : Option ℕ := if fits (a + b) then some (a + b) else none

/-- `a * b`. -/
def mul [Width] (a b : ℕ) : Option ℕ := if fits (a * b) then some (a * b) else none

/-- `a - b`. -/
def sub (a b : ℕ) : Option ℕ := if b ≤ a then some (a - b) else none

variable [Width] {a b : ℕ}

theorem add_of_le {n : ℕ} (inside : fits n = true) (le : a + b ≤ n) : add a b = some (a + b) :=
  if_pos (fits_of_le le inside)

theorem add_of_lt (small : a + b < 2 ^ 64) : add a b = some (a + b) := if_pos (fits_of_lt small)

theorem mul_of_lt (small : a * b < 2 ^ 64) : mul a b = some (a * b) := if_pos (fits_of_lt small)

theorem add_eq_some_iff {c : ℕ} : add a b = some c ↔ fits (a + b) = true ∧ c = a + b := by
  rw [add, Option.ite_none_right_eq_some, Option.some.injEq, eq_comm (a := a + b)]

/-- A sum of numbers that fits. -/
theorem foldlM_add (numbers : List ℕ) {start : ℕ} (small : start + numbers.sum < 2 ^ 64) :
    numbers.foldlM add start = some (start + numbers.sum) := by
  induction numbers generalizing start with
  | nil => rfl
  | cons number rest ih =>
    rw [List.sum_cons, ← Nat.add_assoc] at small
    rw [List.foldlM_cons, add_of_lt (by omega), List.sum_cons, ← Nat.add_assoc]
    exact ih small

end Width

/-- A sum that stays at the largest number of its width. -/
def saturatingAdd (width a b : ℕ) : ℕ := min (a + b) (2 ^ width - 1)

/-- `first || second`, where either may panic. -/
def orElse (first second : Option Bool) : Option Bool := do
  let found ← first
  if found then some true else second

@[simp] theorem orElse_some (first second : Bool) : orElse (some first) (some second) = some (first || second) := by
  cases first <;> rfl

theorem expectU32_eq_some_iff {n m : ℕ} : expectU32 n = some m ↔ n < 2 ^ 32 ∧ m = n := by
  unfold expectU32
  split
  · next fits => exact ⟨fun same => ⟨fits, (Option.some.inj same).symm⟩, fun both => by rw [both.2]⟩
  · next large => exact ⟨fun same => (nomatch same), fun both => absurd both.1 large⟩

theorem Checked.some_bind {α β : Type} (x : α) (f : α → Option β) : (some x >>= f) = f x := rfl

theorem slice_isSome {xs : List α} {first last : ℕ} (ordered : first ≤ last) (inside : last ≤ xs.length) :
    slice xs first last = some ((xs.take last).drop first) :=
  if_pos ⟨ordered, inside⟩

/-- `xs[first..]`. -/
theorem slice_from {xs : List α} {first : ℕ} (inside : first ≤ xs.length) :
    slice xs first xs.length = some (xs.drop first) := by
  rw [slice_isSome inside le_rfl, List.take_length]

theorem slice_append (before xs after : List α) :
    slice (before ++ xs ++ after) before.length (before.length + xs.length) = some xs := by
  rw [slice, if_pos ⟨by omega, by simp⟩]
  have front : before.length + xs.length = (before ++ xs).length := by simp
  rw [front, List.take_left, List.drop_left]

/-- The `i`-th of several concatenated parts, read back at its offset. -/
theorem slice_flatten {parts : List (List α)} {part : List α} {i first last : ℕ} (at_ : parts[i]? = some part)
    (offset : (parts.take i).flatten.length = first) (stop : first + part.length = last) :
    slice parts.flatten first last = some part := by
  obtain ⟨bound, same⟩ := List.getElem?_eq_some_iff.mp at_
  have split : parts.flatten = (parts.take i).flatten ++ part ++ (parts.drop (i + 1)).flatten := by
    conv_lhs => rw [← List.take_append_drop i parts, List.drop_eq_getElem_cons bound, same]
    rw [List.flatten_append, List.flatten_cons, List.append_assoc]
  rw [split, ← stop, ← offset]
  exact slice_append ..

theorem mapM_total {β : Type*} {f : α → Option β} {g : α → β} {xs : List α} (same : ∀ x ∈ xs, f x = some (g x)) :
    xs.mapM f = some (xs.map g) := by
  induction xs with
  | nil => rfl
  | cons x xs ih =>
    obtain ⟨here, rest⟩ := List.forall_mem_cons.mp same
    rw [List.mapM_cons, here, ih rest]
    rfl

/-- A search whose closure never panics finds exactly the elements the closure accepts. -/
theorem anyM_decides {f : α → Option Bool} {xs : List α} (total : ∀ x ∈ xs, (f x).isSome = true) :
    ∃ found, xs.anyM f = some found ∧ (found = true ↔ ∃ x ∈ xs, f x = some true) := by
  induction xs with
  | nil => exact ⟨false, rfl, by simp⟩
  | cons x xs ih =>
    obtain ⟨headTotal, tailTotal⟩ := List.forall_mem_cons.mp total
    obtain ⟨found, rest, decides⟩ := ih tailTotal
    obtain ⟨first, here⟩ := Option.isSome_iff_exists.mp headTotal
    rw [List.anyM_cons, here, rest]
    cases first with
    | true => exact ⟨true, rfl, by simp [here]⟩
    | false => exact ⟨found, rfl, by simp [here, decides]⟩

end Tollgate
