import Mathlib.Data.List.Basic

/-! # Encodings that can be read from the front

An encoding is readable when the front of a list is the encoding of at most one value, whatever
follows it. Readable encodings compose: a pair is readable when both parts are, and so is a list
whose length is known. A format given by such encodings determines the message it was written from,
with no parser in sight.
-/

namespace PrefixCode

variable {α γ : Type*}

/-- The front of a list encodes at most one value. -/
def Readable (encode : α → List γ) : Prop :=
  ∀ ⦃x y : α⦄ ⦃rest other : List γ⦄, encode x ++ rest = encode y ++ other → x = y ∧ rest = other

theorem Readable.of_width {encode : α → List γ} {width : ℕ} (injective : Function.Injective encode)
    (fixed : ∀ x, (encode x).length = width) : Readable encode := by
  intro x y rest other same
  obtain ⟨front, back⟩ := List.append_inj same ((fixed x).trans (fixed y).symm)
  exact ⟨injective front, back⟩

theorem Readable.flatMap {encode : α → List γ} (readable : Readable encode) {xs ys : List α} {rest other : List γ}
    (length : xs.length = ys.length) (same : xs.flatMap encode ++ rest = ys.flatMap encode ++ other) :
    xs = ys ∧ rest = other := by
  induction xs generalizing ys with
  | nil =>
    obtain rfl := List.length_eq_zero_iff.mp length.symm
    exact ⟨rfl, same⟩
  | cons x xs ih =>
    cases ys with
    | nil => contradiction
    | cons y ys =>
      simp only [List.flatMap_cons, List.append_assoc] at same
      obtain ⟨rfl, tail⟩ := readable same
      obtain ⟨rfl, ends⟩ := ih (Nat.succ.inj length) tail
      exact ⟨rfl, ends⟩

end PrefixCode
