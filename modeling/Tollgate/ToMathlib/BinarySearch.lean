import Mathlib.Data.List.Sort
import Mathlib.Order.Compare

/-! # Branch-free binary search

The search narrows a window of candidates without an early exit, so its number of rounds depends
on the length of the list alone. On a list whose keys increase strictly, the window always keeps
the wanted key, and the single candidate that remains decides membership.
-/

namespace List

variable {α κ : Type*}

/-- Rounds of the search: `size` candidates remain from `base` on. -/
def bisect (order : α → Ordering) (xs : List α) : ℕ → ℕ → ℕ → ℕ
  | 0, base, _ => base
  | fuel + 1, base, size =>
      if size ≤ 1 then base
      else
        let half := size / 2
        let mid := base + half
        bisect order xs fuel (if xs[mid]?.map order = some .gt then base else mid) (size - half)

/-- The position of an element that compares equal, if the search ends on one. -/
def binarySearchBy (order : α → Ordering) (xs : List α) : Option ℕ :=
  if xs.length = 0 then none
  else
    let base := bisect order xs xs.length 0 xs.length
    if xs[base]?.map order = some .eq then some base else none

theorem binarySearchBy_sound {order : α → Ordering} {xs : List α} {i : ℕ}
    (found : binarySearchBy order xs = some i) : ∃ x, xs[i]? = some x ∧ order x = .eq := by
  unfold binarySearchBy at found
  split at found
  · contradiction
  · dsimp only at found
    split at found
    · next equal =>
      obtain rfl := Option.some.inj found
      exact Option.map_eq_some_iff.mp equal
    · contradiction

variable [LinearOrder κ]

private theorem key_lt_iff {key : α → κ} {xs : List α}
    (sorted : xs.Pairwise (fun a b => key a < key b)) {i j : ℕ} {x y : α}
    (atI : xs[i]? = some x) (atJ : xs[j]? = some y) : key x < key y ↔ i < j := by
  obtain ⟨boundI, rfl⟩ := getElem?_eq_some_iff.mp atI
  obtain ⟨boundJ, rfl⟩ := getElem?_eq_some_iff.mp atJ
  have ordered := pairwise_iff_getElem.mp sorted
  constructor
  · intro less
    by_contra notBefore
    rcases Nat.lt_or_eq_of_le (Nat.le_of_not_lt notBefore) with after | same
    · exact lt_asymm less (ordered j i boundJ boundI after)
    · subst same
      exact lt_irrefl _ less
  · exact ordered i j boundI boundJ

/-- The window never loses the position of the wanted key. -/
private theorem bisect_eq_of_key {key : α → κ} {xs : List α} {target : κ}
    (sorted : xs.Pairwise (fun a b => key a < key b)) {i : ℕ} {x : α}
    (atI : xs[i]? = some x) (same : key x = target) (fuel base size : ℕ)
    (lower : base ≤ i) (upper : i < base + size) (inside : base + size ≤ xs.length)
    (enough : size ≤ fuel + 1) :
    bisect (fun y => compare (key y) target) xs fuel base size = i := by
  induction fuel generalizing base size with
  | zero => simp only [bisect]; omega
  | succ fuel ih =>
    simp only [bisect]
    split
    · omega
    · next large =>
      have midBound : base + size / 2 < xs.length := by omega
      have atMid : xs[base + size / 2]? = some xs[base + size / 2] := getElem?_eq_getElem midBound
      have position := key_lt_iff sorted atI atMid
      rw [same] at position
      simp only [atMid, Option.map_some, Option.some.injEq, compare_gt_iff_gt]
      split
      · next greater =>
        have before := position.mp greater
        exact ih _ _ lower (by omega) (by omega) (by omega)
      · next notGreater =>
        have after : ¬ i < base + size / 2 := fun before => notGreater (position.mpr before)
        exact ih _ _ (by omega) (by omega) (by omega) (by omega)

/-- On strictly increasing keys the search finds exactly the position that holds the target. -/
theorem binarySearchBy_eq_some_iff {key : α → κ} {xs : List α}
    (sorted : xs.Pairwise (fun a b => key a < key b)) (target : κ) (i : ℕ) :
    binarySearchBy (fun x => compare (key x) target) xs = some i ↔
      ∃ x, xs[i]? = some x ∧ key x = target := by
  constructor
  · intro found
    obtain ⟨x, atI, equal⟩ := binarySearchBy_sound found
    exact ⟨x, atI, compare_eq_iff_eq.mp equal⟩
  · rintro ⟨x, atI, same⟩
    have bound := (getElem?_eq_some_iff.mp atI).1
    have base := bisect_eq_of_key sorted atI same xs.length 0 xs.length
      (Nat.zero_le i) (by omega) (by omega) (by omega)
    unfold binarySearchBy
    rw [if_neg (by omega : xs.length ≠ 0)]
    have equal : compare target target = .eq := compare_eq_iff_eq.mpr rfl
    simp only [base, atI, Option.map_some, same, equal, ↓reduceIte]

/-- The search succeeds exactly when the target is a key of the list. -/
theorem binarySearchBy_isSome_iff {key : α → κ} {xs : List α}
    (sorted : xs.Pairwise (fun a b => key a < key b)) (target : κ) :
    (binarySearchBy (fun x => compare (key x) target) xs).isSome = true ↔
      ∃ x ∈ xs, key x = target := by
  rw [Option.isSome_iff_exists]
  simp only [binarySearchBy_eq_some_iff sorted]
  constructor
  · rintro ⟨i, x, atI, same⟩
    exact ⟨x, mem_of_getElem? atI, same⟩
  · rintro ⟨x, member, same⟩
    obtain ⟨i, atI⟩ := mem_iff_getElem?.mp member
    exact ⟨i, x, atI, same⟩

end List
