import Mathlib.Algebra.BigOperators.Group.List.Lemmas
import Mathlib.Algebra.GroupWithZero.Nat
import Mathlib.Data.Finset.Card
import Mathlib.Data.List.Dedup

/-! # Tallies

A tally of a list has one entry for each different element, with the number of its occurrences. Its
length is the number of different elements and the sum of its counts the length of the list. `bump`
is the one-pass update that counts an element once more, under any rule for the next count.
-/

namespace List

variable {α : Type*} [DecidableEq α]

/-- The entries hold exactly the elements of a list, with their numbers of occurrences. -/
structure Tallies (entries : List (α × ℕ)) (items : List α) : Prop where
  nodup : (entries.map Prod.fst).Nodup
  mem_iff : ∀ a count, (a, count) ∈ entries ↔ count = items.count a ∧ 0 < count

namespace Tallies

variable {entries : List (α × ℕ)} {items : List α}

theorem perm (tally : Tallies entries items) : entries.Perm (items.dedup.map fun a => (a, items.count a)) := by
  refine (List.perm_ext_iff_of_nodup (tally.nodup.of_map _) ?_).mpr ?_
  · exact (List.nodup_dedup items).map fun a b same => (Prod.mk.inj same).1
  · rintro ⟨a, count⟩
    rw [tally.mem_iff, List.mem_map]
    constructor
    · rintro ⟨rfl, positive⟩
      exact ⟨a, List.mem_dedup.mpr (List.count_pos_iff.mp positive), rfl⟩
    · rintro ⟨b, member, same⟩
      cases same
      exact ⟨rfl, List.count_pos_iff.mpr (List.mem_dedup.mp member)⟩

theorem length_eq (tally : Tallies entries items) : entries.length = items.toFinset.card := by
  rw [tally.perm.length_eq, List.length_map, List.card_toFinset]

theorem sum_eq (tally : Tallies entries items) : (entries.map Prod.snd).sum = items.length := by
  rw [(tally.perm.map Prod.snd).sum_nat, List.map_map]
  exact List.sum_map_count_dedup_eq_length items

end Tallies

/-- Replaces the first count of an element by the next one, or starts it with one at the end. -/
def bump (next : ℕ → ℕ) (a : α) : List (α × ℕ) → List (α × ℕ)
  | [] => [(a, 1)]
  | (b, count) :: rest => if b = a then (b, next count) :: rest else (b, count) :: bump next a rest

variable {next : ℕ → ℕ} {a b : α} {entries : List (α × ℕ)} {count : ℕ}

theorem mem_bump_of_ne (other : b ≠ a) : (b, count) ∈ bump next a entries ↔ (b, count) ∈ entries := by
  induction entries with
  | nil => simp [bump, other]
  | cons entry rest ih =>
    obtain ⟨c, n⟩ := entry
    rw [bump]
    split
    · next same =>
      subst same
      simp [other]
    · simp only [mem_cons, ih]

theorem keys_bump : (bump next a entries).map Prod.fst =
    if a ∈ entries.map Prod.fst then entries.map Prod.fst else entries.map Prod.fst ++ [a] := by
  induction entries with
  | nil => rfl
  | cons entry rest ih =>
    obtain ⟨c, n⟩ := entry
    rw [bump]
    split
    · next same => simp [same]
    · next other =>
      rw [map_cons, ih, map_cons]
      by_cases member : a ∈ rest.map Prod.fst
      · rw [if_pos member, if_pos (mem_cons_of_mem c member)]
      · have absent : a ∉ c :: rest.map Prod.fst := fun here =>
          (mem_cons.mp here).elim (fun same => other same.symm) member
        rw [if_neg member, if_neg absent, cons_append]

theorem nodup_bump (nodup : (entries.map Prod.fst).Nodup) : ((bump next a entries).map Prod.fst).Nodup := by
  rw [keys_bump]
  split
  · exact nodup
  · next absent => simpa [nodup_append, nodup] using fun b count member same => absent (mem_map.mpr ⟨_, member, same⟩)

/-- The count of the element itself, from the one before. -/
theorem mem_bump_self (nodup : (entries.map Prod.fst).Nodup) :
    (a, count) ∈ bump next a entries ↔
      (∃ before, (a, before) ∈ entries ∧ count = next before) ∨ (a ∉ entries.map Prod.fst ∧ count = 1) := by
  induction entries with
  | nil => simp [bump]
  | cons entry rest ih =>
    obtain ⟨c, n⟩ := entry
    obtain ⟨absent, nodupRest⟩ := nodup_cons.mp nodup
    rw [bump]
    split
    · next same =>
      subst same
      have onlyHere : ∀ m, (c, m) ∉ rest := fun m member => absent (mem_map.mpr ⟨_, member, rfl⟩)
      simp [onlyHere]
    · next other =>
      rw [mem_cons, ih nodupRest]
      simp [Ne.symm other]

end List
