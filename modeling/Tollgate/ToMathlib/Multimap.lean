import Mathlib.Data.List.Basic

/-! # Maps with several values of a key

The values of a key are in order; nothing is said about the order between different keys. Every operation
is given by what it does to the values of one key.
-/

namespace Tollgate

/-- A map with several values of a key, as its entries. -/
structure Multimap (κ υ : Type*) where
  entries : List (κ × υ)
deriving DecidableEq, Repr

namespace Multimap

variable {κ υ : Type*} [DecidableEq κ]

/-- The values of a key, in order. -/
def getAll (map : Multimap κ υ) (key : κ) : List υ := (map.entries.filter (·.1 = key)).map Prod.snd

/-- Removes every value of a key. -/
def remove (map : Multimap κ υ) (key : κ) : Multimap κ υ := ⟨map.entries.filter (·.1 ≠ key)⟩

/-- Puts one value in place of every value of a key. -/
def insert (map : Multimap κ υ) (key : κ) (value : υ) : Multimap κ υ :=
  ⟨(map.remove key).entries ++ [(key, value)]⟩

@[simp] theorem getAll_remove_self (map : Multimap κ υ) (key : κ) : (map.remove key).getAll key = [] := by
  simp [getAll, remove, List.filter_filter]

@[simp] theorem getAll_remove_of_ne (map : Multimap κ υ) {key other : κ} (different : other ≠ key) :
    (map.remove key).getAll other = map.getAll other := by
  rw [getAll, remove, List.filter_filter]
  congr 1
  apply List.filter_congr
  intro entry _
  by_cases same : entry.1 = other
  · simp [same, different]
  · simp [same]

@[simp] theorem getAll_insert_self (map : Multimap κ υ) (key : κ) (value : υ) :
    (map.insert key value).getAll key = [value] := by
  have removed := map.getAll_remove_self key
  rw [getAll] at removed
  rw [getAll, insert, List.filter_append, List.map_append, removed]
  simp

@[simp] theorem getAll_insert_of_ne (map : Multimap κ υ) {key other : κ} (different : other ≠ key) (value : υ) :
    (map.insert key value).getAll other = map.getAll other := by
  have removed := map.getAll_remove_of_ne different
  rw [getAll] at removed
  rw [getAll, insert, List.filter_append, List.map_append, removed]
  simp [different.symm]

/-- Removing keys one after another removes the values of all of them. -/
theorem getAll_foldl_remove (keys : List κ) (map : Multimap κ υ) (key : κ) :
    (keys.foldl remove map).getAll key = if key ∈ keys then [] else map.getAll key := by
  induction keys generalizing map with
  | nil => simp
  | cons first rest ih =>
    rw [List.foldl_cons, ih]
    by_cases same : key = first
    · simp [same]
    · simp [same]

end Multimap

end Tollgate
