import Mathlib.Data.List.Nodup

/-! # A map that keeps the most recently used entries

The entries of a bounded map in the order of their last use. Putting an entry first drops the least
recently used one when the map is full, and reading an entry makes it the most recent. The lemmas
say where an entry can come from, which is all that an invariant over entries needs.
-/

/-- Entries with distinct keys, most recently used first. -/
structure Lru (κ ν : Type*) where
  capacity : ℕ
  entries : List (κ × ν)
  positive : 0 < capacity
  bounded : entries.length ≤ capacity
  distinct : (entries.map Prod.fst).Nodup

namespace Lru

variable {κ ν : Type*}

def new (capacity : ℕ) (positive : 0 < capacity) : Lru κ ν := ⟨capacity, [], positive, Nat.zero_le _, List.nodup_nil⟩

/-- Keeps only some entries. -/
def keep (map : Lru κ ν) (kept : κ → Bool) : Lru κ ν where
  capacity := map.capacity
  entries := map.entries.filter fun entry => kept entry.1
  positive := map.positive
  bounded := Nat.le_trans (List.length_filter_le ..) map.bounded
  distinct := (List.filter_sublist.map _).nodup map.distinct

theorem mem_keep {map : Lru κ ν} {kept : κ → Bool} {entry : κ × ν} :
    entry ∈ (map.keep kept).entries ↔ entry ∈ map.entries ∧ kept entry.1 = true := List.mem_filter

variable [DecidableEq κ]

/-- The value under a key, without using it. -/
def peek (map : Lru κ ν) (key : κ) : Option ν := (map.entries.find? fun entry => entry.1 = key).map Prod.snd

def pop (map : Lru κ ν) (key : κ) : Lru κ ν := map.keep fun other => other ≠ key

private theorem ne_of_mem_pop {map : Lru κ ν} {key : κ} {entry : κ × ν} (member : entry ∈ (map.pop key).entries) :
    entry.1 ≠ key := by
  simpa using (mem_keep.mp member).2

/-- Stores a value as the most recently used entry. -/
def put (map : Lru κ ν) (key : κ) (value : ν) : Lru κ ν where
  capacity := map.capacity
  entries := (key, value) :: (map.pop key).entries.take (map.capacity - 1)
  positive := map.positive
  bounded := by
    have positive := map.positive
    rw [List.length_cons, List.length_take]
    omega
  distinct := by
    rw [List.map_cons, List.nodup_cons]
    refine ⟨?_, ((List.take_sublist ..).map _).nodup (map.pop key).distinct⟩
    intro member
    obtain ⟨other, kept, same⟩ := List.mem_map.mp member
    exact ne_of_mem_pop (List.mem_of_mem_take kept) same

/-- The value under a key, which becomes the most recently used entry. -/
def get (map : Lru κ ν) (key : κ) : Option ν × Lru κ ν :=
  match map.peek key with
  | none => (none, map)
  | some value => (some value, map.put key value)

theorem mem_of_peek {map : Lru κ ν} {key : κ} {value : ν} (found : map.peek key = some value) :
    (key, value) ∈ map.entries := by
  obtain ⟨⟨stored, same⟩, here, rfl⟩ := Option.map_eq_some_iff.mp found
  have equal : stored = key := by simpa using List.find?_some here
  exact equal ▸ List.mem_of_find?_eq_some here

theorem mem_of_mem_pop {map : Lru κ ν} {key : κ} {entry : κ × ν} (member : entry ∈ (map.pop key).entries) :
    entry ∈ map.entries := (mem_keep.mp member).1

/-- A stored entry is the one just put, or was there before under another key. -/
theorem mem_of_mem_put {map : Lru κ ν} {key : κ} {value : ν} {entry : κ × ν}
    (member : entry ∈ (map.put key value).entries) :
    entry = (key, value) ∨ (entry ∈ map.entries ∧ entry.1 ≠ key) := by
  rcases List.mem_cons.mp member with new | old
  · exact .inl new
  · have kept := List.mem_of_mem_take old
    exact .inr ⟨mem_of_mem_pop kept, ne_of_mem_pop kept⟩

theorem mem_of_mem_get {map : Lru κ ν} {key : κ} {entry : κ × ν} (member : entry ∈ (map.get key).2.entries) :
    entry ∈ map.entries := by
  unfold get at member
  split at member
  · exact member
  · next value found =>
    rcases mem_of_mem_put member with rfl | ⟨old, -⟩
    · exact mem_of_peek found
    · exact old

end Lru
