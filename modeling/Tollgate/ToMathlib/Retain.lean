import Mathlib.Algebra.GroupWithZero.Nat
import Mathlib.Data.Finset.Card
import Mathlib.Data.List.AList

/-! # Retaining and counting the entries of a finite map

Hash maps of the modelled program are association lists with distinct keys. Beside insertion,
lookup and erasure, the program keeps the entries that pass a test and asks how many there are.
Both are read off the lookups: `lookup_retain` and `size_le_card`.
-/

namespace AList

variable {α : Type*} {β : α → Type*}

/-- The number of entries. -/
def size (s : AList β) : ℕ := s.entries.length

/-- Keeps the entries a test accepts. -/
def retain (keep : (a : α) → β a → Bool) (s : AList β) : AList β :=
  ⟨s.entries.filter fun entry => keep entry.1 entry.2, s.nodupKeys.sublist List.filter_sublist⟩

variable [DecidableEq α]

@[simp] theorem lookup_retain (keep : (a : α) → β a → Bool) (s : AList β) (a : α) :
    lookup a (retain keep s) = (lookup a s).filter (keep a) := by
  apply Option.ext
  intro b
  have kept : b ∈ lookup a (retain keep s) ↔ ⟨a, b⟩ ∈ s.entries ∧ keep a b = true :=
    mem_lookup_iff.trans List.mem_filter
  have stored : b ∈ lookup a s ↔ ⟨a, b⟩ ∈ s.entries := mem_lookup_iff
  simp only [Option.mem_def] at kept stored
  rw [kept, Option.filter_eq_some_iff, stored]

theorem mem_of_mem_retain {keep : (a : α) → β a → Bool} {s : AList β} {a : α} (member : a ∈ retain keep s) : a ∈ s := by
  rw [← lookup_isSome, lookup_retain] at member
  obtain ⟨b, kept⟩ := Option.isSome_iff_exists.mp member
  rw [← lookup_isSome, (Option.filter_eq_some_iff.mp kept).1]
  rfl

theorem lookup_erase_eq_ite (a key : α) (s : AList β) :
    lookup a (s.erase key) = if a = key then none else lookup a s := by
  split
  · next same => rw [same, lookup_erase]
  · next other => exact lookup_erase_ne other

theorem lookup_insert_eq_ite {V : Type*} (s : AList fun _ : α => V) (key : α) (value : V) (a : α) :
    lookup a (s.insert key value) = if a = key then some value else lookup a s := by
  split
  · next same => rw [same, lookup_insert]
  · next other => exact lookup_insert_ne other

/-- The entry of a key, and the others. -/
theorem entries_perm {s : AList β} {a : α} {b : β a} (found : lookup a s = some b) :
    s.entries.Perm (⟨a, b⟩ :: (s.erase a).entries) := by
  have member : a ∈ s.keys := mem_keys.mp (lookup_isSome.mp (Option.isSome_of_eq_some found))
  obtain ⟨value, front, back, -, split, erased⟩ := List.exists_of_kerase member
  have entry : (⟨a, value⟩ : Sigma β) ∈ s.entries := by
    rw [split]
    exact List.mem_append_right _ (List.mem_cons_self ..)
  obtain rfl : value = b := Option.some.inj ((mem_lookup_iff.mpr entry).symm.trans found)
  have others : (s.erase a).entries = front ++ back := erased
  rw [others, split]
  exact List.perm_middle

theorem entries_insert_of_lookup {s : AList β} {a : α} {b : β a} :
    (s.insert a b).entries = ⟨a, b⟩ :: (s.erase a).entries :=
  entries_insert

theorem entries_insert_of_new {s : AList β} {a : α} {b : β a} (new : lookup a s = none) :
    (s.insert a b).entries = ⟨a, b⟩ :: s.entries := by
  rw [entries_insert, List.kerase_of_notMem_keys]
  exact lookup_eq_none.mp new

theorem size_eq_card (s : AList β) : s.size = s.keys.toFinset.card := by
  rw [List.toFinset_card_of_nodup s.keys_nodup, keys, List.keys, List.length_map, size]

theorem size_le_card {s : AList β} {domain : Finset α} (inside : ∀ a ∈ s, a ∈ domain) : s.size ≤ domain.card := by
  rw [size_eq_card]
  apply Finset.card_le_card
  intro a member
  exact inside a (mem_keys.mpr (List.mem_toFinset.mp member))

/-- A map whose keys lie in a set, one of which is free, is smaller than the set. -/
theorem size_lt_card {s : AList β} {domain : Finset α} {key : α} (inside : ∀ a ∈ s, a ∈ domain)
    (member : key ∈ domain) (free : key ∉ s) : s.size < domain.card := by
  have erased : ∀ a ∈ s, a ∈ domain.erase key := by
    intro a present
    exact Finset.mem_erase.mpr ⟨fun same => free (same ▸ present), inside a present⟩
  calc s.size ≤ (domain.erase key).card := size_le_card erased
    _ < domain.card := Finset.card_erase_lt_of_mem member

theorem mem_keys_toFinset {s : AList β} {a : α} : a ∈ s.keys.toFinset ↔ a ∈ s :=
  List.mem_toFinset.trans mem_keys.symm

theorem size_le_of_subset {s t : AList β} (inside : ∀ a ∈ s, a ∈ t) : s.size ≤ t.size := by
  rw [size_eq_card t]
  exact size_le_card fun a member => mem_keys_toFinset.mpr (inside a member)

theorem size_erase_lt {s : AList β} {key : α} (member : key ∈ s) : (s.erase key).size < s.size := by
  rw [size_eq_card s]
  refine size_lt_card ?_ (mem_keys_toFinset.mpr member) fun still => (mem_erase.mp still).1 rfl
  exact fun a kept => mem_keys_toFinset.mpr (mem_erase.mp kept).2

theorem size_insert_le (s : AList β) (key : α) (value : β key) : (s.insert key value).size ≤ s.size + 1 := by
  rw [size_eq_card s, ← Nat.succ_eq_add_one]
  refine (size_le_card ?_).trans (Finset.card_insert_le key _)
  intro a member
  rw [Finset.mem_insert, mem_keys_toFinset]
  exact (mem_insert _).mp member

theorem size_insert_of_mem {s : AList β} {key : α} (member : key ∈ s) (value : β key) :
    (s.insert key value).size ≤ s.size := by
  apply size_le_of_subset
  intro a inside
  rcases (mem_insert _).mp inside with rfl | old
  · exact member
  · exact old

end AList

/-- An element of a list in which one was replaced is the new one or was there before. -/
theorem List.getElem?_set_cases {α : Type*} {xs : List α} {i j : ℕ} {new a : α} (found : (xs.set i new)[j]? = some a) :
    (j = i ∧ a = new) ∨ (j ≠ i ∧ xs[j]? = some a) := by
  by_cases same : i = j
  · subst same
    obtain ⟨inside, rfl⟩ := getElem?_eq_some_iff.mp found
    exact .inl ⟨rfl, getElem_set_self _⟩
  · rw [getElem?_set_ne same] at found
    exact .inr ⟨fun equal => same equal.symm, found⟩

theorem List.getElem?_set_of_some {α : Type*} {xs : List α} {i : ℕ} {old : α} (found : xs[i]? = some old) (new : α) :
    (xs.set i new)[i]? = some new := by
  obtain ⟨inside, -⟩ := getElem?_eq_some_iff.mp found
  exact getElem?_set_self inside

/-- An element of a list with one more at its end is that one or was there before. -/
theorem List.getElem?_concat_cases {α : Type*} {xs : List α} {j : ℕ} {new a : α} (found : (xs ++ [new])[j]? = some a) :
    (j = xs.length ∧ a = new) ∨ xs[j]? = some a := by
  rcases Nat.lt_trichotomy j xs.length with inside | rfl | outside
  · rw [getElem?_append_left inside] at found
    exact .inr found
  · rw [getElem?_concat_length] at found
    exact .inl ⟨rfl, (Option.some.inj found).symm⟩
  · obtain ⟨inside, -⟩ := getElem?_eq_some_iff.mp found
    rw [length_append, length_singleton] at inside
    omega

theorem List.getElem?_concat_of_some {α : Type*} {xs : List α} {j : ℕ} {a : α} (found : xs[j]? = some a) (new : α) :
    (xs ++ [new])[j]? = some a := by
  obtain ⟨inside, -⟩ := getElem?_eq_some_iff.mp found
  rw [getElem?_append_left inside]
  exact found

/-- Replacing an element of a list trades what it contributes. -/
theorem List.count_flatMap_set {α β : Type*} [DecidableEq β] (f : α → List β) {xs : List α} {i : ℕ} {old : α}
    (found : xs[i]? = some old) (new : α) (b : β) :
    ((xs.set i new).flatMap f).count b + (f old).count b = (xs.flatMap f).count b + (f new).count b := by
  induction xs generalizing i with
  | nil => cases found
  | cons x xs ih =>
    cases i with
    | zero =>
      obtain rfl := Option.some.inj found
      simp only [set_cons_zero, flatMap_cons, count_append]
      omega
    | succ i =>
      have rest := ih found
      simp only [set_cons_succ, flatMap_cons, count_append]
      omega

/-- Replacing an element of a list trades what it adds to a sum. -/
theorem List.sum_map_set {α : Type*} (f : α → ℕ) {xs : List α} {i : ℕ} {old : α} (found : xs[i]? = some old)
    (new : α) : ((xs.set i new).map f).sum + f old = (xs.map f).sum + f new := by
  induction xs generalizing i with
  | nil => cases found
  | cons x xs ih =>
    cases i with
    | zero =>
      obtain rfl := Option.some.inj found
      simp only [set_cons_zero, map_cons, sum_cons]
      omega
    | succ i =>
      have rest := ih found
      simp only [set_cons_succ, map_cons, sum_cons]
      omega

/-- What holds between the contributions of every element holds between the sums. -/
theorem List.sum_map_le_mul {α : Type*} {f g : α → ℕ} {k : ℕ} {xs : List α} (each : ∀ a ∈ xs, f a ≤ k * g a) :
    (xs.map f).sum ≤ k * (xs.map g).sum := by
  induction xs with
  | nil => exact Nat.zero_le _
  | cons x xs ih =>
    obtain ⟨first, rest⟩ := forall_mem_cons.mp each
    rw [map_cons, sum_cons, map_cons, sum_cons, Nat.mul_add]
    exact Nat.add_le_add first (ih rest)

theorem List.sum_map_lt_mul {α : Type*} {f g : α → ℕ} {k : ℕ} {xs : List α} (each : ∀ a ∈ xs, f a ≤ k * g a) {a : α}
    (member : a ∈ xs) (less : f a < k * g a) : (xs.map f).sum < k * (xs.map g).sum := by
  induction xs with
  | nil => cases member
  | cons x xs ih =>
    obtain ⟨first, rest⟩ := forall_mem_cons.mp each
    rw [map_cons, sum_cons, map_cons, sum_cons, Nat.mul_add]
    rcases mem_cons.mp member with rfl | later
    · exact Nat.add_lt_add_of_lt_of_le less (sum_map_le_mul rest)
    · exact Nat.add_lt_add_of_le_of_lt first (ih rest later)

/-- A change to one element that its contribution does not depend on. -/
theorem List.flatMap_modify {α β : Type*} {f : α → List β} {change : α → α} (same : ∀ a, f (change a) = f a)
    (xs : List α) (i : ℕ) : (xs.modify i change).flatMap f = xs.flatMap f := by
  induction xs generalizing i with
  | nil => simp
  | cons x xs ih =>
    cases i with
    | zero => rw [modify_zero_cons, flatMap_cons, flatMap_cons, same]
    | succ i => rw [modify_succ_cons, flatMap_cons, flatMap_cons, ih]

theorem List.mem_of_mem_modify {α : Type*} {change : α → α} {xs : List α} {i : ℕ} {a : α}
    (member : a ∈ xs.modify i change) : a ∈ xs ∨ ∃ old ∈ xs, a = change old := by
  induction xs generalizing i with
  | nil => simp at member
  | cons x xs ih =>
    cases i with
    | zero =>
      rw [modify_zero_cons] at member
      rcases mem_cons.mp member with rfl | rest
      · exact .inr ⟨x, mem_cons_self, rfl⟩
      · exact .inl (mem_cons_of_mem _ rest)
    | succ i =>
      rw [modify_succ_cons] at member
      rcases mem_cons.mp member with rfl | rest
      · exact .inl mem_cons_self
      · rcases ih rest with old | ⟨old, inside, rfl⟩
        · exact .inl (mem_cons_of_mem _ old)
        · exact .inr ⟨old, mem_cons_of_mem _ inside, rfl⟩

/-- Elements that each contribute a value are no more than the value's occurrences. -/
theorem List.countP_le_count_flatMap {α β : Type*} [DecidableEq β] {f : α → List β} {p : α → Bool} {b : β}
    {xs : List α} (each : ∀ x ∈ xs, p x = true → b ∈ f x) : xs.countP p ≤ (xs.flatMap f).count b := by
  induction xs with
  | nil => simp
  | cons x xs ih =>
    obtain ⟨here, rest⟩ := forall_mem_cons.mp each
    have later := ih rest
    rw [countP_cons, flatMap_cons, count_append]
    split
    · next holds =>
      have one : 0 < (f x).count b := count_pos_iff.mpr (here holds)
      omega
    · omega

section EraseDups

variable {γ : Type*} [BEq γ] [LawfulBEq γ]

theorem List.eraseDups_concat (xs : List γ) (x : γ) :
    (xs ++ [x]).eraseDups = if x ∈ xs then xs.eraseDups else xs.eraseDups ++ [x] := by
  rw [eraseDups_append, removeAll]
  by_cases seen : x ∈ xs
  · rw [if_pos seen, filter_cons_of_neg (by simpa using seen)]
    simp
  · rw [if_neg seen, filter_cons_of_pos (by simpa using seen)]
    simp [eraseDups_cons]

theorem List.nodup_eraseDups (xs : List γ) : xs.eraseDups.Nodup := by
  induction xs using reverseRecOn with
  | nil => exact nodup_nil
  | append_singleton xs x ih =>
    rw [eraseDups_concat]
    split
    · exact ih
    · next new =>
      have absent : x ∉ xs.eraseDups := by rwa [mem_eraseDups]
      exact nodup_append_comm.mp (nodup_cons.mpr ⟨absent, ih⟩)

theorem List.filter_eraseDups (p : γ → Bool) (xs : List γ) : xs.eraseDups.filter p = (xs.filter p).eraseDups := by
  induction xs using reverseRecOn with
  | nil => rfl
  | append_singleton xs x ih =>
    rw [eraseDups_concat, filter_append, filter_singleton]
    cases accepted : p x with
    | false =>
      rw [cond_false, append_nil, ← ih]
      split
      · rfl
      · rw [filter_append, filter_singleton, accepted, cond_false, append_nil]
    | true =>
      rw [cond_true, eraseDups_concat, ← ih]
      by_cases seen : x ∈ xs
      · rw [if_pos seen, if_pos (mem_filter.mpr ⟨seen, accepted⟩)]
      · rw [if_neg seen, if_neg (fun member => seen (mem_of_mem_filter member)), filter_append, filter_singleton,
          accepted, cond_true]

/-- A sublist of distinct elements is read off by membership. -/
theorem List.Sublist.filter_mem_eq {xs ys : List γ} (sub : xs.Sublist ys) (distinct : ys.Nodup) :
    ys.filter (fun y => decide (y ∈ xs)) = xs := by
  induction sub with
  | slnil => rfl
  | cons y sub ih =>
    obtain ⟨new, rest⟩ := nodup_cons.mp distinct
    rw [filter_cons_of_neg (by simpa using fun member => new (sub.subset member)), ih rest]
  | @cons_cons xs ys y sub ih =>
    obtain ⟨new, rest⟩ := nodup_cons.mp distinct
    rw [filter_cons_of_pos (by simp)]
    congr 1
    refine (filter_congr ?_).trans (ih rest)
    intro other member
    have different : other ≠ y := fun same => new (same ▸ member)
    simp [different]

end EraseDups

/-- Leaving out elements that contribute nothing of interest. -/
theorem List.filter_flatMap_filter {α β : Type*} {f : α → List β} {keep : α → Bool} {p : β → Bool} {xs : List α}
    (idle : ∀ x ∈ xs, keep x = false → ∀ b ∈ f x, p b = false) :
    ((xs.filter keep).flatMap f).filter p = (xs.flatMap f).filter p := by
  induction xs with
  | nil => rfl
  | cons x xs ih =>
    obtain ⟨here, rest⟩ := forall_mem_cons.mp idle
    rw [flatMap_cons, filter_append, ← ih rest]
    cases kept : keep x with
    | true => rw [filter_cons_of_pos kept, flatMap_cons, filter_append]
    | false =>
      have nothing : (f x).filter p = [] := filter_eq_nil_iff.mpr fun b member => by simp [here kept b member]
      rw [filter_cons_of_neg (by simp [kept]), nothing, nil_append]
