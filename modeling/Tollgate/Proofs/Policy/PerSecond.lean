import Tollgate.Model.Policy.SilentRule
import Tollgate.Proofs.Policy.FreshPins

/-! # Counting per second over a sliding window

Entries are dropped when a later one is added, so the stored seconds stand for a list of times only
inside the window of the last addition. That is enough: under a clock that does not go back, every
later question is about a part of that window.
-/

namespace Tollgate.PerSecond

open SilentRule

variable {seconds : PerSecond} {times : List ℕ} {last now : ℕ}

/-- Inside the window that ends at `last`, the seconds tally the times. -/
structure Window (seconds : PerSecond) (times : List ℕ) (last : ℕ) : Prop where
  nodup : (seconds.map Prod.fst).Nodup
  stored_le : ∀ time count, (time, count) ∈ seconds → time ≤ last
  times_le : ∀ time ∈ times, time ≤ last
  mem_iff : ∀ time, last - time ≤ silentFloodSecs → ∀ count, (time, count) ∈ seconds ↔
    count = times.count time ∧ 0 < count

namespace Window

theorem empty (last : ℕ) : Window [] [] last := by
  constructor <;> simp [Nat.pos_iff_ne_zero]

theorem mono (window : Window seconds times last) (later : last ≤ now) : Window seconds times now where
  nodup := window.nodup
  stored_le time count member := (window.stored_le time count member).trans later
  times_le time member := (window.times_le time member).trans later
  mem_iff time young := window.mem_iff time (by omega)

theorem mem_filter (window : Window seconds times last) (later : last ≤ now) (fits : now < 2 ^ 64) (time count : ℕ) :
    (time, count) ∈ seconds.filter (fun second => within second.1 now silentFloodSecs) ↔
      (time, count) ∈ seconds ∧ now - time ≤ silentFloodSecs := by
  rw [List.mem_filter]
  refine and_congr_right fun member => ?_
  rw [within_of_le ((window.stored_le time count member).trans later) fits, decide_eq_true_eq]

/-- The entries inside a later window tally the times inside it. -/
theorem tallies (window : Window seconds times last) (later : last ≤ now) (fits : now < 2 ^ 64) :
    (seconds.filter fun second => within second.1 now silentFloodSecs).Tallies (lately silentFloodSecs now times) where
  nodup := window.nodup.sublist (List.filter_sublist.map _)
  mem_iff time count := by
    rw [window.mem_filter later fits, lately]
    by_cases young : now - time ≤ silentFloodSecs
    · rw [List.count_filter (by simpa using young), ← window.mem_iff time (by omega) count]
      exact and_iff_left young
    · have none : (times.filter fun time => now - time ≤ silentFloodSecs).count time = 0 :=
        List.count_eq_zero.mpr fun member => young (by simpa using (List.mem_filter.mp member).2)
      rw [none]
      constructor
      · exact fun both => absurd both.2 young
      · rintro ⟨rfl, positive⟩
        contradiction

/-- Counting without reaching the largest 32-bit number is plain addition. -/
theorem foldl_saturating (entries : List (ℕ × ℕ)) (total : ℕ × ℕ)
    (small : total.1 + (entries.map Prod.snd).sum < 2 ^ 32) :
    entries.foldl (fun total second => (saturatingAdd 32 total.1 second.2, total.2 + 1)) total =
      (total.1 + (entries.map Prod.snd).sum, total.2 + entries.length) := by
  induction entries generalizing total with
  | nil => rfl
  | cons second rest ih =>
    rw [List.map_cons, List.sum_cons] at small
    have plain : saturatingAdd 32 total.1 second.2 = total.1 + second.2 := by
      unfold saturatingAdd
      omega
    rw [List.foldl_cons, plain, ih _ (by simpa [Nat.add_assoc] using small), List.map_cons, List.sum_cons,
      List.length_cons, Nat.add_assoc, Nat.add_assoc, Nat.add_comm 1]

theorem count_eq (window : Window seconds times last) (later : last ≤ now) (fits : now < 2 ^ 64)
    (small : times.length < 2 ^ 32) :
    count seconds now =
      ((lately silentFloodSecs now times).length, (lately silentFloodSecs now times).toFinset.card) := by
  have tally := window.tallies later fits
  have bound : (lately silentFloodSecs now times).length ≤ times.length := List.length_filter_le ..
  rw [count, foldl_saturating _ (0, 0) (by rw [tally.sum_eq]; omega), tally.sum_eq, tally.length_eq, Nat.zero_add,
    Nat.zero_add]

/-- One more connection is one more time. -/
theorem add (window : Window seconds times last) (later : last ≤ now) (fits : now < 2 ^ 64)
    (small : times.length + 1 < 2 ^ 32) : Window (add seconds now) (now :: times) now := by
  have filtered := window.mem_filter later fits
  have nodup : ((seconds.filter fun second => within second.1 now silentFloodSecs).map Prod.fst).Nodup :=
    window.nodup.sublist (List.filter_sublist.map _)
  have same (count : ℕ) : (now, count) ∈ seconds ↔ count = times.count now ∧ 0 < count := by
    rcases Nat.lt_or_eq_of_le later with earlier | rfl
    · have unstored : (now, count) ∉ seconds := fun member => absurd (window.stored_le _ _ member) (by omega)
      have unseen : times.count now = 0 :=
        List.count_eq_zero.mpr fun member => absurd (window.times_le _ member) (by omega)
      rw [unseen]
      exact ⟨fun member => absurd member unstored, by rintro ⟨rfl, positive⟩; contradiction⟩
    · exact window.mem_iff last (by simp) count
  refine ⟨List.nodup_bump nodup, ?_, ?_, ?_⟩
  · intro time count member
    rcases eq_or_ne time now with rfl | other
    · exact le_rfl
    · rw [PerSecond.add, List.mem_bump_of_ne other, filtered] at member
      exact (window.stored_le _ _ member.1).trans later
  · intro time member
    rcases List.mem_cons.mp member with rfl | old
    · exact le_rfl
    · exact (window.times_le _ old).trans later
  · intro time young count
    rcases eq_or_ne time now with rfl | other
    · have bound : times.count time ≤ times.length := List.count_le_length
      have stored (before : ℕ) : (time, before) ∈ seconds.filter (fun second => within second.1 time silentFloodSecs) ↔
          before = times.count time ∧ 0 < before := by
        rw [filtered, same]
        exact and_iff_left young
      rw [PerSecond.add, List.mem_bump_self nodup, List.count_cons_self]
      constructor
      · rintro (⟨before, member, rfl⟩ | ⟨absent, rfl⟩)
        · obtain ⟨rfl, positive⟩ := (stored before).mp member
          unfold saturatingAdd
          omega
        · have unseen : times.count time = 0 := by
            by_contra seen
            exact absent (List.mem_map.mpr ⟨_, (stored _).mpr ⟨rfl, Nat.pos_of_ne_zero seen⟩, rfl⟩)
          omega
      · rintro ⟨rfl, -⟩
        rcases Nat.eq_zero_or_pos (times.count time) with unseen | seen
        · refine .inr ⟨fun member => ?_, by omega⟩
          obtain ⟨⟨_, before⟩, kept, rfl⟩ := List.mem_map.mp member
          have positive := (stored before).mp kept
          omega
        · refine .inl ⟨_, (stored _).mpr ⟨rfl, seen⟩, ?_⟩
          unfold saturatingAdd
          omega
    · rw [PerSecond.add, List.mem_bump_of_ne other, filtered, List.count_cons_of_ne (Ne.symm other),
        ← window.mem_iff time (by omega)]
      exact and_iff_left young

end Window

end Tollgate.PerSecond
