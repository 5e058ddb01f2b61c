import Tollgate.Proofs.Doh.Attempts

/-! # What survives a reset of the connections

However the calls interleave, a mark that outlives them was made in the current epoch. Two more things
hold under conditions on single steps: no connection from before a reset is in the slot after it, if
connections are stored in the epoch that was checked, and no attempt on an old connection leaves its
upstream marked down, if it reads the epoch in which it took the connection. In each case a run in which
a reset comes between the two operations shows that the condition is needed.
-/

namespace Tollgate.Doh

open List

/-- One call goes on by its own operations. -/
def goes (call steps : ℕ) (totalMs : ℕ) : List Event := replicate steps (.step call (.go ⟨totalMs, totalMs⟩ false))

/-- A reset that runs from its start to its end. -/
def wholeReset (call : ℕ) : List Event := goes call 4 1000 ++ [.reset]

/-- A query connects and is about to check the epoch. -/
def connecting (call : ℕ) : List Event := [.step call .ready] ++ goes call 7 2000 ++ [.query]

/-- A query connects, stores its connection and is answered. -/
def answered (call : ℕ) : List Event := goes call 2 2000 ++ [.step call .ready] ++ goes call 2 2000 ++ connecting call

/-- After a reset has returned, the slot holds no connection whose connect began before it, as long as
connections are stored while the epoch is still the one that was read before the connect. -/
theorem no_connection_from_before_reset (history : List Event) (world : World) (ran : World.after history = some world)
    (along : Machine.Along World.step World.start World.StoresCurrent history) :
    ∀ number ∈ world.shared.returned, ∀ sender ∈ world.shared.slot.sender, number ≤ sender.began := by
  intro number returned sender held
  have shares := World.shares_after along ran
  obtain ⟨cleared, dropped⟩ := shares.of_returned returned
  by_contra earlier
  rcases shares.fresh sender held number (not_le.mp earlier) (shares.returned_le returned) with clears | drops
  · exact cleared clears
  · exact dropped drops

/-- A connection of before a reset, and one that replaces it. -/
def replaced : List Event := answered 2 ++ wholeReset 1 ++ answered 0

theorem no_connection_from_before_reset_sample :
    ∃ world, World.after replaced = some world ∧ world.shared.returned = [1] ∧ world.shared.slot.sender = some ⟨1⟩ ∧
      ∀ number ∈ world.shared.returned, ∀ sender ∈ world.shared.slot.sender, number ≤ sender.began := by
  obtain ⟨world, ran, returned, sender⟩ : ∃ world, World.after replaced = some world ∧
      world.shared.returned = [1] ∧ world.shared.slot.sender = some ⟨1⟩ := by
    refine ⟨(World.after replaced).getD .start, ?_⟩
    decide
  exact ⟨world, ran, returned, sender, no_connection_from_before_reset replaced world ran (by decide)⟩

/-- A reset runs between the check of the epoch and the section that stores the connection. -/
def lateStore : List Event := goes 0 1 2000 ++ wholeReset 1 ++ goes 0 1 2000 ++ connecting 0

theorem old_connection_stored_after_reset :
    ∃ world, World.after lateStore = some world ∧ world.shared.returned = [1] ∧ world.shared.slot.sender = some ⟨0⟩ := by
  refine ⟨(World.after lateStore).getD .start, ?_⟩
  decide

/-- When all calls have ended, the upstream is not marked down, or the mark was not made by an attempt
that took its connection or began to connect before the last reset, as long as attempts on an open
connection read the epoch before a reset comes. -/
theorem no_mark_from_before_reset (history : List Event) (world : World) (ran : World.after history = some world)
    (along : Machine.Along World.step World.start World.LoadsCurrent history)
    (ended : ∀ phase ∈ world.calls, phase = .done) :
    world.shared.downUntil = 0 ∨ ∃ mark, world.shared.setter = some mark ∧ world.shared.downUntil = mark.stop ∧
      ∀ taken ∈ mark.taken, world.shared.epoch ≤ taken := by
  have marked := World.marked_after ran
  cases setter : world.shared.setter with
  | none => exact .inl (marked.unset setter)
  | some mark =>
    refine .inr ⟨mark, rfl, marked.value mark setter, fun taken member => ?_⟩
    rcases marked.held mark setter with current | (rechecks | undoes) | ⟨number, clears⟩
    · exact current.ge.trans ((World.dates_after along ran).setter mark setter taken member)
    · exact nomatch ended _ rechecks
    · exact nomatch ended _ undoes
    · exact nomatch ended _ clears

/-- An open connection is taken after a reset and times out. -/
def timesOut : List Event :=
  goes 2 4 9000 ++ [.step 2 (.timedOut ⟨9000, 9000⟩)] ++ goes 2 3 3000 ++ [.query] ++ answered 1 ++ wholeReset 0

theorem no_mark_from_before_reset_sample :
    ∃ world, World.after timesOut = some world ∧ world.shared.downUntil = 39 ∧ world.shared.epoch = 1 ∧
      (world.shared.downUntil = 0 ∨ ∃ mark, world.shared.setter = some mark ∧ world.shared.downUntil = mark.stop ∧
        ∀ taken ∈ mark.taken, world.shared.epoch ≤ taken) := by
  obtain ⟨world, ran, down, epoch, ended⟩ : ∃ world, World.after timesOut = some world ∧
      world.shared.downUntil = 39 ∧ world.shared.epoch = 1 ∧ ∀ phase ∈ world.calls, phase = .done := by
    refine ⟨(World.after timesOut).getD .start, ?_⟩
    decide
  exact ⟨world, ran, down, epoch, no_mark_from_before_reset timesOut world ran (by decide) ended⟩

/-- A reset runs after an attempt took the open connection and before it registers for resets. -/
def lateRead : List Event :=
  goes 1 4 9000 ++ [.step 1 (.timedOut ⟨9000, 9000⟩)] ++ goes 1 2 3000 ++ wholeReset 2 ++ goes 1 1 2000 ++ [.query] ++
    answered 0

theorem old_attempt_marks_after_reset :
    ∃ world, World.after lateRead = some world ∧ (∀ phase ∈ world.calls, phase = .done) ∧
      world.shared.downUntil = 39 ∧ world.shared.setter = some ⟨1, 39, some 0⟩ ∧ world.shared.epoch = 1 := by
  refine ⟨(World.after lateRead).getD .start, ?_⟩
  decide

/-- Unless a mark is between its swap and its return or a reset between its two stores, the upstream is
not marked down or was last marked with the current epoch. -/
theorem mark_is_of_current_epoch (history : List Event) (world : World) (ran : World.after history = some world)
    (settled : ∀ mark, .mark mark .recheck ∉ world.calls ∧ .mark mark .undo ∉ world.calls)
    (stored : ∀ number, .reset (.clear number) ∉ world.calls) :
    world.shared.downUntil = 0 ∨ ∃ mark, world.shared.setter = some mark ∧ world.shared.downUntil = mark.stop ∧
      mark.epoch = world.shared.epoch := by
  have marked := World.marked_after ran
  cases setter : world.shared.setter with
  | none => exact .inl (marked.unset setter)
  | some mark =>
    refine .inr ⟨mark, rfl, marked.value mark setter, ?_⟩
    rcases marked.held mark setter with current | (rechecks | undoes) | ⟨number, clears⟩
    · exact current
    · exact ((settled mark).1 rechecks).elim
    · exact ((settled mark).2 undoes).elim
    · exact (stored number clears).elim

/-- A stale mark and a current one set the same time; the stale one ends first. -/
def equalMarks : List Event :=
  goes 2 3 0 ++ [.markDown 1 7] ++ goes 0 3 0 ++ wholeReset 1 ++ goes 0 1 0 ++ [.markDown 0 7]

theorem mark_is_of_current_epoch_sample :
    ∃ world, World.after equalMarks = some world ∧ world.shared.downUntil = 37 ∧
      (world.shared.downUntil = 0 ∨ ∃ mark, world.shared.setter = some mark ∧ world.shared.downUntil = mark.stop ∧
        mark.epoch = world.shared.epoch) := by
  obtain ⟨world, ran, down, calls⟩ : ∃ world, World.after equalMarks = some world ∧
      world.shared.downUntil = 37 ∧ world.calls = [.done, .done, .done] := by
    refine ⟨(World.after equalMarks).getD .start, ?_⟩
    decide
  refine ⟨world, ran, down, mark_is_of_current_epoch equalMarks world ran ?_ ?_⟩
  · rw [calls]
    simp
  · rw [calls]
    simp

end Tollgate.Doh
