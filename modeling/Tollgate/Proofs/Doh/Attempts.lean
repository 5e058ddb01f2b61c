import Tollgate.Proofs.Doh.Slots

/-! # Attempts and the epochs they mark with

An attempt marks its upstream down with an epoch that it read. If an attempt on an open connection reads
the epoch before a reset can come after it took the connection, then no attempt marks with an epoch later
than the one in which it took its connection or began to connect.
-/

namespace Tollgate.Doh

/-- The epoch of a mark is not later than the connection it is about. -/
def Mark.Dated (mark : Mark) : Prop := ∀ taken ∈ mark.taken, mark.epoch ≤ taken

/-- The epoch that an attempt will mark with is not later than its connection. -/
def Phase.Dated (epoch : ℕ) : Phase → Prop
  | mark own _ => own.Dated
  | warm watch taken => watch.epoch ≤ taken.since
  | cold watch stage => watch.epoch ≤ epoch ∧ ∀ taken ∈ stage.taken, watch.epoch ≤ taken
  | discarding taken (some read) => read ≤ taken.since
  | _ => True

theorem Phase.Begins.dated {phase : Phase} (begins : phase.Begins) (epoch : ℕ) : phase.Dated epoch := by
  cases begins with
  | markDown => nofun
  | _ => trivial

theorem Phase.Dated.notify {epoch : ℕ} {phase : Phase} (dated : phase.Dated epoch) : phase.notify.Dated epoch := by
  cases phase <;> exact dated

theorem Phase.Dated.mono {epoch later : ℕ} (le : epoch ≤ later) {phase : Phase} (dated : phase.Dated epoch) :
    phase.Dated later := by
  cases phase with
  | cold watch stage => exact ⟨dated.1.trans le, dated.2⟩
  | discarding taken read => cases read <;> exact dated
  | mark | warm => exact dated
  | _ => trivial

namespace Shared

variable {shared next : Shared} {phase after : Phase} {slot : Slot}

theorem Queried.dated (queried : shared.Queried phase slot after) (dated : phase.Dated shared.epoch)
    (current : ∀ taken stops notified, phase = .loading (some taken) stops notified → shared.epoch = taken.since) :
    after.Dated shared.epoch := by
  cases queried with
  | loadsWarm taken stops notified => exact (current taken stops notified rfl).le
  | loadsCold stops notified => exact ⟨le_refl _, nofun⟩
  | warmTimesOut watch taken => exact dated
  | locks watch | misses watch now closed | loads watch => exact ⟨dated.1, nofun⟩
  | finds watch found =>
    refine ⟨dated.1, ?_⟩
    rintro _ ⟨⟩
    exact dated.1
  | starts watch loaded =>
    refine ⟨dated.1, ?_⟩
    rintro _ ⟨⟩
    exact dated.1
  | connects watch loaded sender => exact dated
  | passes watch sender same => exact dated
  | stores watch loaded sender now => exact dated
  | coldFails watch stage now => exact dated.2
  | marks taken epoch now =>
    rintro _ ⟨⟩
    exact dated
  | _ => trivial

/-- A step keeps the epoch that the call will mark with. -/
theorem Advanced.dated (advanced : shared.Advanced phase next after) (dated : phase.Dated shared.epoch)
    (current : ∀ taken stops notified, phase = .loading (some taken) stops notified → shared.epoch = taken.since) :
    after.Dated next.epoch := by
  cases advanced with
  | reset stage => cases stage <;> trivial
  | mark mark stage =>
    obtain ⟨-, -, -, ends | ⟨later, goes⟩⟩ := shared.stepMark_keeps mark stage
    · rw [ends]
      trivial
    · rw [goes]
      exact dated
  | markUp => trivial
  | query queried => exact queried.dated dated current

/-- Only a mark sets the mark, and to itself. -/
theorem Advanced.setter (advanced : shared.Advanced phase next after) :
    next.setter = none ∨ next.setter = shared.setter ∨ ∃ mark stage, phase = .mark mark stage ∧ next.setter = some mark := by
  cases advanced with
  | reset stage =>
    cases stage with
    | clear number => exact .inl rfl
    | _ => exact .inr (.inl rfl)
  | mark mark stage =>
    cases stage with
    | swap => exact .inr (.inr ⟨mark, .swap, rfl, rfl⟩)
    | undo =>
      simp only [stepMark]
      split
      · exact .inl rfl
      · exact .inr (.inl rfl)
    | _ => exact .inr (.inl rfl)
  | markUp => exact .inl rfl
  | query queried => exact .inr (.inl rfl)

end Shared

namespace World

variable {world next : World} {event : Event}

/-- No mark, set or to come, has an epoch later than its connection. -/
structure Dates (world : World) : Prop where
  calls : ∀ phase ∈ world.calls, phase.Dated world.shared.epoch
  setter : ∀ mark, world.shared.setter = some mark → mark.Dated

theorem dates_start : start.Dates := ⟨nofun, nofun⟩

theorem Dates.step (dates : world.Dates) (current : world.LoadsCurrent event)
    (stepped : world.step event = some next) : next.Dates := by
  rcases step_cases stepped with ⟨phase, begins, rfl⟩ | ⟨call, choice, phase, shared, after, rfl, found, ran, rfl⟩
  · refine ⟨fun other member => ?_, dates.setter⟩
    rcases List.mem_append.mp member with old | new
    · exact dates.calls other old
    · obtain rfl := List.mem_singleton.mp new
      exact begins.dated _
  · have advanced := Shared.advanced_of_advance ran
    have dated := dates.calls phase (List.mem_of_getElem? found)
    refine ⟨?_, fun mark set => ?_⟩
    · refine forall_of_step dates.calls ?_ ?_ ?_
      · apply advanced.dated dated
        rintro taken stops notified rfl
        exact current taken stops notified found
      · exact fun other => Phase.Dated.mono (Shared.epoch_le ran)
      · exact fun other => Phase.Dated.notify
    · rcases advanced.setter with gone | same | ⟨own, stage, rfl, isSet⟩
      · exact nomatch gone.symm.trans set
      · exact dates.setter mark (same.symm.trans set)
      · obtain rfl := Option.some.inj (isSet.symm.trans set)
        exact dated

theorem dates_after {history : List Event} (along : Machine.Along World.step World.start LoadsCurrent history)
    (ran : World.after history = some world) : world.Dates :=
  Machine.run_invariant Dates dates_start (fun _ _ _ dates current stepped => dates.step current stepped) along ran

end World

end Tollgate.Doh
