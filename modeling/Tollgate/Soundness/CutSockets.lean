import Tollgate.Model.Mitm.Cut

/-! # A cut leaves no task asleep

A poll that found the socket not cut has its waker in the slot, so the cut that comes after it takes that
waker and wakes the task, however the two interleave and whichever tasks poll. Once `cut` has returned every
task that still sleeps on the socket was woken, and its next poll fails.
-/

namespace Tollgate.Cut

/-- The slots that `cut` has not looked at yet. -/
def Cutter.ahead : Cutter → List Direction
  | .before => [.read, .write]
  | .taking rest | .waking _ rest => rest

/-- The waker that `cut` is about to wake. -/
def Cutter.taken : Cutter → Option ℕ
  | .waking waker _ => some waker
  | .before | .taking _ => none

namespace World

variable {world next : World} {direction : Direction} {waker : ℕ} {event : Event}

/-- The cut still wakes the task, or has woken it. -/
def Covered (world : World) (direction : Direction) (waker : ℕ) : Prop :=
  (direction ∈ world.cutter.ahead ∧ world.slot direction = some waker) ∨ world.cutter.taken = some waker ∨
    world.notified direction = true

/-- A poll that is past its check is covered by the cut; before it, the waker is in the slot or the socket is cut. -/
structure Sound (world : World) : Prop where
  cut : world.cut = true ↔ world.cutter ≠ .before
  registered : ∀ direction waker, world.phase direction = .registered waker →
    world.slot direction = some waker ∨ world.cut = true
  checked : ∀ direction waker, world.phase direction = .checked waker ∨ world.phase direction = .asleep waker →
    world.Covered direction waker

theorem sound_start : start.Sound where
  cut := by simp [start]
  registered _ _ here := by cases here
  checked _ _ here := by rcases here with here | here <;> cases here

theorem mem_ahead_before (direction : Direction) : direction ∈ Cutter.before.ahead := by
  cases direction <;> decide

/-- A poll begins. -/
theorem Sound.register (sound : world.Sound) (direction : Direction) (waker : ℕ) :
    Sound { world.setPhase direction (.registered waker) with
      slot := if world.slot direction = some waker then world.slot
        else Function.update world.slot direction (some waker)
      notified := Function.update world.notified direction false } := by
  have own : (if world.slot direction = some waker then world.slot
      else Function.update world.slot direction (some waker)) direction = some waker := by
    split
    · next same => exact same
    · exact Function.update_self ..
  have others : ∀ other, other ≠ direction → (if world.slot direction = some waker then world.slot
      else Function.update world.slot direction (some waker)) other = world.slot other := by
    intro other different
    split
    · rfl
    · exact Function.update_of_ne different ..
  refine ⟨sound.cut, fun other waker' here => ?_, fun other waker' here => ?_⟩
  · by_cases same : other = direction
    · subst same
      simp only [setPhase, Function.update_self, Phase.registered.injEq] at here
      subst here
      exact .inl own
    · simp only [setPhase, Function.update_of_ne same] at here
      exact (sound.registered other waker' here).imp_left fun slot => (others other same).trans slot
  · by_cases same : other = direction
    · subst same
      simp only [setPhase, Function.update_self] at here
      rcases here with here | here <;> cases here
    · simp only [setPhase, Function.update_of_ne same] at here
      unfold Covered
      simp only [setPhase, Function.update_of_ne same, others other same]
      exact sound.checked other waker' here

/-- A poll that has not just registered changes its phase. -/
theorem Sound.setPhase (sound : world.Sound) {phase : Phase} (unregistered : ∀ waker, phase ≠ .registered waker)
    (covered : ∀ waker, phase = .checked waker ∨ phase = .asleep waker → world.Covered direction waker) :
    (world.setPhase direction phase).Sound := by
  refine ⟨sound.cut, fun other waker there => ?_, fun other waker there => ?_⟩
  · by_cases same : other = direction
    · subst same
      simp only [World.setPhase, Function.update_self] at there
      exact (unregistered waker there).elim
    · simp only [World.setPhase, Function.update_of_ne same] at there
      exact sound.registered other waker there
  · by_cases same : other = direction
    · subst same
      simp only [World.setPhase, Function.update_self] at there
      exact covered waker there
    · simp only [World.setPhase, Function.update_of_ne same] at there
      exact sound.checked other waker there

/-- A poll goes on from its check, which it may pass only before the cut. -/
theorem Sound.check (sound : world.Sound) (here : world.phase direction = .registered waker) :
    (world.setPhase direction (if world.cut then .failed else .checked waker)).Sound := by
  by_cases cut : world.cut = true
  · rw [if_pos cut]
    apply sound.setPhase <;> simp
  · rw [if_neg cut]
    apply sound.setPhase
    · simp
    · rintro other (there | there)
      · obtain rfl := Phase.checked.inj there
        have before : world.cutter = .before := Classical.byContradiction fun after => cut (sound.cut.mpr after)
        refine .inl ⟨?_, (sound.registered direction waker here).resolve_right cut⟩
        rw [before]
        exact mem_ahead_before direction
      · cases there

/-- The socket inside was polled. -/
theorem Sound.poll (sound : world.Sound) (here : world.phase direction = .checked waker) (ready : Bool) :
    (world.setPhase direction (if ready then .idle else .asleep waker)).Sound := by
  cases ready with
  | true => apply sound.setPhase <;> simp
  | false =>
    apply sound.setPhase
    · simp
    · rintro other (there | there)
      · cases there
      · obtain rfl := Phase.asleep.inj there
        exact sound.checked direction waker (.inl here)

theorem Sound.wake (sound : world.Sound) (waker : ℕ) : (world.wake waker).Sound := by
  refine ⟨sound.cut, sound.registered, fun other waker' here => ?_⟩
  rcases sound.checked other waker' here with waits | taken | woken
  · exact .inl waits
  · exact .inr (.inl taken)
  · exact .inr (.inr (by simp [World.wake, woken]))

theorem Sound.start_cut (sound : world.Sound) (before : world.cutter = .before) :
    Sound { world with cut := true, cutter := .taking [.read, .write] } := by
  refine ⟨⟨fun _ => by simp, fun _ => rfl⟩, fun _ _ _ => .inr rfl, fun other waker' here => ?_⟩
  rcases sound.checked other waker' here with ⟨-, slot⟩ | taken | woken
  · exact .inl ⟨mem_ahead_before other, slot⟩
  · rw [before] at taken
    cases taken
  · exact .inr (.inr woken)

/-- The waker of a slot is taken, and is woken next. -/
theorem Sound.take (sound : world.Sound) {rest : List Direction} (here : world.cutter = .taking (direction :: rest)) :
    Sound { world with
      slot := Function.update world.slot direction none
      cutter := match world.slot direction with
        | some waker => .waking waker rest
        | none => .taking rest } := by
  have cut : world.cut = true := sound.cut.mpr (by rw [here]; simp)
  refine ⟨⟨fun _ => ?_, fun _ => cut⟩, fun _ _ _ => .inr cut, fun other waker' there => ?_⟩
  · cases world.slot direction <;> simp
  · rcases sound.checked other waker' there with ⟨ahead, slot⟩ | taken | woken
    · by_cases same : other = direction
      · subst same
        refine .inr (.inl ?_)
        simp only [slot]
        rfl
      · rw [here] at ahead
        have later : other ∈ rest := (List.mem_cons.mp ahead).resolve_left same
        refine .inl ⟨?_, ?_⟩
        · cases world.slot direction <;> exact later
        · rw [← slot]
          exact Function.update_of_ne same ..
    · rw [here] at taken
      cases taken
    · exact .inr (.inr woken)

theorem Sound.wake_taken (sound : world.Sound) {rest : List Direction} (here : world.cutter = .waking waker rest) :
    Sound { world.wake waker with cutter := .taking rest } := by
  have cut : world.cut = true := sound.cut.mpr (by rw [here]; simp)
  refine ⟨⟨fun _ => by simp, fun _ => cut⟩, sound.registered, fun other waker' there => ?_⟩
  rcases sound.checked other waker' there with ⟨ahead, slot⟩ | taken | woken
  · rw [here] at ahead
    exact .inl ⟨ahead, slot⟩
  · rw [here] at taken
    obtain rfl := Option.some.inj taken
    have asks : (world.phase other).waker = some waker := by
      rcases there with there | there
      · exact congrArg Phase.waker there
      · exact congrArg Phase.waker there
    exact .inr (.inr (by simp [World.wake, asks]))
  · exact .inr (.inr (by simp [World.wake, woken]))

theorem Sound.step (sound : world.Sound) (stepped : world.step event = some next) : next.Sound := by
  cases event with
  | register direction waker =>
    obtain ⟨-, stepped⟩ := Option.ite_none_left_eq_some.mp stepped
    obtain rfl := Option.some.inj stepped
    exact sound.register direction waker
  | check direction =>
    cases here : world.phase direction with
    | registered waker =>
      simp only [World.step, here] at stepped
      obtain rfl := Option.some.inj stepped
      exact sound.check here
    | idle | checked | asleep | failed =>
      simp only [World.step, here] at stepped
      cases stepped
  | poll direction ready =>
    cases here : world.phase direction with
    | checked waker =>
      simp only [World.step, here] at stepped
      obtain rfl := Option.some.inj stepped
      exact sound.poll here ready
    | idle | registered | asleep | failed =>
      simp only [World.step, here] at stepped
      cases stepped
  | notify waker =>
    obtain rfl := Option.some.inj stepped
    exact sound.wake waker
  | cut =>
    cases here : world.cutter with
    | before =>
      simp only [World.step, here] at stepped
      obtain rfl := Option.some.inj stepped
      exact sound.start_cut here
    | taking | waking =>
      simp only [World.step, here] at stepped
      cases stepped
  | take =>
    cases here : world.cutter with
    | taking rest =>
      cases rest with
      | nil =>
        simp only [World.step, here] at stepped
        cases stepped
      | cons direction rest =>
        simp only [World.step, here] at stepped
        obtain rfl := Option.some.inj stepped
        exact sound.take here
    | before | waking =>
      simp only [World.step, here] at stepped
      cases stepped
  | wake =>
    cases here : world.cutter with
    | waking waker rest =>
      simp only [World.step, here] at stepped
      obtain rfl := Option.some.inj stepped
      exact sound.wake_taken here
    | before | taking =>
      simp only [World.step, here] at stepped
      cases stepped

theorem sound_after {history : List Event} (ran : after history = some world) : world.Sound :=
  Machine.run_invariant Sound sound_start (fun _ _ _ sound _ => sound.step)
    (Machine.along_of_forall_mem fun _ _ _ => trivial) ran

/-- Once the cut has returned, a poll that is past its check was woken, whether or not it has returned by then, and
a poll that has still to check fails. -/
theorem cut_wakes_every_task {history : List Event} (ran : after history = some world)
    (returned : world.cutter = .taking []) :
    (∀ direction waker, world.phase direction = .checked waker ∨ world.phase direction = .asleep waker →
        world.notified direction = true) ∧
      ∀ direction waker, world.phase direction = .registered waker →
        world.step (.check direction) = some (world.setPhase direction .failed) := by
  have sound := sound_after ran
  refine ⟨fun direction waker here => ?_, fun direction waker here => ?_⟩
  · rcases sound.checked direction waker here with ⟨ahead, -⟩ | taken | woken
    · rw [returned] at ahead
      cases ahead
    · rw [returned] at taken
      cases taken
    · exact woken
  · have cut : world.cut = true := sound.cut.mpr (by rw [returned]; simp)
    simp only [World.step, here, cut, if_true]

/-- A poll checks, the socket is cut, and the poll goes to sleep in the middle of the cut; newest first. -/
theorem cut_wakes_every_task_sample :
    ∃ world, after [.take, .wake, .take, .poll .read false, .cut, .check .read, .register .read 7] = some world ∧
      world.phase .read = .asleep 7 ∧ world.notified .read = true := by
  have ends : (after [.take, .wake, .take, .poll .read false, .cut, .check .read, .register .read 7]).map
      (fun world => (world.phase .read, world.cutter)) = some (.asleep 7, .taking []) := by decide
  obtain ⟨world, ran, here⟩ := Option.map_eq_some_iff.mp ends
  obtain ⟨asleep, returned⟩ := Prod.mk.inj here
  exact ⟨world, ran, asleep, (cut_wakes_every_task ran returned).1 .read 7 (.inr asleep)⟩

end World

end Tollgate.Cut
