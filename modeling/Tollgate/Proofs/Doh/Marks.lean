import Mathlib.Data.List.Basic
import Tollgate.Model.Doh.Upstream

/-! # The down mark

A mark that is set either belongs to the current epoch, or its call has not come to its second look at
the epoch, or a reset has yet to clear it. Marks are told apart by their values only: a stale call that
takes back the equal mark of another one takes back a mark just as stale.
-/

namespace Tollgate.Doh

open List

/-- The phases that calls begin in. -/
inductive Phase.Begins : Phase → Prop where
  | reset : Begins (.reset .increment)
  | query : Begins .opening
  | markUp : Begins .markUp
  | markDown (epoch now : ℕ) : Begins (.mark (.of epoch now none) .check)

namespace Shared

variable {shared next : Shared} {locked : Bool} {phase after : Phase} {choice : Choice}

/-- What a step of a query does to the slot and to its phase. -/
inductive Queried (shared : Shared) : Phase → Slot → Phase → Prop where
  | opens (now : Reading) (closed : Bool) :
      Queried shared .opening (shared.slot.openSender now closed).2
        (.registering ((shared.slot.openSender now closed).1.map fun sender => ⟨sender.1, sender.2, shared.epoch⟩) true)
  | registers (warm : Option Taken) (stops : Bool) :
      Queried shared (.registering warm stops) shared.slot (.loading warm stops false)
  | loadsWarm (taken : Taken) (stops notified : Bool) :
      Queried shared (.loading (some taken) stops notified) shared.slot (.warm ⟨stops, notified, shared.epoch⟩ taken)
  | loadsCold (stops notified : Bool) :
      Queried shared (.loading none stops notified) shared.slot (.cold ⟨stops, notified, shared.epoch⟩ .lock)
  | warmReady (watch : Watch) (taken : Taken) :
      Queried shared (.warm watch taken) shared.slot (.touching taken.generation)
  | warmBreaks (watch : Watch) (taken : Taken) : Queried shared (.warm watch taken) shared.slot (.discarding taken none)
  | warmTimesOut (watch : Watch) (taken : Taken) :
      Queried shared (.warm watch taken) shared.slot (.discarding taken (some watch.epoch))
  | warmStops (watch : Watch) (taken : Taken) : Queried shared (.warm watch taken) shared.slot (.registering none false)
  | warmDrops (watch : Watch) (taken : Taken) : Queried shared (.warm watch taken) shared.slot .done
  | locks (watch : Watch) : Queried shared (.cold watch .lock) shared.slot (.cold watch .look)
  | finds (watch : Watch) {now : Reading} {closed : Bool} {generation : ℕ} {sender : Connection} {slot : Slot}
      (found : shared.slot.openSender now closed = (some (generation, sender), slot)) :
      Queried shared (.cold watch .look) slot (.cold watch (.exchange ⟨generation, sender, shared.epoch⟩))
  | misses (watch : Watch) (now : Reading) (closed : Bool) :
      Queried shared (.cold watch .look) (shared.slot.openSender now closed).2 (.cold watch .load)
  | loads (watch : Watch) : Queried shared (.cold watch .load) shared.slot (.cold watch (.start shared.epoch))
  | starts (watch : Watch) (loaded : ℕ) :
      Queried shared (.cold watch (.start loaded)) shared.slot (.cold watch (.connect loaded ⟨shared.epoch⟩))
  | connects (watch : Watch) (loaded : ℕ) (sender : Connection) :
      Queried shared (.cold watch (.connect loaded sender)) shared.slot (.cold watch (.check loaded sender))
  | passes (watch : Watch) {loaded : ℕ} (sender : Connection) (current : shared.epoch = loaded) :
      Queried shared (.cold watch (.check loaded sender)) shared.slot (.cold watch (.store loaded sender))
  | stores (watch : Watch) (loaded : ℕ) (sender : Connection) (now : Reading) :
      Queried shared (.cold watch (.store loaded sender)) (shared.slot.store sender now)
        (.cold watch (.exchange ⟨(shared.slot.store sender now).generation, sender, sender.began⟩))
  | coldReady (watch : Watch) (taken : Taken) :
      Queried shared (.cold watch (.exchange taken)) shared.slot (.touching taken.generation)
  | coldFails (watch : Watch) (stage : ColdStage) (now : ℕ) :
      Queried shared (.cold watch stage) shared.slot (.mark (.of watch.epoch now stage.taken) .check)
  | coldStops (watch : Watch) (stage : ColdStage) :
      Queried shared (.cold watch stage) shared.slot (.registering none false)
  | coldDrops (watch : Watch) (stage : ColdStage) : Queried shared (.cold watch stage) shared.slot .done
  | touches (generation : ℕ) (now : Reading) :
      Queried shared (.touching generation) (shared.slot.touch generation now) .markUp
  | marks (taken : Taken) (epoch now : ℕ) :
      Queried shared (.discarding taken (some epoch)) (shared.slot.discard taken.generation)
        (.mark (.of epoch now (some taken.since)) .check)
  | retries (taken : Taken) :
      Queried shared (.discarding taken none) (shared.slot.discard taken.generation) (.registering none true)

theorem queried_of_stepCold {watch : Watch} {now : Reading} {closed : Bool} {stage : ColdStage}
    (stepped : shared.stepCold locked watch now closed stage = some (next, after)) :
    ∃ slot, next = { shared with slot := slot } ∧ shared.Queried (.cold watch stage) slot after := by
  cases stage with
  | lock =>
    simp only [stepCold] at stepped
    split at stepped
    · cases stepped
    · cases stepped
      exact ⟨_, rfl, .locks watch⟩
  | look =>
    simp only [stepCold] at stepped
    split at stepped
    · next generation sender found =>
      cases stepped
      exact ⟨_, rfl, .finds watch (Prod.ext found rfl)⟩
    · cases stepped
      exact ⟨_, rfl, .misses watch now closed⟩
  | load =>
    cases stepped
    exact ⟨_, rfl, .loads watch⟩
  | start loaded =>
    cases stepped
    exact ⟨_, rfl, .starts watch loaded⟩
  | check loaded sender =>
    simp only [stepCold] at stepped
    split at stepped
    · cases stepped
      exact ⟨_, rfl, .coldFails watch (.check loaded sender) now.totalSecs⟩
    · next current =>
      cases stepped
      exact ⟨_, rfl, .passes watch sender (not_not.mp current)⟩
  | store loaded sender =>
    cases stepped
    exact ⟨_, rfl, .stores watch loaded sender now⟩
  | connect loaded sender | exchange taken => cases stepped

theorem queried_of_endCold {watch : Watch} {stage : ColdStage} (ended : endCold watch stage choice = some after) :
    shared.Queried (.cold watch stage) shared.slot after := by
  cases choice with
  | go now closed => cases ended
  | ready =>
    simp only [endCold] at ended
    split at ended
    · cases ended
      exact .connects ..
    · cases ended
      exact .coldReady ..
    · cases ended
  | broken now =>
    simp only [endCold] at ended
    split at ended
    · cases ended
      exact .coldFails ..
    · cases ended
      exact .coldFails ..
    · cases ended
  | timedOut now =>
    simp only [endCold] at ended
    split at ended
    · cases ended
      exact .coldFails ..
    · cases ended
  | stopped =>
    simp only [endCold] at ended
    split at ended
    · cases ended
      exact .coldStops ..
    · cases ended
  | cancelled =>
    simp only [endCold] at ended
    split at ended
    · cases ended
      exact .coldDrops ..
    · cases ended

theorem queried_of_endWarm {watch : Watch} {taken : Taken} (ended : endWarm watch taken choice = some after) :
    shared.Queried (.warm watch taken) shared.slot after := by
  cases choice with
  | go now closed => cases ended
  | ready =>
    cases ended
    exact .warmReady ..
  | broken now =>
    cases ended
    exact .warmBreaks ..
  | timedOut now =>
    cases ended
    exact .warmTimesOut ..
  | stopped =>
    simp only [endWarm] at ended
    split at ended
    · cases ended
      exact .warmStops ..
    · cases ended
  | cancelled =>
    cases ended
    exact .warmDrops ..

/-- A step of a mark leaves the rest alone and the call goes on with the same mark. -/
theorem stepMark_keeps (shared : Shared) (mark : Mark) (stage : MarkStage) :
    (shared.stepMark mark stage).1.epoch = shared.epoch ∧ (shared.stepMark mark stage).1.slot = shared.slot ∧
      (shared.stepMark mark stage).1.returned = shared.returned ∧
      ((shared.stepMark mark stage).2 = .done ∨ ∃ later, (shared.stepMark mark stage).2 = .mark mark later) := by
  cases stage with
  | check =>
    refine ⟨rfl, rfl, rfl, ?_⟩
    simp only [stepMark]
    split
    · exact .inl rfl
    · exact .inr ⟨_, rfl⟩
  | swap => exact ⟨rfl, rfl, rfl, .inr ⟨_, rfl⟩⟩
  | recheck =>
    refine ⟨rfl, rfl, rfl, ?_⟩
    simp only [stepMark]
    split
    · exact .inr ⟨_, rfl⟩
    · exact .inl rfl
  | undo =>
    dsimp only [stepMark]
    split <;> exact ⟨rfl, rfl, rfl, .inl rfl⟩

/-- What a step can do. -/
inductive Advanced (shared : Shared) : Phase → Shared → Phase → Prop where
  | reset (stage : ResetStage) : Advanced shared (.reset stage) (shared.stepReset stage).1 (shared.stepReset stage).2
  | mark (mark : Mark) (stage : MarkStage) :
      Advanced shared (.mark mark stage) (shared.stepMark mark stage).1 (shared.stepMark mark stage).2
  | markUp : Advanced shared .markUp shared.cleared .done
  | query {phase after : Phase} {slot : Slot} (queried : shared.Queried phase slot after) :
      Advanced shared phase { shared with slot := slot } after

theorem advanced_of_advance (stepped : shared.advance locked phase choice = some (next, after)) :
    shared.Advanced phase next after := by
  cases phase with
  | reset stage =>
    cases choice with
    | go now closed =>
      have equal : shared.stepReset stage = (next, after) := Option.some.inj stepped
      have advanced : shared.Advanced (.reset stage) _ _ := .reset stage
      rwa [equal] at advanced
    | _ => cases stepped
  | mark mark stage =>
    cases choice with
    | go now closed =>
      have equal : shared.stepMark mark stage = (next, after) := Option.some.inj stepped
      have advanced : shared.Advanced (.mark mark stage) _ _ := .mark mark stage
      rwa [equal] at advanced
    | _ => cases stepped
  | markUp =>
    cases choice with
    | go now closed =>
      cases stepped
      exact .markUp
    | _ => cases stepped
  | done => cases choice <;> cases stepped
  | opening =>
    cases choice with
    | go now closed =>
      cases stepped
      exact .query (.opens now closed)
    | _ => cases stepped
  | registering warm stops =>
    cases choice with
    | go now closed =>
      cases stepped
      exact .query (.registers warm stops)
    | _ => cases stepped
  | loading warm stops notified =>
    cases choice with
    | go now closed =>
      cases warm with
      | none =>
        cases stepped
        exact .query (.loadsCold stops notified)
      | some taken =>
        cases stepped
        exact .query (.loadsWarm taken stops notified)
    | _ => cases warm <;> cases stepped
  | warm watch taken =>
    obtain ⟨reached, ended, same⟩ := Option.map_eq_some_iff.mp stepped
    cases same
    exact .query (queried_of_endWarm ended)
  | cold watch stage =>
    cases choice with
    | go now closed =>
      obtain ⟨slot, rfl, queried⟩ := queried_of_stepCold stepped
      exact .query queried
    | _ =>
      obtain ⟨reached, ended, same⟩ := Option.map_eq_some_iff.mp stepped
      cases same
      exact .query (queried_of_endCold ended)
  | touching generation =>
    cases choice with
    | go now closed =>
      cases stepped
      exact .query (.touches generation now)
    | _ => cases stepped
  | discarding taken epoch =>
    cases choice with
    | go now closed =>
      cases epoch with
      | none =>
        cases stepped
        exact .query (.retries taken)
      | some epoch =>
        cases stepped
        exact .query (.marks taken epoch now.totalSecs)
    | _ => cases stepped

end Shared

namespace World

variable {world next : World} {event : Event}

/-- What an event does: a call begins, or one goes on. -/
theorem step_cases (stepped : world.step event = some next) :
    (∃ phase : Phase, phase.Begins ∧ next = world.begin phase) ∨
      ∃ call choice phase shared after, event = .step call choice ∧ world.calls[call]? = some phase ∧
        world.shared.advance (world.calls.any Phase.holdsLock) phase choice = some (shared, after) ∧
        next = ⟨shared, (woken world.calls phase).set call after⟩ := by
  cases event with
  | reset => exact .inl ⟨_, .reset, (Option.some.inj stepped).symm⟩
  | query => exact .inl ⟨_, .query, (Option.some.inj stepped).symm⟩
  | markUp => exact .inl ⟨_, .markUp, (Option.some.inj stepped).symm⟩
  | markDown epoch now => exact .inl ⟨_, .markDown epoch now, (Option.some.inj stepped).symm⟩
  | step call choice =>
    obtain ⟨phase, found, rest⟩ := Option.bind_eq_some_iff.mp stepped
    obtain ⟨⟨shared, after⟩, advanced, same⟩ := Option.bind_eq_some_iff.mp rest
    exact .inr ⟨call, choice, phase, shared, after, rfl, found, advanced, (Option.some.inj same).symm⟩

/-- What notifying leaves alone is still there after a step of another call. -/
theorem mem_of_step {calls : List Phase} {call : ℕ} {phase after other : Phase} (found : calls[call]? = some phase)
    (member : other ∈ calls) (different : other ≠ phase) (plain : other.notify = other) :
    other ∈ (woken calls phase).set call after := by
  obtain ⟨place, there⟩ := mem_iff_getElem?.mp member
  have elsewhere : call ≠ place := by
    rintro rfl
    exact different (Option.some.inj (there.symm.trans found))
  have still : (woken calls phase)[place]? = some other := by
    unfold woken
    split
    · rw [getElem?_map, there, Option.map_some, plain]
    · exact there
  exact mem_iff_getElem?.mpr ⟨place, by rw [getElem?_set_ne elsewhere, still]⟩

/-- The phase a step leads to is there after it. -/
theorem mem_stepped {calls : List Phase} {call : ℕ} {phase after : Phase} (found : calls[call]? = some phase) :
    after ∈ (woken calls phase).set call after := by
  obtain ⟨bound, -⟩ := List.getElem?_eq_some_iff.mp found
  apply mem_set
  unfold woken
  split
  · rwa [length_map]
  · exact bound

/-- What holds of every call holds after a step, if the step and notifications keep it. -/
theorem forall_of_step {calls : List Phase} {call : ℕ} {phase after : Phase} {before later : Phase → Prop}
    (all : ∀ other ∈ calls, before other) (own : later after) (others : ∀ other, before other → later other)
    (notified : ∀ other, later other → later other.notify) :
    ∀ other ∈ (woken calls phase).set call after, later other := by
  intro other member
  rcases mem_or_eq_of_mem_set member with old | rfl
  · unfold woken at old
    split at old
    · obtain ⟨source, inside, rfl⟩ := mem_map.mp old
      exact notified source (others source (all source inside))
    · exact others other (all other old)
  · exact own

/-- The mark is the setter's, and it is current, about to be checked again, or about to be cleared. -/
structure Marked (world : World) : Prop where
  value : ∀ mark, world.shared.setter = some mark → world.shared.downUntil = mark.stop
  unset : world.shared.setter = none → world.shared.downUntil = 0
  held : ∀ mark, world.shared.setter = some mark → mark.epoch = world.shared.epoch ∨
    (.mark mark .recheck ∈ world.calls ∨ .mark mark .undo ∈ world.calls) ∨
      ∃ number, .reset (.clear number) ∈ world.calls

theorem marked_start : start.Marked := ⟨nofun, fun _ => rfl, nofun⟩

/-- A mark that was cleared needs nothing. -/
theorem marked_cleared (shared : Shared) (calls : List Phase) : (World.mk shared.cleared calls).Marked :=
  ⟨nofun, fun _ => rfl, nofun⟩

section Step

variable {call : ℕ} {phase after : Phase} {shared : Shared}

/-- The mark is held as before, unless the step is one that was waited for. -/
theorem Marked.held_of_step (marked : world.Marked) (found : world.calls[call]? = some phase) {mark : Mark}
    (set : world.shared.setter = some mark) (recheck : phase ≠ .mark mark .recheck) (undo : phase ≠ .mark mark .undo)
    (clear : ∀ number, phase ≠ .reset (.clear number)) :
    mark.epoch = world.shared.epoch ∨
      (.mark mark .recheck ∈ (woken world.calls phase).set call after ∨
        .mark mark .undo ∈ (woken world.calls phase).set call after) ∨
        ∃ number, .reset (.clear number) ∈ (woken world.calls phase).set call after := by
  rcases marked.held mark set with current | (rechecks | undoes) | ⟨number, clears⟩
  · exact .inl current
  · exact .inr (.inl (.inl (mem_of_step found rechecks recheck.symm rfl)))
  · exact .inr (.inl (.inr (mem_of_step found undoes undo.symm rfl)))
  · exact .inr (.inr ⟨number, mem_of_step found clears (clear number).symm rfl⟩)

/-- A step that changes neither the epoch nor the mark. -/
theorem Marked.frame (marked : world.Marked) (found : world.calls[call]? = some phase)
    (epoch : shared.epoch = world.shared.epoch) (down : shared.downUntil = world.shared.downUntil)
    (setter : shared.setter = world.shared.setter) (idle : ∀ mark stage, phase = .mark mark stage → stage = .check)
    (clear : ∀ number, phase ≠ .reset (.clear number)) :
    (World.mk shared ((woken world.calls phase).set call after)).Marked := by
  refine ⟨fun mark set => ?_, fun unset => ?_, fun mark set => ?_⟩
  · exact down.trans (marked.value mark (setter ▸ set))
  · exact down.trans (marked.unset (setter ▸ unset))
  · change mark.epoch = shared.epoch ∨ _
    rw [epoch]
    exact marked.held_of_step found (setter ▸ set) (fun same => nomatch idle _ _ same) (fun same => nomatch idle _ _ same)
      clear

theorem Marked.reset {stage : ResetStage} (marked : world.Marked) (found : world.calls[call]? = some (.reset stage)) :
    (World.mk (world.shared.stepReset stage).1
      ((woken world.calls (.reset stage)).set call (world.shared.stepReset stage).2)).Marked := by
  cases stage with
  | increment => exact ⟨marked.value, marked.unset, fun mark set => .inr (.inr ⟨_, mem_stepped found⟩)⟩
  | clear number => exact marked_cleared ..
  | drop number => exact marked.frame found rfl rfl rfl nofun nofun
  | notify number => exact marked.frame found rfl rfl rfl nofun nofun

theorem Marked.mark {mark : Mark} {stage : MarkStage} (marked : world.Marked)
    (found : world.calls[call]? = some (.mark mark stage)) :
    (World.mk (world.shared.stepMark mark stage).1
      ((woken world.calls (.mark mark stage)).set call (world.shared.stepMark mark stage).2)).Marked := by
  cases stage with
  | check =>
    refine marked.frame found rfl rfl rfl ?_ nofun
    rintro _ _ ⟨⟩
    rfl
  | swap =>
    refine ⟨?_, nofun, ?_⟩
    · rintro _ ⟨⟩
      rfl
    · rintro _ ⟨⟩
      exact .inr (.inl (.inl (mem_stepped found)))
  | recheck =>
    refine ⟨marked.value, marked.unset, fun set isSet => ?_⟩
    by_cases own : set = mark
    · subst own
      simp only [Shared.stepMark]
      split
      · exact .inr (.inl (.inr (mem_stepped found)))
      · next current => exact .inl (not_not.mp current).symm
    · exact marked.held_of_step found isSet (fun same => own (Phase.mark.inj same).1.symm) nofun nofun
  | undo =>
    simp only [Shared.stepMark]
    split
    · exact marked_cleared ..
    · next other =>
      refine ⟨marked.value, marked.unset, fun set isSet => ?_⟩
      have different : set ≠ mark := fun same => other (same ▸ marked.value set isSet)
      exact marked.held_of_step found isSet nofun (fun same => different (Phase.mark.inj same).1.symm) nofun

/-- Every step keeps the mark held. -/
theorem Marked.step (marked : world.Marked) (stepped : world.step event = some next) : next.Marked := by
  rcases step_cases stepped with ⟨phase, -, rfl⟩ | ⟨call, choice, phase, shared, after, rfl, found, ran, rfl⟩
  · refine ⟨marked.value, marked.unset, fun mark set => ?_⟩
    rcases marked.held mark set with current | (rechecks | undoes) | ⟨number, clears⟩
    · exact .inl current
    · exact .inr (.inl (.inl (mem_append_left _ rechecks)))
    · exact .inr (.inl (.inr (mem_append_left _ undoes)))
    · exact .inr (.inr ⟨number, mem_append_left _ clears⟩)
  · cases Shared.advanced_of_advance ran with
    | reset stage => exact marked.reset found
    | mark mark stage => exact marked.mark found
    | markUp => exact marked_cleared ..
    | query queried =>
      refine marked.frame found rfl rfl rfl ?_ ?_
      · rintro mark stage rfl
        cases queried
      · rintro number rfl
        cases queried

theorem marked_after {history : List Event} (ran : World.after history = some world) : world.Marked :=
  Machine.run_invariant Marked marked_start (fun _ _ _ marked _ stepped => marked.step stepped)
    (Machine.along_of_forall_mem fun _ _ _ => trivial) ran

end Step

end World

end Tollgate.Doh
