import Mathlib.Order.Lattice
import Tollgate.Model.Mitm.Idle

/-! # When a closing connection is dropped

The connection is dropped no earlier than a grace period after `shutdown` was called, with nothing in flight
at that moment. Whether nothing was in flight for a whole grace period depends on when requests end: the time
at which the connection is dropped moves when the timer finds a request in flight, not when a request ends.
If the last request in flight ends with a full grace period still to go, nothing was in flight during the
last one; if it ends later, the connection may be dropped right after.
-/

namespace Tollgate.Mitm.Idle

theorem Activity.grace_requestReclaim (activity : Activity) : activity.requestReclaim.grace ≤ activity.grace := by
  have reclaimed : activity.requestReclaim.grace = reclaimGrace := if_pos rfl
  rw [reclaimed, grace]
  split
  · exact le_rfl
  · decide

theorem Activity.busy_start (activity : Activity) : activity.start.busy = true :=
  decide_eq_true (Nat.succ_pos _)

namespace Serve

variable {idle : ℕ} {serve next : Serve} {event : Event}

/-- What an event can do: a case for each way through the loop, with what it found. -/
inductive Moved (serve : Serve) : Event → Serve → Prop
  | passed (nanos : ℕ) : Moved serve (.pass nanos) { serve with
      now := serve.now + nanos
      lastBusy := if serve.activity.busy then some (serve.now + nanos) else serve.lastBusy }
  | started : Moved serve .start { serve with activity := serve.activity.start, lastBusy := some serve.now }
  | finished : serve.activity.busy = true → Moved serve .finish
      { serve with activity := serve.activity.finish serve.now, lastBusy := some serve.now }
  | closeRequested : Moved serve .requestClose { serve with activity := serve.activity.requestClose }
  | reclaimRequested : Moved serve .requestReclaim { serve with activity := serve.activity.requestReclaim }
  | obeys : Moved serve .loop { serve.shutDown with phase := .waiting serve.shutDown.dropAt }
  | waits (wake : ℕ) : (serve.closing = true → wake = serve.dropAt) →
      Moved serve .loop { serve with phase := .waiting wake }
  | ends : Moved serve .connection { serve with phase := .ended }
  | hastened : serve.closing = true → Moved serve .notified { serve with
      activity := { serve.activity with close := false }
      dropAt := min serve.dropAt (serve.now + serve.activity.grace)
      phase := .looping }
  | noticed : serve.closing = false → Moved serve .notified
      { serve with activity := { serve.activity with close := false }, phase := .looping }
  | tires : Moved serve .timer { serve.shutDown with phase := .looping }
  | woke : serve.closing = false → Moved serve .timer { serve with phase := .looping }
  | extended : serve.closing = true → serve.activity.busy = true →
      Moved serve .timer { serve with dropAt := serve.now + serve.activity.grace, phase := .looping }
  | drops (wake : ℕ) : serve.phase = .waiting wake → wake ≤ serve.now → serve.closing = true →
      serve.activity.busy = false → Moved serve .timer { serve with phase := .dropped }

theorem moved_loop : Moved serve .loop (serve.loop idle) := by
  cases closing : serve.closing with
  | true =>
    have same : serve.loop idle = { serve with phase := .waiting serve.dropAt } := by
      simp [loop, closing]
    rw [same]
    exact .waits _ fun _ => rfl
  | false =>
    cases asked : serve.activity.closeRequested with
    | true =>
      have same : serve.loop idle = { serve.shutDown with phase := .waiting serve.shutDown.dropAt } := by
        simp [loop, shutDown, closing, asked]
      rw [same]
      exact .obeys
    | false =>
      have same : serve.loop idle =
          { serve with phase := .waiting ((serve.activity.idleAt idle).getD (serve.now + idle)) } := by
        simp [loop, closing, asked]
      rw [same]
      exact .waits _ fun other => absurd (closing.symm.trans other) nofun

theorem moved_notified : Moved serve .notified serve.notified := by
  cases closing : serve.closing with
  | true =>
    have same : serve.notified = { serve with
        activity := { serve.activity with close := false }
        dropAt := min serve.dropAt (serve.now + serve.activity.grace)
        phase := .looping } := by
      simp [notified, closing]
    rw [same]
    exact .hastened closing
  | false =>
    have same : serve.notified =
        { serve with activity := { serve.activity with close := false }, phase := .looping } := by
      simp [notified, closing]
    rw [same]
    exact .noticed closing

theorem moved_timer {wake : ℕ} (waiting : serve.phase = .waiting wake) (due : wake ≤ serve.now) :
    Moved serve .timer (serve.timer idle) := by
  rw [timer]
  split
  · next unclosed =>
    split
    · exact .tires
    · exact .woke (by simpa using unclosed)
  · next closing =>
    have closed : serve.closing = true := by simpa using closing
    split
    · next busy => exact .extended closed busy
    · next free => exact .drops wake waiting due closed (by simpa using free)

theorem moved_of_step (stepped : serve.step idle event = some next) : Moved serve event next := by
  cases event with
  | pass nanos =>
    cases stepped
    exact .passed nanos
  | start =>
    cases stepped
    exact .started
  | finish =>
    obtain ⟨busy, same⟩ := Option.ite_none_right_eq_some.mp stepped
    cases same
    exact .finished busy
  | requestClose =>
    cases stepped
    exact .closeRequested
  | requestReclaim =>
    cases stepped
    exact .reclaimRequested
  | loop =>
    obtain ⟨-, same⟩ := Option.ite_none_right_eq_some.mp stepped
    cases same
    exact moved_loop
  | connection =>
    rw [step] at stepped
    split at stepped
    · cases stepped
      exact .ends
    · cases stepped
  | notified =>
    rw [step] at stepped
    split at stepped
    · obtain ⟨-, same⟩ := Option.ite_none_right_eq_some.mp stepped
      cases same
      exact moved_notified
    · cases stepped
  | timer =>
    rw [step] at stepped
    split at stepped
    · next wake waiting =>
      obtain ⟨due, same⟩ := Option.ite_none_right_eq_some.mp stepped
      cases same
      exact moved_timer waiting due
    · cases stepped

/-- What holds in every run. -/
structure Kept (serve : Serve) : Prop where
  busy_le : ∀ moment ∈ serve.lastBusy, moment ≤ serve.now
  /-- The time at which the connection is dropped is a grace period after the call of `shutdown`. -/
  shutdown : serve.closing = true →
    ∃ called, serve.shutdownAt = some called ∧ called ≤ serve.now ∧ called + serve.activity.grace ≤ serve.dropAt
  wake : ∀ time, serve.phase = .waiting time → serve.closing = true → time = serve.dropAt

/-- A closing connection with nothing in flight is dropped a grace period after the last request. -/
def Rests (serve : Serve) : Prop :=
  serve.closing = true → serve.activity.busy = false →
    ∀ moment ∈ serve.lastBusy, moment + serve.activity.grace ≤ serve.dropAt

theorem kept_begin (start : ℕ) : (begin start).Kept := ⟨nofun, nofun, nofun⟩

theorem rests_begin (start : ℕ) : (begin start).Rests := nofun

theorem Kept.moved (kept : serve.Kept) (moved : Moved serve event next) : next.Kept := by
  cases moved with
  | passed nanos =>
    refine ⟨fun moment member => ?_, fun closing => ?_, kept.wake⟩
    · dsimp only at member
      split at member
      · exact (Option.some.inj member).ge
      · exact (kept.busy_le moment member).trans (Nat.le_add_right ..)
    · obtain ⟨called, same, past, ready⟩ := kept.shutdown closing
      exact ⟨called, same, past.trans (Nat.le_add_right ..), ready⟩
  | started => exact ⟨fun moment member => (Option.some.inj member).ge, kept.shutdown, kept.wake⟩
  | finished busy => exact ⟨fun moment member => (Option.some.inj member).ge, kept.shutdown, kept.wake⟩
  | closeRequested => exact ⟨kept.busy_le, kept.shutdown, kept.wake⟩
  | reclaimRequested =>
    refine ⟨kept.busy_le, fun closing => ?_, kept.wake⟩
    obtain ⟨called, same, past, ready⟩ := kept.shutdown closing
    exact ⟨called, same, past, (Nat.add_le_add_left (Activity.grace_requestReclaim _) _).trans ready⟩
  | obeys =>
    refine ⟨kept.busy_le, fun _ => ⟨serve.now, rfl, le_refl _, le_refl _⟩, ?_⟩
    rintro time ⟨⟩ _
    rfl
  | tires => exact ⟨kept.busy_le, fun _ => ⟨serve.now, rfl, le_refl _, le_refl _⟩, nofun⟩
  | waits wake wakes =>
    refine ⟨kept.busy_le, kept.shutdown, ?_⟩
    rintro time ⟨⟩
    exact wakes
  | ends | noticed | woke | drops => exact ⟨kept.busy_le, kept.shutdown, nofun⟩
  | hastened closing =>
    refine ⟨kept.busy_le, fun _ => ?_, nofun⟩
    obtain ⟨called, same, past, ready⟩ := kept.shutdown closing
    exact ⟨called, same, past, le_min ready (Nat.add_le_add_right past _)⟩
  | extended closing busy =>
    refine ⟨kept.busy_le, fun _ => ?_, nofun⟩
    obtain ⟨called, same, past, -⟩ := kept.shutdown closing
    exact ⟨called, same, past, Nat.add_le_add_right past _⟩

theorem Rests.moved (rests : serve.Rests) (kept : serve.Kept) (inTime : serve.EndsInTime event)
    (moved : Moved serve event next) : next.Rests := by
  cases moved with
  | passed nanos =>
    intro closing free moment member
    have idles : serve.activity.busy = false := free
    dsimp only at member
    rw [idles, if_neg Bool.false_ne_true] at member
    exact rests closing free moment member
  | started =>
    intro _ free
    exact absurd ((Activity.busy_start _).symm.trans free) nofun
  | finished busy =>
    intro closing free moment member
    obtain rfl := Option.some.inj member
    have before : 0 < serve.activity.inFlight := of_decide_eq_true busy
    have later : ¬0 < serve.activity.inFlight - 1 := of_decide_eq_false free
    exact inTime closing (by omega)
  | closeRequested | waits | ends | drops => exact rests
  | reclaimRequested =>
    intro closing free moment member
    exact (Nat.add_le_add_left (Activity.grace_requestReclaim _) _).trans (rests closing free moment member)
  | obeys | tires =>
    intro _ _ moment member
    exact Nat.add_le_add_right (kept.busy_le moment member) _
  | hastened closing =>
    intro _ free moment member
    exact le_min (rests closing free moment member) (Nat.add_le_add_right (kept.busy_le moment member) _)
  | noticed unclosed | woke unclosed =>
    intro closing
    exact absurd (unclosed.symm.trans closing) nofun
  | extended _ busy =>
    intro _ free
    exact absurd (busy.symm.trans free) nofun

variable {start : ℕ} {history : List Event}

theorem kept_after (ran : after idle start history = some serve) : serve.Kept := by
  refine Machine.run_invariant Kept (kept_begin start) ?_ (Machine.along_of_forall_mem fun _ _ _ => trivial) ran
  intro before event next kept _ stepped
  exact kept.moved (moved_of_step stepped)

theorem rests_after (ran : after idle start history = some serve)
    (along : Machine.Along (step idle) (begin start) EndsInTime history) : serve.Rests := by
  have both : serve.Kept ∧ serve.Rests := by
    refine Machine.run_invariant (fun serve => Kept serve ∧ Rests serve) ⟨kept_begin start, rests_begin start⟩ ?_ along
      ran
    rintro before event next ⟨kept, rests⟩ inTime stepped
    have moved := moved_of_step stepped
    exact ⟨kept.moved moved, rests.moved kept inTime moved⟩
  exact both.2

/-- Only the timer of a closing connection drops it, when nothing is in flight. -/
theorem Moved.due (moved : Moved serve event next) (running : serve.phase ≠ .dropped)
    (dropped : next.phase = .dropped) : ∃ wake, serve.phase = .waiting wake ∧ wake ≤ serve.now ∧
      serve.closing = true ∧ serve.activity.busy = false := by
  cases moved with
  | passed | started | finished | closeRequested | reclaimRequested => exact absurd dropped running
  | obeys | waits | ends | hastened | noticed | tires | woke | extended => cases dropped
  | drops wake waiting due closing free => exact ⟨wake, waiting, due, closing, free⟩

/-- In every run, a connection that is dropped has nothing in flight and was shut down a grace period ago. -/
theorem drop_after_shutdown (ran : after idle start history = some serve) (running : serve.phase ≠ .dropped)
    (stepped : serve.step idle event = some next) (dropped : next.phase = .dropped) :
    (∃ called, serve.shutdownAt = some called ∧ called + serve.activity.grace ≤ serve.now) ∧
      serve.activity.inFlight = 0 ∧ serve.closing = true ∧ serve.dropAt ≤ serve.now := by
  obtain ⟨wake, waiting, due, closing, free⟩ := (moved_of_step stepped).due running dropped
  have kept := kept_after ran
  obtain ⟨called, same, -, ready⟩ := kept.shutdown closing
  have expired : serve.dropAt ≤ serve.now := kept.wake wake waiting closing ▸ due
  have none : ¬0 < serve.activity.inFlight := of_decide_eq_false free
  exact ⟨⟨called, same, ready.trans expired⟩, Nat.eq_zero_of_not_pos none, closing, expired⟩

/-- In every run in which the last request in flight on a closing connection ends a full grace period before
the connection would be dropped: `serve` drops the connection only when `shutdown` was called a grace period
ago and nothing has been in flight since then. -/
theorem drop_after_quiet_grace (idle start : ℕ) (history : List Event) (serve next : Serve) (event : Event)
    (ran : after idle start history = some serve)
    (along : Machine.Along (step idle) (begin start) EndsInTime history) (running : serve.phase ≠ .dropped)
    (stepped : serve.step idle event = some next) (dropped : next.phase = .dropped) :
    (∃ called, serve.shutdownAt = some called ∧ called + serve.activity.grace ≤ serve.now) ∧
      serve.activity.inFlight = 0 ∧ ∀ moment ∈ serve.lastBusy, moment + serve.activity.grace ≤ serve.now := by
  obtain ⟨called, none, closing, expired⟩ := drop_after_shutdown ran running stepped dropped
  refine ⟨called, none, fun moment member => ?_⟩
  have free : serve.activity.busy = false := decide_eq_false (by omega)
  exact (rests_after ran along closing free moment member).trans expired

/-- A request asks for the close of its connection and ends at once; the client never answers. -/
def silentClient : List Event :=
  [.pass 5000000000, .loop, .notified, .finish, .loop, .requestClose, .start]

theorem drop_after_quiet_grace_sample :
    ∃ serve next, after 60000000000 0 silentClient = some serve ∧ serve.step 60000000000 .timer = some next ∧
      next.phase = .dropped ∧ serve.lastBusy = some 0 ∧
      ∀ moment ∈ serve.lastBusy, moment + serve.activity.grace ≤ serve.now := by
  obtain ⟨serve, next, ran, running, stepped, dropped, last⟩ : ∃ serve next,
      after 60000000000 0 silentClient = some serve ∧ serve.phase ≠ .dropped ∧
      serve.step 60000000000 .timer = some next ∧ next.phase = .dropped ∧ serve.lastBusy = some 0 := by
    refine ⟨(after 60000000000 0 silentClient).getD (begin 0),
      (after 60000000000 0 (.timer :: silentClient)).getD (begin 0), ?_⟩
    decide
  exact ⟨serve, next, ran, stepped, dropped, last,
    (drop_after_quiet_grace 60000000000 0 silentClient serve next .timer ran (by decide) running stepped dropped).2.2⟩

/-- The request takes 4.9 seconds to end after the call of `shutdown`. -/
def slowRequest : List Event :=
  [.pass 100000000, .finish, .pass 4900000000, .loop, .notified, .loop, .requestClose, .start]

/-- The connection is dropped a tenth of a second after a request was in flight, though no slot was reclaimed. -/
theorem drop_soon_after_request :
    ∃ serve next, after 60000000000 0 slowRequest = some serve ∧ serve.phase ≠ .dropped ∧
      serve.step 60000000000 .timer = some next ∧ next.phase = .dropped ∧ serve.activity.grace = closeGrace ∧
      serve.lastBusy = some 4900000000 ∧ serve.now = 5000000000 ∧
      ¬∀ moment ∈ serve.lastBusy, moment + serve.activity.grace ≤ serve.now := by
  refine ⟨(after 60000000000 0 slowRequest).getD (begin 0),
    (after 60000000000 0 (.timer :: slowRequest)).getD (begin 0), ?_⟩
  decide

end Serve

end Tollgate.Mitm.Idle
