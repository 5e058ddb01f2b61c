import Mathlib.Data.Nat.Notation
import Tollgate.Machine.Runs

/-! # Closing client connections that are idle

`serve` drives a connection until it ends, shuts it down when it was idle for too long or a close was asked
for, and drops it when that takes too long. Requests begin and end and closes are asked for while `serve`
waits, and time, in nanoseconds, may pass between any two steps. `shutdownAt` and `lastBusy` record when
`shutdown` was called and the last moment at which a request was in flight; no step reads them.
-/

namespace Tollgate.Mitm.Idle

def reclaimGrace : ℕ := 50 * 1000000
def closeGrace : ℕ := 5 * 1000000000

structure Activity where
  inFlight : ℕ
  last : ℕ
  closeRequested : Bool
  reclaim : Bool
  /-- A notification that `serve` has not seen yet. -/
  close : Bool
deriving DecidableEq, Repr

namespace Activity

def new (now : ℕ) : Activity := ⟨0, now, false, false, false⟩

def requestClose (activity : Activity) : Activity := { activity with closeRequested := true, close := true }

def requestReclaim (activity : Activity) : Activity := { activity with reclaim := true }.requestClose

def grace (activity : Activity) : ℕ := if activity.reclaim then reclaimGrace else closeGrace

def busy (activity : Activity) : Bool := activity.inFlight > 0

/-- When the connection becomes idle, unless a request is in flight. -/
def idleAt (activity : Activity) (idle : ℕ) : Option ℕ := if activity.busy then none else some (activity.last + idle)

/-- A request begins. -/
def start (activity : Activity) : Activity := { activity with inFlight := activity.inFlight + 1 }

/-- The guard of a request is dropped. -/
def finish (activity : Activity) (now : ℕ) : Activity :=
  { activity with last := now, inFlight := activity.inFlight - 1 }

end Activity

/-- Where `serve` stands. -/
inductive Phase where
  /-- At the head of its loop. -/
  | looping
  /-- Waits, with its timer set. -/
  | waiting (wake : ℕ)
  /-- The connection ended. -/
  | ended
  /-- It returned `None`: the connection was dropped. -/
  | dropped
deriving DecidableEq, Repr

structure Serve where
  now : ℕ
  activity : Activity
  closing : Bool
  dropAt : ℕ
  phase : Phase
  shutdownAt : Option ℕ
  lastBusy : Option ℕ
deriving DecidableEq, Repr

inductive Event where
  | pass (nanos : ℕ)
  | start
  | finish
  | requestClose
  | requestReclaim
  /-- The head of the loop runs up to the wait. -/
  | loop
  /-- The connection ends. -/
  | connection
  /-- The wait ends with a notification. -/
  | notified
  /-- The wait ends with the timer. -/
  | timer
deriving DecidableEq, Repr

namespace Serve

/-- `serve` is called at a time. -/
def begin (now : ℕ) : Serve := ⟨now, .new now, false, now, .looping, none, none⟩

/-- `shutdown` is called. -/
def shutDown (serve : Serve) : Serve :=
  { serve with
    closing := true
    dropAt := serve.now + serve.activity.grace
    shutdownAt := some serve.now }

/-- The head of the loop: it may call `shutdown`, and sets the timer. -/
def loop (idle : ℕ) (serve : Serve) : Serve :=
  let serve := if !serve.closing && serve.activity.closeRequested then serve.shutDown else serve
  let wake := if serve.closing then serve.dropAt else (serve.activity.idleAt idle).getD (serve.now + idle)
  { serve with phase := .waiting wake }

/-- The branch of a notification. -/
def notified (serve : Serve) : Serve :=
  let dropAt := if serve.closing then min serve.dropAt (serve.now + serve.activity.grace) else serve.dropAt
  { serve with activity := { serve.activity with close := false }, dropAt := dropAt, phase := .looping }

/-- The branch of the timer. -/
def timer (idle : ℕ) (serve : Serve) : Serve :=
  if !serve.closing then
    if (serve.activity.idleAt idle).any fun time => time ≤ serve.now then { serve.shutDown with phase := .looping }
    else { serve with phase := .looping }
  else if serve.activity.busy then { serve with dropAt := serve.now + serve.activity.grace, phase := .looping }
  else { serve with phase := .dropped }

/-- One step, if the event is possible. -/
def step (idle : ℕ) (serve : Serve) : Event → Option Serve
  | .pass nanos =>
      let now := serve.now + nanos
      some { serve with now := now, lastBusy := if serve.activity.busy then some now else serve.lastBusy }
  | .start => some { serve with activity := serve.activity.start, lastBusy := some serve.now }
  | .finish =>
      if serve.activity.busy then
        some { serve with activity := serve.activity.finish serve.now, lastBusy := some serve.now }
      else none
  | .requestClose => some { serve with activity := serve.activity.requestClose }
  | .requestReclaim => some { serve with activity := serve.activity.requestReclaim }
  | .loop => if serve.phase = .looping then some (serve.loop idle) else none
  | .connection =>
      match serve.phase with
      | .waiting _ => some { serve with phase := .ended }
      | _ => none
  | .notified =>
      match serve.phase with
      | .waiting _ => if serve.activity.close then some serve.notified else none
      | _ => none
  | .timer =>
      match serve.phase with
      | .waiting wake => if wake ≤ serve.now then some (serve.timer idle) else none
      | _ => none

/-- The state after a history of events, newest first, if they were possible. -/
def after (idle start : ℕ) (history : List Event) : Option Serve := Machine.run (step idle) (begin start) history

/-- The last request in flight ends while the connection is closing only if the time at which it is dropped is a
full grace period away. While no slot is reclaimed the grace period stays the same, so this asks that the request
ends at the very moment at which that time was set; it may end later only between a reclaim, which shortens the
grace period, and its notification. -/
def EndsInTime (serve : Serve) : Event → Prop
  | .finish => serve.closing = true → serve.activity.inFlight = 1 → serve.now + serve.activity.grace ≤ serve.dropAt
  | _ => True

instance (serve : Serve) : (event : Event) → Decidable (serve.EndsInTime event)
  | .finish => inferInstanceAs (Decidable (_ → _ → _))
  | .pass _ | .start | .requestClose | .requestReclaim | .loop | .connection | .notified | .timer => isTrue trivial

end Serve

end Tollgate.Mitm.Idle
