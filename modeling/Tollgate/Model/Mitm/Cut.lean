import Mathlib.Data.Nat.Notation
import Mathlib.Logic.Function.Basic
import Tollgate.Machine.Runs

/-! # Cutting a socket

A poll of a `Cuttable` remembers its waker in the slot of its direction, then checks whether the socket was
cut, and only then polls the socket inside. `Cutter::cut` runs at the same time on another task: it marks the
socket as cut, then takes the waker of each slot and wakes it. Each of these is one step. A task that was
woken after its poll began is polled again, whether or not that poll has returned by then. `poll_flush` and
`poll_write_vectored` are polls for writing; `poll_shutdown` does not sleep on a TCP socket and is left out.
-/

namespace Tollgate.Cut

inductive Direction where
  | read
  | write
deriving DecidableEq, Repr

/-- Where the last poll in a direction stands, with the waker of its task. -/
inductive Phase where
  | idle
  | registered (waker : ℕ)
  /-- The socket was not cut when it was checked. -/
  | checked (waker : ℕ)
  /-- The socket inside was not ready, and the poll returned. -/
  | asleep (waker : ℕ)
  | failed
deriving DecidableEq, Repr

def Phase.waker : Phase → Option ℕ
  | registered waker | checked waker | asleep waker => some waker
  | idle | failed => none

/-- Where `Cutter::cut` stands, with the slots it has still to look at. -/
inductive Cutter where
  | before
  | taking (rest : List Direction)
  | waking (waker : ℕ) (rest : List Direction)
deriving DecidableEq, Repr

inductive Event where
  /-- A poll begins and remembers its waker. -/
  | register (direction : Direction) (waker : ℕ)
  | check (direction : Direction)
  /-- The socket inside is polled. -/
  | poll (direction : Direction) (ready : Bool)
  /-- The socket inside is ready, or something else wakes the task. -/
  | notify (waker : ℕ)
  | cut
  | take
  | wake
deriving DecidableEq, Repr

structure World where
  cut : Bool
  slot : Direction → Option ℕ
  phase : Direction → Phase
  /-- The task was woken since its poll began. -/
  notified : Direction → Bool
  cutter : Cutter

namespace World

def start : World := ⟨false, fun _ => none, fun _ => .idle, fun _ => false, .before⟩

def setPhase (world : World) (direction : Direction) (phase : Phase) : World :=
  { world with phase := Function.update world.phase direction phase }

/-- A waker wakes its task in both directions. -/
def wake (world : World) (waker : ℕ) : World :=
  { world with
    notified := fun direction => world.notified direction || (world.phase direction).waker == some waker }

/-- A poll may begin unless one is running. -/
def polling : Phase → Bool
  | .registered _ | .checked _ => true
  | .idle | .asleep _ | .failed => false

/-- One step, if the event is possible. -/
def step (world : World) : Event → Option World
  | .register direction waker =>
      if polling (world.phase direction) then none
      else
        some { world.setPhase direction (.registered waker) with
          slot := if world.slot direction = some waker then world.slot
            else Function.update world.slot direction (some waker)
          notified := Function.update world.notified direction false }
  | .check direction =>
      match world.phase direction with
      | .registered waker => some (world.setPhase direction (if world.cut then .failed else .checked waker))
      | _ => none
  | .poll direction ready =>
      match world.phase direction with
      | .checked waker => some (world.setPhase direction (if ready then .idle else .asleep waker))
      | _ => none
  | .notify waker => some (world.wake waker)
  | .cut =>
      match world.cutter with
      | .before => some { world with cut := true, cutter := .taking [.read, .write] }
      | _ => none
  | .take =>
      match world.cutter with
      | .taking (direction :: rest) =>
          some { world with
            slot := Function.update world.slot direction none
            cutter := match world.slot direction with
              | some waker => .waking waker rest
              | none => .taking rest }
      | _ => none
  | .wake =>
      match world.cutter with
      | .waking waker rest => some { world.wake waker with cutter := .taking rest }
      | _ => none

/-- The world after a history of events, newest first, if they were possible. -/
def after (history : List Event) : Option World := Machine.run step start history

end World

end Tollgate.Cut
