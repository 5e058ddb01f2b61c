import Tollgate.Machine.Runs
import Tollgate.Model.Core.Checked

/-! # One upstream of the DNS over HTTPS client, under concurrent calls

Queries, resets of the connections and marks run at once. Each call is in a phase, and a step is one
atomic operation of one call: an operation on an atomic, a section under the slot's lock, or the end of
an await. What the network, the clock and the scheduler do is the choice that comes with a step. The
number of resets so far tells before from after: a connection keeps the number at which its connect
began. The epoch and the generation are 64 bit counters that no run brings to overflow. `setter` and
`returned` record what happened and are read by no step.
-/

namespace Tollgate.Doh

def maxIdleMs : ℕ := 120 * 1000
def maxSleepMs : ℕ := 1000
def downForSecs : ℕ := 30

/-- A clock that counts while the device sleeps and one that stops. -/
structure Reading where
  totalMs : ℕ
  awakeMs : ℕ
deriving DecidableEq, Repr

namespace Reading

def totalSecs (reading : Reading) : ℕ := reading.totalMs / 1000

def awakeSince (now earlier : Reading) : ℕ := now.awakeMs - earlier.awakeMs

def sleptSince (now earlier : Reading) : ℕ := now.totalMs - earlier.totalMs - (now.awakeMs - earlier.awakeMs)

/-- The later reading, by the first clock and then by the second. -/
def max (left right : Reading) : Reading :=
  if left.totalMs < right.totalMs ∨ (left.totalMs = right.totalMs ∧ left.awakeMs ≤ right.awakeMs) then right else left

end Reading

/-- A connection, with the number of resets when its connect began. -/
structure Connection where
  began : ℕ
deriving DecidableEq, Repr

/-- The shared connection. -/
structure Slot where
  sender : Option Connection
  generation : ℕ
  lastUsed : Reading
deriving DecidableEq, Repr

namespace Slot

/-- The open connection, unless it is closed or was not used for too long. -/
def openSender (slot : Slot) (now : Reading) (closed : Bool) : Option (ℕ × Connection) × Slot :=
  match slot.sender with
  | none => (none, slot)
  | some sender =>
      if closed then (none, slot)
      else if now.sleptSince slot.lastUsed > maxSleepMs ∨ now.awakeSince slot.lastUsed > maxIdleMs then
        (none, { slot with sender := none })
      else (some (slot.generation, sender), slot)

def touch (slot : Slot) (generation : ℕ) (now : Reading) : Slot :=
  if slot.generation = generation then { slot with lastUsed := slot.lastUsed.max now } else slot

def discard (slot : Slot) (generation : ℕ) : Slot :=
  if slot.generation = generation then { slot with sender := none } else slot

/-- The section of `connected_sender`. -/
def store (slot : Slot) (sender : Connection) (now : Reading) : Slot := ⟨some sender, slot.generation + 1, now⟩

/-- The section of `reset_connections`. -/
def reset (slot : Slot) : Slot :=
  if slot.sender.isSome then { slot with sender := none, generation := slot.generation + 1 } else slot

end Slot

/-- A call of `mark_down`: its epoch, the time it would set, and, if it ends an attempt on a connection,
the number of resets when that was taken from the slot or its connect began. -/
structure Mark where
  epoch : ℕ
  stop : ℕ
  taken : Option ℕ
deriving DecidableEq, Repr

def Mark.of (epoch now : ℕ) (taken : Option ℕ) : Mark := ⟨epoch, max (saturatingAdd 64 now downForSecs) 1, taken⟩

/-- A connection an attempt works on, with the number of resets when it got it. -/
structure Taken where
  generation : ℕ
  sender : Connection
  since : ℕ
deriving DecidableEq, Repr

/-- What `unless_reset` knows: whether a reset stops the attempt, whether one came, and the epoch. -/
structure Watch where
  stops : Bool
  notified : Bool
  epoch : ℕ
deriving DecidableEq, Repr

/-- The next operation of `reset_connections`; a reset has the epoch it made as its number. -/
inductive ResetStage where
  | increment
  | clear (number : ℕ)
  | drop (number : ℕ)
  | notify (number : ℕ)
deriving DecidableEq, Repr

/-- The next operation of `mark_down`. -/
inductive MarkStage where
  | check
  | swap
  | recheck
  | undo
deriving DecidableEq, Repr

/-- Where an attempt on a new connection stands; `loaded` is the epoch that `connected_sender` read. -/
inductive ColdStage where
  | lock
  | look
  | load
  | start (loaded : ℕ)
  | connect (loaded : ℕ) (sender : Connection)
  | check (loaded : ℕ) (sender : Connection)
  | store (loaded : ℕ) (sender : Connection)
  | exchange (taken : Taken)
deriving DecidableEq, Repr

namespace ColdStage

/-- Whether the attempt awaits something. -/
def waits : ColdStage → Bool
  | lock | connect .. | exchange _ => true
  | _ => false

/-- The number of resets when the attempt got its connection or began to connect. -/
def taken : ColdStage → Option ℕ
  | connect _ sender | check _ sender | store _ sender => some sender.began
  | exchange taken => some taken.since
  | _ => none

end ColdStage

/-- Where a call stands. -/
inductive Phase where
  | reset (stage : ResetStage)
  | mark (mark : Mark) (stage : MarkStage)
  | markUp
  /-- `query` is about to look for an open connection. -/
  | opening
  /-- `unless_reset` is about to register, for an attempt on the connection or on a new one. -/
  | registering (warm : Option Taken) (stops : Bool)
  /-- `unless_reset` is about to read the epoch. -/
  | loading (warm : Option Taken) (stops notified : Bool)
  | warm (watch : Watch) (taken : Taken)
  | cold (watch : Watch) (stage : ColdStage)
  | touching (generation : ℕ)
  /-- An attempt on an open connection failed: with an epoch it timed out, else it is retried. -/
  | discarding (taken : Taken) (epoch : Option ℕ)
  | done
deriving DecidableEq, Repr

namespace Phase

/-- Whether the call holds the `connecting` lock. -/
def holdsLock : Phase → Bool
  | cold _ .lock | cold _ (.exchange _) => false
  | cold _ _ => true
  | _ => false

/-- The epoch that `connected_sender` read, when it is about to store. -/
def storing : Phase → Option ℕ
  | cold _ (.store loaded _) => some loaded
  | _ => none

/-- The connection of an attempt that is about to read the epoch. -/
def reading : Phase → Option Taken
  | loading (some taken) _ _ => some taken
  | _ => none

/-- `notify_waiters` for one call. -/
def notify : Phase → Phase
  | loading attempt stops _ => loading attempt stops true
  | warm watch taken => warm { watch with notified := true } taken
  | cold watch stage => cold { watch with notified := true } stage
  | phase => phase

end Phase

/-- How a step goes: the next operation at a reading of the clock, or the end of an await. -/
inductive Choice where
  /-- `closed` says whether the slot's connection is closed. -/
  | go (now : Reading) (closed : Bool)
  /-- The upstream answered, or the connect succeeded. -/
  | ready
  | broken (now : Reading)
  | timedOut (now : Reading)
  /-- The reset notification ends the attempt. -/
  | stopped
  /-- The caller drops the query. -/
  | cancelled
deriving DecidableEq, Repr

/-- What the calls share. -/
structure Shared where
  epoch : ℕ
  downUntil : ℕ
  slot : Slot
  /-- The mark that `downUntil` was last set by, unless it was cleared since. -/
  setter : Option Mark
  /-- The numbers of the resets that have returned. -/
  returned : List ℕ
deriving DecidableEq, Repr

namespace Shared

def start : Shared := ⟨0, 0, ⟨none, 0, ⟨0, 0⟩⟩, none, []⟩

def cleared (shared : Shared) : Shared := { shared with downUntil := 0, setter := none }

def stepReset (shared : Shared) : ResetStage → Shared × Phase
  | .increment => ({ shared with epoch := shared.epoch + 1 }, .reset (.clear (shared.epoch + 1)))
  | .clear number => (shared.cleared, .reset (.drop number))
  | .drop number => ({ shared with slot := shared.slot.reset }, .reset (.notify number))
  | .notify number => ({ shared with returned := shared.returned ++ [number] }, .done)

def stepMark (shared : Shared) (mark : Mark) : MarkStage → Shared × Phase
  | .check => (shared, if shared.epoch ≠ mark.epoch then .done else .mark mark .swap)
  | .swap => ({ shared with downUntil := mark.stop, setter := some mark }, .mark mark .recheck)
  | .recheck => (shared, if shared.epoch ≠ mark.epoch then .mark mark .undo else .done)
  | .undo => (if shared.downUntil = mark.stop then shared.cleared else shared, .done)

/-- The next operation of an attempt on a new connection that is not waiting. -/
def stepCold (shared : Shared) (locked : Bool) (watch : Watch) (now : Reading) (closed : Bool) :
    ColdStage → Option (Shared × Phase)
  | .lock => if locked then none else some (shared, .cold watch .look)
  | .look =>
      let (found, slot) := shared.slot.openSender now closed
      let shared := { shared with slot := slot }
      match found with
      | some (generation, sender) => some (shared, .cold watch (.exchange ⟨generation, sender, shared.epoch⟩))
      | none => some (shared, .cold watch .load)
  | .load => some (shared, .cold watch (.start shared.epoch))
  | .start loaded => some (shared, .cold watch (.connect loaded ⟨shared.epoch⟩))
  | .check loaded sender =>
      if shared.epoch ≠ loaded then
        some (shared, .mark (.of watch.epoch now.totalSecs (some sender.began)) .check)
      else some (shared, .cold watch (.store loaded sender))
  | .store _ sender =>
      let slot := shared.slot.store sender now
      some ({ shared with slot := slot }, .cold watch (.exchange ⟨slot.generation, sender, sender.began⟩))
  | .connect .. | .exchange _ => none

/-- The end of an await of an attempt on a new connection: for the lock, the connect or the answer. -/
def endCold (watch : Watch) (stage : ColdStage) : Choice → Option Phase
  | .go .. => none
  | .ready =>
      match stage with
      | .connect loaded sender => some (.cold watch (.check loaded sender))
      | .exchange taken => some (.touching taken.generation)
      | _ => none
  | .broken now =>
      match stage with
      | .connect .. | .exchange _ => some (.mark (.of watch.epoch now.totalSecs stage.taken) .check)
      | _ => none
  | .timedOut now => if stage.waits then some (.mark (.of watch.epoch now.totalSecs stage.taken) .check) else none
  | .stopped => if stage.waits && watch.stops && watch.notified then some (.registering none false) else none
  | .cancelled => if stage.waits then some .done else none

/-- The end of the exchange on an open connection. -/
def endWarm (watch : Watch) (taken : Taken) : Choice → Option Phase
  | .go .. => none
  | .ready => some (.touching taken.generation)
  | .broken _ => some (.discarding taken none)
  | .timedOut _ => some (.discarding taken (some watch.epoch))
  | .stopped => if watch.stops && watch.notified then some (.registering none false) else none
  | .cancelled => some .done

/-- One step of a call, if the choice is possible in its phase. -/
def advance (shared : Shared) (locked : Bool) : Phase → Choice → Option (Shared × Phase)
  | .reset stage, .go _ _ => some (shared.stepReset stage)
  | .mark mark stage, .go _ _ => some (shared.stepMark mark stage)
  | .markUp, .go _ _ => some (shared.cleared, .done)
  | .opening, .go now closed =>
      let (found, slot) := shared.slot.openSender now closed
      some ({ shared with slot := slot },
        .registering (found.map fun sender => ⟨sender.1, sender.2, shared.epoch⟩) true)
  | .registering warm stops, .go _ _ => some (shared, .loading warm stops false)
  | .loading (some taken) stops notified, .go _ _ => some (shared, .warm ⟨stops, notified, shared.epoch⟩ taken)
  | .loading none stops notified, .go _ _ => some (shared, .cold ⟨stops, notified, shared.epoch⟩ .lock)
  | .warm watch taken, choice => (endWarm watch taken choice).map fun phase => (shared, phase)
  | .cold watch stage, .go now closed => shared.stepCold locked watch now closed stage
  | .cold watch stage, choice => (endCold watch stage choice).map fun phase => (shared, phase)
  | .touching generation, .go now _ => some ({ shared with slot := shared.slot.touch generation now }, .markUp)
  | .discarding taken epoch, .go now _ =>
      some ({ shared with slot := shared.slot.discard taken.generation },
        match epoch with
        | some epoch => .mark (.of epoch now.totalSecs (some taken.since)) .check
        | none => .registering none true)
  | _, _ => none

end Shared

structure World where
  shared : Shared
  calls : List Phase
deriving DecidableEq, Repr

inductive Event where
  | reset
  | query
  | markUp
  | markDown (epoch now : ℕ)
  | step (call : ℕ) (choice : Choice)
deriving DecidableEq, Repr

namespace World

def start : World := ⟨.start, []⟩

def begin (world : World) (phase : Phase) : World := { world with calls := world.calls ++ [phase] }

/-- The calls that a step of a call in this phase finds when it ends: only a reset wakes others. -/
def woken (calls : List Phase) : Phase → List Phase
  | .reset (.notify _) => calls.map Phase.notify
  | _ => calls

def step (world : World) : Event → Option World
  | .reset => some (world.begin (.reset .increment))
  | .query => some (world.begin .opening)
  | .markUp => some (world.begin .markUp)
  | .markDown epoch now => some (world.begin (.mark (.of epoch now none) .check))
  | .step call choice => do
      let phase ← world.calls[call]?
      let (shared, next) ← world.shared.advance (world.calls.any Phase.holdsLock) phase choice
      some ⟨shared, (woken world.calls phase).set call next⟩

/-- The world after a history of events, newest first, if they were possible. -/
def after (history : List Event) : Option World := Machine.run step start history

/-- `connected_sender` stores a connection only while the epoch is still the one it read. -/
def StoresCurrent (world : World) : Event → Prop
  | .step call _ => ∀ watch loaded sender, world.calls[call]? = some (.cold watch (.store loaded sender)) →
      world.shared.epoch = loaded
  | _ => True

instance (world : World) : (event : Event) → Decidable (world.StoresCurrent event)
  | .step call _ =>
      decidable_of_iff (∀ phase ∈ world.calls[call]?, ∀ loaded ∈ phase.storing, world.shared.epoch = loaded) <| by
        constructor
        · intro current watch loaded sender found
          exact current _ found loaded rfl
        · intro current phase found loaded storing
          unfold Phase.storing at storing
          split at storing
          · next watch read sender =>
            obtain rfl := Option.some.inj storing
            exact current watch read sender found
          · cases storing
  | .reset | .query | .markUp | .markDown .. => isTrue trivial

/-- An attempt on an open connection reads the epoch before a reset comes after it took the connection. -/
def LoadsCurrent (world : World) : Event → Prop
  | .step call _ => ∀ taken stops notified, world.calls[call]? = some (.loading (some taken) stops notified) →
      world.shared.epoch = taken.since
  | _ => True

instance (world : World) : (event : Event) → Decidable (world.LoadsCurrent event)
  | .step call _ =>
      decidable_of_iff (∀ phase ∈ world.calls[call]?, ∀ taken ∈ phase.reading, world.shared.epoch = taken.since) <| by
        constructor
        · intro current taken stops notified found
          exact current _ found taken rfl
        · intro current phase found taken reading
          unfold Phase.reading at reading
          split at reading
          · next held stops notified =>
            obtain rfl := Option.some.inj reading
            exact current held stops notified found
          · cases reading
  | .reset | .query | .markUp | .markDown .. => isTrue trivial

end World

end Tollgate.Doh
