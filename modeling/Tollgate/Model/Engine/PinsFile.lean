import Tollgate.Model.Core.Files

/-! # Saving the learned pins

`PinsFile::save` takes the lock of the pins saved last, then the text of the pins, and writes it if it changed
or if it must. Saves come from the task that saves periodically, on the blocking pool, from `forget_pins` and
from `stop`, so several run at once, while the policy learns and forgets pins. A version of the pins is a
position in the list of the texts they had. While the engine runs its process lives and it owns the file.
-/

namespace Tollgate.PinsFile

open Files (Writer)

/-- Where a save stands. -/
inductive Phase where
  | locking
  | reading
  /-- The text of a version is being written, by a writer of the data directory. -/
  | writing (version writer : ℕ)
  | unchanged
  | wrote
  | failed
deriving DecidableEq, Repr

/-- The save has the lock. -/
def Phase.locked : Phase → Bool
  | reading | writing _ _ => true
  | locking | unchanged | wrote | failed => false

/-- The file holds what the pins were, or newer ones. -/
def Phase.stored : Phase → Bool
  | wrote | unchanged => true
  | locking | reading | writing _ _ | failed => false

/-- A save, with the version of the pins when it was called. -/
structure Save where
  always : Bool
  asked : ℕ
  phase : Phase
deriving DecidableEq, Repr

inductive Event where
  /-- The policy learns or forgets a pin. -/
  | change (json : Bytes)
  | save (always : Bool)
  | lock (save : ℕ)
  | read (save : ℕ)
  | write (save : ℕ) (choice : Files.Choice)
  | finish (save : ℕ)
  /-- Something else happens in the data directory. -/
  | file (event : Files.Event)

structure World where
  /-- The process of the engine. -/
  pid : ℕ
  files : Files.World
  /-- The texts that the pins had, the oldest one first. -/
  past : List Bytes
  json : Bytes
  saved : Bytes
  holder : Option ℕ
  saves : List Save
  /-- The version in the file, if the engine has written it. -/
  stored : Option ℕ

namespace World

/-- The texts of all versions. -/
def versions (world : World) : List Bytes := world.past ++ [world.json]

/-- The version that the pins have. -/
def version (world : World) : ℕ := world.past.length

/-- `PinsFile::new`. -/
def new (pid : ℕ) (files : Files.World) (json : Bytes) : World := ⟨pid, files, [], json, json, none, [], none⟩

def setSave (world : World) (index : ℕ) (save : Save) (phase : Phase) : World :=
  { world with saves := world.saves.set index { save with phase := phase } }

/-- The text is taken under the lock, and written if it has to be. -/
def read (world : World) (index : ℕ) (save : Save) : Option World :=
  if save.always || world.json != world.saved then
    (world.files.step (.write world.pid .learnedPins world.json)).map fun files =>
      { world.setSave index save (.writing world.version world.files.writers.length) with files := files }
  else
    some { world.setSave index save .unchanged with holder := none, stored := world.stored.map fun _ => world.version }

/-- The writer of a save takes a step. -/
def write (world : World) (version writer : ℕ) (choice : Files.Choice) : Option World :=
  (world.files.step (.step writer choice)).map fun files =>
    { world with
      files := files
      stored := if files.writers[writer]?.map Writer.phase = some (.returned true) then some version else world.stored }

/-- The writer has returned, and the lock is released. -/
def finish (world : World) (index : ℕ) (save : Save) (writer : Writer) : Option World :=
  match writer.phase with
  | .returned true => some { world.setSave index save .wrote with saved := writer.bytes, holder := none }
  | .returned false => some { world.setSave index save .failed with holder := none }
  | _ => none

/-- The engine owns the file of the pins, and its process lives. -/
def Foreign (world : World) : Files.Event → Prop
  | .write _ file _ => file ≠ .learnedPins
  | .step index _ => ∀ writer ∈ world.files.writers[index]?, writer.file ≠ .learnedPins
  | .kill pid => pid ≠ world.pid
  | .lose _ _ => False

instance Foreign.decidable (world : World) : (event : Files.Event) → Decidable (world.Foreign event)
  | .write _ file _ => inferInstanceAs (Decidable (file ≠ .learnedPins))
  | .step index _ => inferInstanceAs (Decidable (∀ writer ∈ world.files.writers[index]?, writer.file ≠ .learnedPins))
  | .kill pid => inferInstanceAs (Decidable (pid ≠ world.pid))
  | .lose _ _ => inferInstanceAs (Decidable False)

/-- One step, if the event is possible. -/
def step (world : World) : Event → Option World
  | .change json => some { world with past := world.past ++ [world.json], json := json }
  | .save always => some { world with saves := world.saves ++ [⟨always, world.version, .locking⟩] }
  | .lock index =>
      world.saves[index]?.bind fun save =>
        if save.phase = .locking ∧ world.holder = none then
          some { world.setSave index save .reading with holder := some index }
        else none
  | .read index =>
      world.saves[index]?.bind fun save => if save.phase = .reading then world.read index save else none
  | .write index choice =>
      world.saves[index]?.bind fun save =>
        match save.phase with
        | .writing version writer => world.write version writer choice
        | _ => none
  | .finish index =>
      world.saves[index]?.bind fun save =>
        match save.phase with
        | .writing _ writer => world.files.writers[writer]?.bind fun writer => world.finish index save writer
        | _ => none
  | .file event =>
      if world.Foreign event then (world.files.step event).map fun files => { world with files := files } else none

/-- The world after a history of events, newest first, if they were possible. -/
def after (pid : ℕ) (files : Files.World) (json : Bytes) (history : List Event) : Option World :=
  Machine.run step (new pid files json) history

end World

end Tollgate.PinsFile
