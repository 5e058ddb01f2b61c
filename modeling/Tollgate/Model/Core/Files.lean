import Tollgate.Machine.Disk
import Tollgate.Machine.Simulation
import Tollgate.Model.Core.Text

/-! # Writing files whole

`write_private` and `write_atomically` write to a temporary file, sync it and rename it into place, and
remove it if something fails. Both number the temporary files of a process, with 64 bit counters that no run
brings to overflow; the first removes a leftover of the same name, the second takes the next number. Writers of
several processes run at once, one system call a step, any call may fail, and writing may stop anywhere in the
bytes. A process may be killed, and its id may be used again, and the power may be lost. `Store` is what the data
directory is for: its files change whole, and a power loss brings back what they were at some moment.
-/

namespace Tollgate.Files

open Machine

/-- The files in the data directory. -/
inductive FileName where
  | engine
  | domains
  | caCert
  | caKey
  | learnedPins
deriving DecidableEq, Repr

/-- Who writes a file: `write_atomically` of the filter, or `write_private`. -/
inductive Crate where
  | filter
  | ffi
deriving DecidableEq, Repr

def FileName.crate : FileName → Crate
  | engine | domains => .filter
  | caCert | caKey | learnedPins => .ffi

/-- A name in the data directory. -/
inductive Name where
  | file (name : FileName)
  | temp (name : FileName) (pid number : ℕ)
deriving DecidableEq, Repr

/-- Where a writer stands, with the number of its temporary file and the file it has open. -/
inductive Phase where
  | naming
  /-- About to remove a leftover. -/
  | clearing (number : ℕ)
  | opening (number : ℕ)
  | writing (number inode : ℕ) (rest : Bytes)
  | syncing (number inode : ℕ)
  | replacing (number inode : ℕ)
  /-- Something failed, and the temporary file is to be removed. -/
  | cleaning (number : ℕ)
  | returned (ok : Bool)
  | killed
deriving DecidableEq, Repr

namespace Phase

def number : Phase → Option ℕ
  | clearing number | opening number | writing number _ _ | syncing number _ | replacing number _ | cleaning number =>
      some number
  | naming | returned _ | killed => none

/-- The file that the writer has created and not yet put into place. -/
def inode : Phase → Option ℕ
  | writing _ inode _ | syncing _ inode | replacing _ inode => some inode
  | naming | clearing _ | opening _ | cleaning _ | returned _ | killed => none

/-- The process is killed. -/
def kill : Phase → Phase
  | returned ok => returned ok
  | _ => killed

end Phase

structure Writer where
  pid : ℕ
  file : FileName
  bytes : Bytes
  phase : Phase
deriving DecidableEq, Repr

/-- The name of a writer's temporary file. -/
def Writer.temp (writer : Writer) (number : ℕ) : Name := .temp writer.file writer.pid number

def Writer.kill (writer : Writer) : Writer := { writer with phase := writer.phase.kill }

inductive Choice where
  | go
  /-- Some bytes are written. -/
  | wrote (count : ℕ)
  | failed
deriving DecidableEq, Repr

inductive Event where
  /-- A file is to be written. -/
  | write (pid : ℕ) (file : FileName) (bytes : Bytes)
  | step (writer : ℕ) (choice : Choice)
  | kill (pid : ℕ)
  | lose (back : ℕ) (contents : ℕ → Bytes)

/-- The power is not lost. -/
def Event.keepsPower : Event → Prop
  | .lose _ _ => False
  | .write _ _ _ | .step _ _ | .kill _ => True

structure World where
  disk : Disk Name UInt8
  /-- The next number of a temporary file, for each process and each counter. -/
  counter : ℕ → Crate → ℕ
  writers : List Writer

namespace World

def start : World := ⟨.empty, fun _ _ => 0, []⟩

/-- A writer goes on with the disk it leaves. -/
def move (world : World) (index : ℕ) (writer : Writer) (disk : Disk Name UInt8) (phase : Phase) : World :=
  { world with disk := disk, writers := world.writers.set index { writer with phase := phase } }

/-- The next number. -/
def take (world : World) (index : ℕ) (writer : Writer) : World :=
  let number := world.counter writer.pid writer.file.crate
  let phase : Phase := match writer.file.crate with
    | .ffi => .clearing number
    | .filter => .opening number
  { world.move index writer world.disk phase with
    counter := Function.update world.counter writer.pid
      (Function.update (world.counter writer.pid) writer.file.crate (number + 1)) }

/-- Creating the temporary file fails if there is one. -/
def create (world : World) (index : ℕ) (writer : Writer) (number : ℕ) : World :=
  match world.disk.createNew (writer.temp number) with
  | some (disk, inode) => world.move index writer disk (.writing number inode writer.bytes)
  | none =>
      world.move index writer world.disk <|
        match writer.file.crate with
        | .filter => .naming
        | .ffi => .cleaning number

/-- Another error of creating it. -/
def createFailed (world : World) (index : ℕ) (writer : Writer) (number : ℕ) : World :=
  world.move index writer world.disk <|
    match writer.file.crate with
    | .filter => .returned false
    | .ffi => .cleaning number

/-- One step of a writer, if the choice is possible in its phase. -/
def advance (world : World) (index : ℕ) (writer : Writer) : Phase → Choice → Option World
  | .naming, .go => some (world.take index writer)
  | .clearing number, .go => some (world.move index writer (world.disk.remove (writer.temp number)) (.opening number))
  -- An error of removing a file is ignored.
  | .clearing number, .failed => some (world.move index writer world.disk (.opening number))
  | .opening number, .go => some (world.create index writer number)
  | .opening number, .failed => some (world.createFailed index writer number)
  | .writing number inode rest, .wrote count =>
      some (world.move index writer (world.disk.append inode (rest.take count)) (.writing number inode (rest.drop count)))
  | .writing number inode [], .go => some (world.move index writer world.disk (.syncing number inode))
  | .syncing number inode, .go => some (world.move index writer (world.disk.sync inode) (.replacing number inode))
  | .replacing number _, .go =>
      match world.disk.rename (writer.temp number) (.file writer.file) with
      | some disk => some (world.move index writer disk (.returned true))
      | none => some (world.move index writer world.disk (.cleaning number))
  | .writing number _ _, .failed | .syncing number _, .failed | .replacing number _, .failed =>
      some (world.move index writer world.disk (.cleaning number))
  | .cleaning number, .go =>
      some (world.move index writer (world.disk.remove (writer.temp number)) (.returned false))
  | .cleaning _, .failed => some (world.move index writer world.disk (.returned false))
  | _, _ => none

/-- One step, if the event is possible. -/
def step (world : World) : Event → Option World
  | .write pid file bytes => some { world with writers := world.writers ++ [⟨pid, file, bytes, .naming⟩] }
  | .step index choice => world.writers[index]?.bind fun writer => world.advance index writer writer.phase choice
  | .kill pid =>
      some { world with
        counter := Function.update world.counter pid fun _ => 0
        writers := world.writers.map fun writer => if writer.pid = pid then writer.kill else writer }
  | .lose back contents =>
      some ⟨world.disk.lose back contents, fun _ _ => 0, world.writers.map Writer.kill⟩

/-- The world after a history of events, newest first, if they were possible. -/
def after (history : List Event) : Option World := Machine.run step start history

/-- The bytes of a file in the data directory, for a reader. -/
def read (world : World) (file : FileName) : Option Bytes := world.disk.read (.file file)

end World

/-- What the files hold. -/
abbrev Contents : Type := FileName → Option Bytes

/-- What the files hold, and what they may hold after a power loss. -/
@[ext]
structure Store where
  now : Contents
  possible : Set Contents

namespace Store

def empty : Store := ⟨fun _ => none, {fun _ => none}⟩

inductive Label where
  | stay
  | put (file : FileName) (bytes : Bytes)
  | lose
deriving DecidableEq, Repr

/-- The steps of the store. -/
inductive Moves (store : Store) : Label → Store → Prop where
  | stay : Moves store .stay store
  | put (file : FileName) (bytes : Bytes) :
      Moves store (.put file bytes)
        ⟨Function.update store.now file (some bytes),
          insert (Function.update store.now file (some bytes)) store.possible⟩
  | lose (contents : Contents) (possible : contents ∈ store.possible) : Moves store .lose ⟨contents, {contents}⟩

end Store

/-- What a step is to the store, by where it leaves its writer: a write that returns without an error puts its bytes. -/
def Writer.label (writer : Writer) : Store.Label :=
  if writer.phase = .returned true then .put writer.file writer.bytes else .stay

namespace World

/-- What an event is to the store. -/
def label : Event → World → Store.Label
  | .step index _, next => (next.writers[index]?.map Writer.label).getD .stay
  | .lose _ _, _ => .lose
  | .write _ _ _, _ | .kill _, _ => .stay

def labels (history : List Event) : List Store.Label := Machine.labels step start label history

/-- What a directory holds. -/
def contents (world : World) (directory : AList fun _ : Name => ℕ) : Contents := fun file =>
  (directory.lookup (.file file)).bind fun inode => world.disk.inodes[inode]?.map Inode.content

/-- The store that the data directory is. -/
def store (world : World) : Store where
  now := world.read
  possible := {contents | ∃ directory ∈ world.disk.directories, contents = world.contents directory}

end World

end Tollgate.Files
