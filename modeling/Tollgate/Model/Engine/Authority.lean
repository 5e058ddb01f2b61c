import Tollgate.Model.Core.Files

/-! # The files of the certificate authority

`generate_ca` takes a lock of its process, loads the stored pair, and only if there is none generates one and
writes the key, then the certificate. `load_ca` reads the two files one after the other, in any process and
without the lock. Any read or write may fail, the process may be killed and started again, and the power may
be lost. One process at a time generates; whether two texts form an authority is up to the library.
-/

namespace Tollgate.Authority

open Files (Writer)

/-- The texts of an authority. -/
structure Pair where
  cert : Bytes
  key : Bytes
deriving DecidableEq, Repr

/-- Where a call stands. -/
inductive Phase where
  | locking
  | loadingCert
  | loadingKey (cert : Option Bytes)
  | generating
  | writingKey (pair : Pair) (writer : ℕ)
  | writingCert (pair : Pair) (writer : ℕ)
  | returned (pair : Pair) (created : Bool)
  | missing
  /-- Both files are there and form no authority. -/
  | invalid
  | failed
  | killed
deriving DecidableEq, Repr

namespace Phase

/-- A call of `generate_ca` in this phase has the lock. -/
def locked : Phase → Bool
  | loadingCert | loadingKey _ | generating | writingKey _ _ | writingCert _ _ => true
  | locking | returned _ _ | missing | invalid | failed | killed => false

/-- The process is killed. -/
def kill : Phase → Phase
  | returned pair created => returned pair created
  | missing => missing
  | invalid => invalid
  | failed => failed
  | _ => killed

end Phase

/-- A call of `generate_ca`, or of `load_ca` alone. -/
structure Call where
  generates : Bool
  phase : Phase
deriving DecidableEq, Repr

def Call.kill (call : Call) : Call := if call.generates then { call with phase := call.phase.kill } else call

inductive Event where
  | call (generates : Bool)
  | lock (call : ℕ)
  | readCert (call : ℕ) (ok : Bool)
  | readKey (call : ℕ) (ok : Bool)
  /-- A pair is generated, or there is an error. -/
  | generate (call : ℕ) (pair : Option Pair)
  | write (call : ℕ) (choice : Files.Choice)
  | finish (call : ℕ)
  /-- The process is killed, and another one is started. -/
  | kill (pid : ℕ)
  | lose (back : ℕ) (contents : ℕ → Bytes) (pid : ℕ)
  /-- Something else happens in the data directory. -/
  | file (event : Files.Event)

structure World where
  /-- The process that generates. -/
  pid : ℕ
  files : Files.World
  holder : Option ℕ
  calls : List Call

namespace World

def start (pid : ℕ) : World := ⟨pid, .start, none, []⟩

def setPhase (world : World) (index : ℕ) (call : Call) (phase : Phase) : World :=
  { world with calls := world.calls.set index { call with phase := phase } }

/-- The call ends, and gives up the lock if it has it. -/
def leave (world : World) (index : ℕ) (call : Call) (phase : Phase) : World :=
  { world.setPhase index call phase with holder := if call.generates then none else world.holder }

/-- Both files were read. -/
def settle (valid : Bytes → Bytes → Bool) (world : World) (index : ℕ) (call : Call) :
    Option Bytes → Option Bytes → World
  | some cert, some key =>
      if valid cert key then world.leave index call (.returned ⟨cert, key⟩ false) else world.leave index call .invalid
  | none, _ | some _, none =>
      if call.generates then world.setPhase index call .generating else world.leave index call .missing

/-- `write_private` is called. -/
def create (world : World) (index : ℕ) (call : Call) (phase : ℕ → Phase) (file : Files.FileName) (bytes : Bytes) :
    Option World :=
  (world.files.step (.write world.pid file bytes)).map fun files =>
    { world.setPhase index call (phase world.files.writers.length) with files := files }

/-- `write_private` has returned. -/
def written (world : World) (index : ℕ) (call : Call) (writer : ℕ) (go : Option World) : Option World :=
  match world.files.writers[writer]?.map Writer.phase with
  | some (.returned true) => go
  | some (.returned false) => some (world.leave index call .failed)
  | _ => none

/-- One step of a call, if the event is possible in its phase. -/
def advance (valid : Bytes → Bytes → Bool) (world : World) (index : ℕ) (call : Call) : Phase → Event → Option World
  | .locking, .lock _ =>
      if world.holder = none then some { world.setPhase index call .loadingCert with holder := some index } else none
  | .loadingCert, .readCert _ ok =>
      some (if ok then world.setPhase index call (.loadingKey (world.files.read .caCert))
        else world.leave index call .failed)
  | .loadingKey cert, .readKey _ ok =>
      some (if ok then world.settle valid index call cert (world.files.read .caKey)
        else world.leave index call .failed)
  | .generating, .generate _ none => some (world.leave index call .failed)
  | .generating, .generate _ (some pair) => world.create index call (.writingKey pair) .caKey pair.key
  | .writingKey _ writer, .write _ choice | .writingCert _ writer, .write _ choice =>
      (world.files.step (.step writer choice)).map fun files => { world with files := files }
  | .writingKey pair writer, .finish _ =>
      world.written index call writer (world.create index call (.writingCert pair) .caCert pair.cert)
  | .writingCert pair writer, .finish _ =>
      world.written index call writer (some (world.leave index call (.returned pair true)))
  | _, _ => none

/-- What happens in the data directory but for these files, while the process lives. -/
def Foreign (world : World) : Files.Event → Prop
  | .write _ file _ => file ≠ .caCert ∧ file ≠ .caKey
  | .step index _ => ∀ writer ∈ world.files.writers[index]?, writer.file ≠ .caCert ∧ writer.file ≠ .caKey
  | .kill pid => pid ≠ world.pid
  | .lose _ _ => False

instance Foreign.decidable (world : World) : (event : Files.Event) → Decidable (world.Foreign event)
  | .write _ file _ => inferInstanceAs (Decidable (file ≠ .caCert ∧ file ≠ .caKey))
  | .step index _ =>
      inferInstanceAs
        (Decidable (∀ writer ∈ world.files.writers[index]?, writer.file ≠ .caCert ∧ writer.file ≠ .caKey))
  | .kill pid => inferInstanceAs (Decidable (pid ≠ world.pid))
  | .lose _ _ => inferInstanceAs (Decidable False)

/-- One step, if the event is possible. -/
def step (valid : Bytes → Bytes → Bool) (world : World) (event : Event) : Option World :=
  match event with
  | .call generates =>
      some { world with calls := world.calls ++ [⟨generates, if generates then .locking else .loadingCert⟩] }
  | .lock index | .readCert index _ | .readKey index _ | .generate index _ | .write index _ | .finish index =>
      world.calls[index]?.bind fun call => world.advance valid index call call.phase event
  | .kill pid =>
      (world.files.step (.kill world.pid)).map fun files => ⟨pid, files, none, world.calls.map Call.kill⟩
  | .lose back contents pid => (world.files.step (.lose back contents)).map fun files => ⟨pid, files, none, []⟩
  | .file event =>
      if world.Foreign event then (world.files.step event).map fun files => { world with files := files } else none

/-- The world after a history of events, newest first, if they were possible. -/
def after (valid : Bytes → Bytes → Bool) (pid : ℕ) (history : List Event) : Option World :=
  Machine.run (step valid) (start pid) history

end World

/-- The pair that is generated. -/
def Event.pair? : Event → Option Pair
  | .generate _ pair => pair
  | _ => none

end Tollgate.Authority
