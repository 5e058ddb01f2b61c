import Tollgate.Machine.History
import Tollgate.Model.Doh.Upstream

/-! # The sections under the lock of the shared connection

Every use of the slot is one of five sections, in any order: `open_sender`, the one in which
`connected_sender` installs a new connection, `touch`, `discard` and the one of `reset_connections`. The
ledger runs them on the slot and keeps the books beside it: the connections that were installed, in order,
which of them the slot holds, and every generation that was handed out with a sender. The books are read by
no section; a connection is known by its place among those installed.
-/

namespace Tollgate.Doh

inductive Section where
  | openSender (now : Reading) (closed : Bool)
  | install (sender : Connection) (now : Reading)
  | touch (generation : ℕ) (now : Reading)
  | discard (generation : ℕ)
  | reset
deriving DecidableEq, Repr

structure Installed where
  generation : ℕ
  sender : Connection
deriving DecidableEq, Repr

/-- A generation and a sender that a query got, and the place of the connection among those installed. -/
structure Handed where
  generation : ℕ
  sender : Connection
  place : ℕ
deriving DecidableEq, Repr

structure Ledger where
  slot : Slot
  installed : List Installed
  /-- The place of the connection in the slot. -/
  held : Option ℕ
  handed : List Handed
deriving DecidableEq, Repr

namespace Ledger

def start : Ledger := ⟨Shared.start.slot, [], none, []⟩

/-- The slot after a section that installs nothing: the connection it held is still there, or gone. -/
def keep (ledger : Ledger) (slot : Slot) : Ledger :=
  { ledger with slot := slot, held := if slot.sender.isSome then ledger.held else none }

/-- The connection in the slot is handed out. -/
def give (ledger : Ledger) : Option (ℕ × Connection) → Ledger
  | none => ledger
  | some (generation, sender) =>
      { ledger with handed := ledger.handed ++ (ledger.held.map fun place => ⟨generation, sender, place⟩).toList }

def step (ledger : Ledger) : Section → Ledger
  | .openSender now closed =>
      let (found, slot) := ledger.slot.openSender now closed
      (ledger.keep slot).give found
  | .install sender now =>
      let slot := ledger.slot.store sender now
      let place := ledger.installed.length
      ⟨slot, ledger.installed ++ [⟨slot.generation, sender⟩], some place,
        ledger.handed ++ [⟨slot.generation, sender, place⟩]⟩
  | .touch generation now => ledger.keep (ledger.slot.touch generation now)
  | .discard generation => ledger.keep (ledger.slot.discard generation)
  | .reset => ledger.keep ledger.slot.reset

/-- The ledger after a history of sections, newest first. -/
def after (history : List Section) : Ledger := Machine.after step start history

end Ledger

end Tollgate.Doh
