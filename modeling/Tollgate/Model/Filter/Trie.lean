import Tollgate.Model.Core.Checked
import Tollgate.Model.Core.Text
import Tollgate.ToMathlib.BinarySearch

/-! # Byte strings as a level-order array trie

Each string is filed with a pattern id. The strings are sorted, so the strings under a node are a
run of them, those that end there first, and its children follow in byte order. Nodes are numbered
level by level from a queue of runs, which gives the children of a node consecutive numbers. A run
is modelled by the entries it ranges over.
-/

namespace Tollgate

/-- A byte string with the pattern id filed under it. -/
abbrev Entry := Bytes × ℕ

/-- The order of `(Vec<u8>, u32)`. -/
def entryLe (a b : Entry) : Prop := a.1 < b.1 ∨ (a.1 = b.1 ∧ a.2 ≤ b.2)

instance : DecidableRel entryLe := fun _ _ => inferInstanceAs (Decidable (_ ∨ _))

/-- Per-node arrays: a node's children lie between consecutive `edgeStart` entries and the ids
filed under the string that ends there between consecutive `idStart` entries. -/
structure Trie where
  root : List ℕ
  edgeStart : List ℕ
  edgeBytes : Bytes
  edgeNodes : List ℕ
  idStart : List ℕ
  ids : List ℕ
deriving DecidableEq, Repr

namespace Trie

/-- `Trie::default()`. -/
def empty : Trie := ⟨[], [], [], [], [], []⟩

/-- A node that is numbered but not written yet: its run of entries and the length of its path. -/
abbrev Node := List Entry × ℕ

/-- The entries of a run whose string ends at its node come first. -/
def ownRun (node : Node) : List Entry := node.1.takeWhile (fun entry => entry.1.length == node.2)

def restRun (node : Node) : List Entry := node.1.dropWhile (fun entry => entry.1.length == node.2)

/-- Cuts a run into the runs of entries with equal bytes at `depth`, in order. -/
def childRuns (depth : ℕ) : List Entry → Option (List (UInt8 × List Entry))
  | [] => some []
  | entry :: rest => do
      let byte ← entry.1[depth]?
      let groups ← childRuns depth rest
      match groups with
      | [] => some [(byte, [entry])]
      | (first, run) :: more =>
          if first = byte then some ((first, entry :: run) :: more)
          else some ((byte, [entry]) :: (first, run) :: more)

/-- Fills the table of the root's children. -/
def setRoot (table : List ℕ) (children : List (UInt8 × ℕ)) : List ℕ :=
  children.foldl (fun table child => table.set child.1.toNat child.2) table

/-- Writes the nodes of the queue in order, numbering their children at its end. The depth of the
children is computed once for a node. -/
def build [Width] : ℕ → Bool → List Node → ℕ → Trie → Option Trie
  | _, _, [], _, trie => some trie
  | 0, _, _ :: _, _, _ => none
  | fuel + 1, root, node :: pending, numbered, trie => do
      let edgeStart ← expectU32 trie.edgeBytes.length
      let idStart ← expectU32 trie.ids.length
      let children ← childRuns node.2 (restRun node)
      let numbers ← (List.range' numbered children.length).mapM expectU32
      let depth ← Width.add node.2 1
      let numbered ← Width.add numbered children.length
      build fuel false (pending ++ children.map fun child => (child.2, depth)) numbered
        { root := if root then setRoot trie.root ((children.map Prod.fst).zip numbers) else trie.root
          edgeStart := trie.edgeStart ++ [edgeStart]
          edgeBytes := trie.edgeBytes ++ children.map Prod.fst
          edgeNodes := trie.edgeNodes ++ numbers
          idStart := trie.idStart ++ [idStart]
          ids := trie.ids ++ (ownRun node).map Prod.snd }

/-- Files each pattern id under its string. -/
def new [Width] (entries : List Entry) : Option Trie :=
  if entries.isEmpty then some empty
  else do
    let sorted := entries.insertionSort entryLe
    let edges ← (sorted.map fun entry => entry.1.length).foldlM Width.add 0
    let _ ← Width.add edges 2
    let trie ← build (edges + 1) true [(sorted, 0)] 1 ⟨List.replicate 256 0, [], [], [], [], []⟩
    let edgeEnd ← expectU32 trie.edgeBytes.length
    let idEnd ← expectU32 trie.ids.length
    some { trie with edgeStart := trie.edgeStart ++ [edgeEnd], idStart := trie.idStart ++ [idEnd] }

def isEmpty (trie : Trie) : Bool := trie.root.isEmpty

section Calls

variable [Width] {m : Type → Type} [Monad m] [MonadLiftT Option m]

/-- The walk from a node along the text. The closure may panic or keep a state of its own. -/
def walk (trie : Trie) (f : ℕ → m Bool) : Bytes → ℕ → m Bool
  | text, node => do
      let after ← Width.add node 1
      let first ← trie.idStart[node]?
      let last ← trie.idStart[after]?
      let ids ← slice trie.ids first last
      let found ← ids.anyM f
      if found then return true
      else
        match text with
        | [] => return false
        | byte :: rest => do
            let start ← trie.edgeStart[node]?
            let stop ← trie.edgeStart[after]?
            let edges ← slice trie.edgeBytes start stop
            match edges.binarySearchBy (fun edge => compare edge.toNat byte.toNat) with
            | none => return false
            | some i => do
                let place ← Width.add start i
                let child ← trie.edgeNodes[place]?
                walk trie f rest child

/-- Calls `f` with the ids filed under each string that starts the text, shortest string first,
until it returns true. -/
def any (trie : Trie) (text : Bytes) (f : ℕ → m Bool) : m Bool :=
  match text with
  | [] => pure false
  | first :: rest =>
      match trie.root[first.toNat]? with
      | none => pure false
      | some child => if child = 0 then pure false else walk trie f rest child

end Calls

end Trie

end Tollgate
