import Tollgate.Model.Filter.Trie
import Tollgate.Model.Filter.Wildcard

/-! # The wildcard index

Patterns of one kind are filed under the longer of the text before their first `*` and the text
after their last one. Tails are looked up once, reversed, along the reversed host, heads once per
label start, and the patterns with neither are always tried.
-/

namespace Tollgate

/-- Wildcard patterns filed for lookup; ids are positions in `patterns`. -/
structure PatternSet where
  patterns : List Pattern
  heads : Trie
  tails : Trie
  unkeyed : List ℕ

namespace PatternSet

/-- `PatternSet::default()`. -/
def empty : PatternSet := ⟨[], .empty, .empty, []⟩

/-- The strings collected for the two tries. -/
structure Filed where
  heads : List Entry
  tails : List Entry
  unkeyed : List ℕ

/-- Files one pattern; a tail wins a tie. -/
def file (filed : Filed) (numbered : Pattern × ℕ) : Option Filed := do
  let id ← expectU32 numbered.2
  let head := numbered.1.head
  let tail := numbered.1.tail
  if !tail.isEmpty && head.length ≤ tail.length then
    some { filed with tails := filed.tails ++ [(tail.reverse, id)] }
  else if !head.isEmpty then some { filed with heads := filed.heads ++ [(head, id)] }
  else some { filed with unkeyed := filed.unkeyed ++ [id] }

def new [Width] (patterns : List Pattern) : Option PatternSet := do
  let filed ← patterns.zipIdx.foldlM file ⟨[], [], []⟩
  let heads ← Trie.new filed.heads
  let tails ← Trie.new filed.tails
  some ⟨patterns, heads, tails, filed.unkeyed⟩

section Lookup

variable [Width]

/-- Tries one pattern on the host and, for `||` patterns, its parents. -/
def tryPattern (set : PatternSet) (host : Bytes) (id : ℕ) : Option Bool := do
  let pattern ← set.patterns[id]?
  pattern.scan host

/-- Tries one pattern on the name at `start` alone. -/
def tryHead (set : PatternSet) (name : Bytes) (start id : ℕ) : Option Bool := do
  let pattern ← set.patterns[id]?
  if start == 0 || pattern.parents then globScan pattern.glob name else some false

/-- Where the host and each of its parents start. -/
def labelStarts (host : Bytes) : Option (List ℕ) := do
  let names ← parents host
  let starts ← names.mapM fun name => Width.sub host.length name.length
  some (0 :: starts)

/-- The head lookup of the name at `start`. -/
def headMatchesAt (set : PatternSet) (host : Bytes) (start : ℕ) : Option Bool := do
  let name ← slice host start host.length
  set.heads.any (name.map lowerByte) (set.tryHead name start)

/-- The head lookups: the host and, for `||` patterns, the name after each of its dots. -/
def headMatches (set : PatternSet) (host : Bytes) : Option Bool :=
  if set.heads.isEmpty then some false
  else do
    let starts ← labelStarts host
    starts.anyM (set.headMatchesAt host)

/-- Whether a pattern matches the host or, for `||` patterns, one of its parents. -/
def matchesHost (set : PatternSet) (host : Bytes) : Option Bool := do
  let tailFound ← set.tails.any (host.reverse.map lowerByte) (set.tryPattern host)
  if tailFound then some true
  else
    let headFound ← set.headMatches host
    if headFound then some true else set.unkeyed.anyM (set.tryPattern host)

end Lookup

end PatternSet

end Tollgate
