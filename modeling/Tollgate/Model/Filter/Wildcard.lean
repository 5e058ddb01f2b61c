import Tollgate.Model.Core.Checked
import Tollgate.Model.Core.Text
import Tollgate.ToMathlib.Glob
import Tollgate.ToMathlib.Separated

/-! # Wildcard host patterns

A stored pattern is lowercase and made of letters, digits, `-`, `_`, `.` and `*`, where `*` stands
for any run of bytes. It must match a whole name: the host, or with `||` a parent of the host as
well. Matching is a greedy scan that remembers only the last `*` it passed.
-/

namespace Tollgate

abbrev starByte : UInt8 := 42
abbrev dotByte : UInt8 := 46

/-- A label of a stored pattern. -/
def patternLabelOk (label : Text) : Bool :=
  !label.isEmpty && label.len ≤ 63 &&
    label.all fun c => c.isLower || c.isDigit || c == '-' || c == '_' || c == '*'

/-- Whether a pattern has the stored form. -/
def isValidPattern (pattern : Text) : Bool :=
  pattern.len ≤ 253 && pattern.contains '.' && !pattern.all (fun c => c == '*' || c == '.') &&
    (pattern.splitOn '.').all patternLabelOk &&
    !((pattern.splitOn '.').getLast?.any fun last => last.all Char.isDigit)

/-- Whether a stored pattern starts and ends with `*`, so that every lookup tries it. -/
def isUnkeyed (pattern : Text) : Bool := pattern.head? == some '*' && pattern.getLast? == some '*'

/-- Rounds of the scan: `g` and `t` are positions in the glob and the text, and `star` is the last
`*` seen with the text position it currently stands in for. The result is also `none` out of fuel. -/
def globLoop [Width] (glob text : Bytes) : ℕ → ℕ → ℕ → Option (ℕ × ℕ) → Option Bool
  | 0, _, _, _ => none
  | fuel + 1, g, t, star =>
      if t < text.length then
        if glob[g]? = some starByte then do
          let next ← Width.add g 1
          globLoop glob text fuel next t (some (g, t))
        else do
          let byte ← text[t]?
          if glob[g]? = some (lowerByte byte) then
            let nextG ← Width.add g 1
            let nextT ← Width.add t 1
            globLoop glob text fuel nextG nextT star
          else
            match star with
            | some (starG, starT) => do
                let nextG ← Width.add starG 1
                let nextT ← Width.add starT 1
                globLoop glob text fuel nextG nextT (some (starG, nextT))
            | none => some false
      else (slice glob g glob.length).map fun rest => rest.all (· == starByte)

/-- Fuel that `globLoop` never exhausts. -/
def globFuel (glob text : Bytes) : ℕ := (text.length + 2) * (glob.length + 1)

/-- `glob_matches`. -/
def globScan [Width] (glob text : Bytes) : Option Bool := globLoop glob text (globFuel glob text) 0 0 none

/-- Whether the text matches the glob, letters of the text in either case. -/
def globMatches (glob text : Bytes) : Bool := (globScan glob text).getD false

/-- The name after each dot of a host: its parents, and the last label alone. -/
def parents [Width] (host : Bytes) : Option (List Bytes) :=
  (host.zipIdx.filter fun place => place.1 == dotByte).mapM fun place => do
    let after ← Width.add place.2 1
    slice host after host.length

/-- A wildcard pattern in the stored form; `parents` is set for `||` patterns. -/
structure Pattern where
  glob : Bytes
  parents : Bool
  stored : ∃ pattern : Text, isValidPattern pattern = true ∧ glob = pattern.asBytes

namespace Pattern

/-- Reads one line of a pattern section: `||pattern` or `|pattern`. -/
def parse (line : Text) : Option Pattern := do
  let (parents, glob) ←
    match line.stripPrefix ['|', '|'] with
    | some glob => some (true, glob)
    | none => (line.stripPrefix ['|']).map fun glob => (false, glob)
  if valid : isValidPattern glob = true then some ⟨glob.asBytes, parents, glob, valid, rfl⟩ else none

/-- `Pattern::matches`. The parents are all cut out before one is tried. -/
def scan [Width] (pattern : Pattern) (host : Bytes) : Option Bool :=
  orElse (globScan pattern.glob host) <|
    if pattern.parents then do
      let names ← Tollgate.parents host
      names.anyM (globScan pattern.glob)
    else some false

/-- Whether the pattern matches the host or, for `||` patterns, one of its parents. -/
def matchesHost (pattern : Pattern) (host : Bytes) : Bool := (pattern.scan host).getD false

/-- The text before the first `*`. -/
def head (pattern : Pattern) : Bytes := pattern.glob.takeWhile (· != starByte)

/-- The text after the last `*`. -/
def tail (pattern : Pattern) : Bytes := pattern.glob.rtakeWhile (· != starByte)

end Pattern

end Tollgate
