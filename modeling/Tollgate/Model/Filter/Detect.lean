import Tollgate.Model.Filter.DomainRules

/-! # Telling the format of a list

A list is taken for a hosts file if most of its rule lines have one of the two shapes that the hosts
parser reads: an address and at least one name, or one host name alone. Blank lines, comments and headers
do not count, and equally many lines of both kinds give no verdict.
-/

namespace Tollgate

/-- An address, or an IPv6 address with a zone. -/
def isAddress (field : Text) : Bool :=
  match field.splitOnce '%' with
  | some (address, _) => IpAddr.isIpv6Addr address
  | none => IpAddr.isIpAddr field

def hostLabelOk (label : Text) : Bool :=
  label.len ≤ 63 && label.head?.any Char.isAlphanum && label.all fun c => c.isAlphanum || c == '-' || c == '_'

/-- A host name as a hosts file writes it, with an optional trailing dot. -/
def isHostName (field : Text) : Bool :=
  let name := field.stripDot
  if 253 < name.len then false
  else
    let labels := name.splitOn '.'
    labels.all hostLabelOk && 2 ≤ labels.length && !(labels.getLastD []).all Char.isDigit

/-- Whether a trimmed rule line has one of the two shapes of a hosts file. -/
def isHostsLine (line : Text) : Bool :=
  match line.splitWhitespace with
  | [] => false
  | first :: fields =>
      if isAddress first then fields.head?.any fun field => field.head? != some '#'
      else isHostName first && fields.head?.all fun field => field.head? == some '#'

/-- Blank lines, comments and headers. -/
def leftOut (line : Text) : Bool :=
  line.isEmpty || line.head? == some '!' || line.head? == some '#' || line.head? == some '['

/-- Counts a line as a hosts line or another one. -/
def countLine (counts : ℕ × ℕ) (line : Text) : ℕ × ℕ :=
  let (hosts, other) := counts
  let line := line.trim
  if leftOut line then (hosts, other)
  else if isHostsLine line then (hosts + 1, other)
  else (hosts, other + 1)

/-- The format of most rule lines. -/
def detectFormat (text : Text) : Option ListFormat :=
  let text := (text.stripPrefix ['\uFEFF']).getD text
  let (hosts, other) := text.lines.foldl countLine (0, 0)
  match compare hosts other with
  | .gt => some .hosts
  | .lt => some .adblock
  | .eq => none

example : detectFormat "# lists\n0.0.0.0 ads.example\nads.example # here\n||ads.example^\n".toList = some .hosts := by
  decide

end Tollgate
