import Tollgate.Model.Filter.Wildcard
import Mathlib.Data.Finset.Basic
import Mathlib.Data.Finset.Lattice.Basic

/-! # Exempt hosts

Some lists must not block some hosts. An exemption holds the names that are exempt on their own,
the names that are exempt with everything under them, and every name above one of those, and
decides for each kind of block rule whether it would take an exempt host down. Hash sets are
finite sets.
-/

namespace Tollgate

/-- `name.match_indices('.')`, as the name after each dot. -/
def Text.namesAbove (name : Text) : List Text := name.tailsAfter '.'

/-- Hosts that a list's blocks must not cover. -/
structure Exemption where
  domains : Finset Text
  hosts : Finset Text
  ancestors : Finset Text

namespace Exemption

/-- `Exemption::default()`. -/
def empty : Exemption := ⟨∅, ∅, ∅⟩

/-- Adds one name, with its subdomains if `domain` is set. -/
def addName (exemption : Exemption) (domain : Bool) (name : Text) : Exemption :=
  let name := name.stripDot.toAsciiLowercase
  if name.isEmpty then exemption
  else
    let ancestors := exemption.ancestors ∪ name.namesAbove.toFinset
    if domain then { exemption with domains := insert name exemption.domains, ancestors }
    else { exemption with hosts := insert name exemption.hosts, ancestors }

/-- Adds one host pattern: `name`, or `*.name` for the name and its subdomains. -/
def add (exemption : Exemption) (pattern : Text) : Exemption :=
  match pattern.trim.stripPrefix ['*', '.'] with
  | some name => exemption.addName true name
  | none => exemption.addName false pattern.trim

def new (patterns : List Text) : Exemption := patterns.foldl add empty

/-- Whether a lowercase name without a trailing dot is exempt. -/
def coversHost (exemption : Exemption) (name : Text) : Bool :=
  name ∈ exemption.hosts || (name :: name.namesAbove).any fun suffix => suffix ∈ exemption.domains

/-- Whether a host is exempt, ignoring ASCII case and one trailing dot. -/
def covers (exemption : Exemption) (host : Text) : Bool := exemption.coversHost host.stripDot.toAsciiLowercase

/-- Whether a block of a name and its subdomains would block an exempt host. -/
def coversSubtree (exemption : Exemption) (name : Text) : Bool :=
  exemption.coversHost name || name ∈ exemption.ancestors

/-- Whether the glob matches some text that ends in `.name`, decided by its literal tail. -/
def matchesSomeNameUnder (glob name : Bytes) : Bool :=
  let dotted := dotByte :: name
  if starByte ∈ glob then
    let tail := glob.rtakeWhile (· != starByte)
    tail.isSuffixOf dotted || dotted.isSuffixOf tail
  else dotted.isSuffixOf glob

/-- Whether the glob matches a name above the given one, for a pattern that covers parents. -/
def above (glob : Bytes) (parents : Bool) (name : Text) : Bool :=
  parents && name.namesAbove.any fun parent => globMatches glob parent.asBytes

/-- Whether a wildcard block would block an exempt host. -/
def coversPattern (exemption : Exemption) (pattern : Text) (parents : Bool) : Bool :=
  let glob := pattern.asBytes
  decide (∃ name ∈ exemption.domains, globMatches glob name.asBytes ||
    matchesSomeNameUnder glob name.asBytes || above glob parents name) ||
  decide (∃ name ∈ exemption.hosts, globMatches glob name.asBytes || above glob parents name)

end Exemption

end Tollgate
