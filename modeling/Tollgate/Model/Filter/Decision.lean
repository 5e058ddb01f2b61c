import Tollgate.Model.Filter.DomainRules
import Tollgate.Model.Filter.DomainSet

/-! # What the rules decide

The meaning of a collection of rules, stated on names alone: which names a rule of each kind
applies to, and which names are blocked. Nothing here mentions hashes, files or indexes; names and
rules are lowercase and have no trailing dot. `isDnsName` and `CollisionFree` describe the hosts
that are asked for and what is assumed of the hash.
-/

namespace Tollgate

/-- Whether a rule of a kind applies to a name: to the name or a parent, to the name only, or by
pattern to either. -/
def Kind.Applies (kind : Kind) (rule name : Text) : Prop :=
  match kind with
  | .important | .allow | .block => List.Under '.' rule name
  | .exactAllow | .exactBlock => rule = name
  | .wildcardAllow | .wildcardBlock => ∃ part, List.Under '.' part name ∧ Glob.Matches '*' rule part
  | .exactWildcardAllow | .exactWildcardBlock => Glob.Matches '*' rule name

/-- Blocks that every exception wins over. -/
def Kind.isPlainBlock : Kind → Bool
  | .block | .exactBlock | .wildcardBlock | .exactWildcardBlock => true
  | _ => false

/-- Whether some rule of a kind applies to the name. -/
def RuleApplies (sets : Kind → Finset Text) (kind : Kind) (name : Text) : Prop :=
  ∃ rule ∈ sets kind, kind.Applies rule name

/-- Important blocks win over exceptions, and exceptions over all other blocks. -/
def Blocked (sets : Kind → Finset Text) (name : Text) : Prop :=
  RuleApplies sets .important name ∨
    (¬ ∃ kind : Kind, kind.isException = true ∧ RuleApplies sets kind name) ∧
      ∃ kind : Kind, kind.isPlainBlock = true ∧ RuleApplies sets kind name

/-- A host as DNS asks for it: letters, digits, `-` and `_` in nonempty labels, at most 253 bytes,
with or without a trailing dot. -/
def isDnsName (host : Text) : Bool :=
  host.stripDot.len ≤ 253 &&
    (host.stripDot.splitOn '.').all fun label =>
      !label.isEmpty && label.all fun c => c.isAlphanum || c == '-' || c == '_'

/-- The name that a lookup of a host is about. -/
def lookupName (host : Text) : Text := host.stripDot.toAsciiLowercase

/-- What is hashed into the file: names, and names for one host only behind a tag. -/
def DomainRules.hashed (rules : DomainRules) : List Bytes :=
  (rules.block ++ rules.allow ++ rules.important).map Text.asBytes ++
    (rules.exactBlock ++ rules.exactAllow).map fun name => exactTag ++ name.asBytes

/-- What a lookup of a name hashes: the name and its parents that have a dot, and the tagged name. -/
def probes (name : Text) : List Bytes :=
  ((name :: name.namesAbove).filter fun part => '.' ∈ part).map Text.asBytes ++ [exactTag ++ name.asBytes]

/-- No stored entry shares its hash with something else that the lookup of the name hashes. -/
def CollisionFree (rules : DomainRules) (name : Text) : Prop :=
  ∀ entry ∈ rules.hashed, ∀ probe ∈ probes name, fnv1a64 entry = fnv1a64 probe → entry = probe

instance (rules : DomainRules) (name : Text) : Decidable (CollisionFree rules name) :=
  inferInstanceAs (Decidable (∀ _ ∈ _, ∀ _ ∈ _, _))

end Tollgate
