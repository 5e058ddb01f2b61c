import Tollgate.Model.Core.IpAddr
import Tollgate.Model.Filter.Exempt
import Mathlib.Data.Char
import Mathlib.Data.Finset.Sort
import Mathlib.Data.List.Lex

/-! # Host rules taken from filter lists

Lists in the adblock or the hosts format are read line by line into nine sets of names and
patterns, one for each kind of rule. Cancelled rules and the patterns over the limits leave the
sets at the end, and what remains is written out sorted, names whose parent is in the same set
left out. Log messages are not modelled.
-/

namespace Tollgate

abbrev maxWildcardPatterns : ℕ := 4096
abbrev maxUnkeyedPatterns : ℕ := 64

/-- The kinds of host rule. -/
inductive Kind
  | important
  | allow
  | block
  | exactAllow
  | exactBlock
  | wildcardAllow
  | exactWildcardAllow
  | wildcardBlock
  | exactWildcardBlock
deriving DecidableEq, Repr

namespace Kind

/-- Whether a rule of this kind covers a host that is exempt. -/
def coversExempt (kind : Kind) (name : Text) (exempt : Exemption) : Bool :=
  match kind with
  | important | block => exempt.coversSubtree name
  | exactBlock => exempt.coversHost name
  | wildcardBlock => exempt.coversPattern name true
  | exactWildcardBlock => exempt.coversPattern name false
  | allow | exactAllow | wildcardAllow | exactWildcardAllow => false

def isPattern : Kind → Bool
  | wildcardAllow | exactWildcardAllow | wildcardBlock | exactWildcardBlock => true
  | _ => false

def isException : Kind → Bool
  | allow | exactAllow | wildcardAllow | exactWildcardAllow => true
  | _ => false

end Kind

/-- What a line of an adblock list says. -/
inductive Line
  | comment
  | skip
  | rule (kind : Kind) (name : Text) (badfilter : Bool)
deriving DecidableEq, Repr

def nameLabelOk (label : Text) : Bool :=
  !label.isEmpty && label.len ≤ 63 && label.all fun c => c.isAlphanum || c == '-' || c == '_'

/-- Lowercases a host name and strips one trailing dot; rejects names that DNS never asks for. -/
def normalizeName (name : Text) : Option Text :=
  let name := name.stripDot
  if 253 < name.len ∨ '.' ∉ name then none
  else if !(name.splitOn '.').all nameLabelOk then none
  else if ((name.splitOn '.').getLastD []).all Char.isDigit then none
  else some name.toAsciiLowercase

/-- The name before a caret that ends the host, with or without an end anchor. -/
def stripCaret (text : Text) : Option Text := (text.stripSuffix ['^', '|']).orElse fun _ => text.stripSuffix ['^']

/-- The name of a rule in the wildcard domains format. -/
def wildcardDomain (pattern : Text) : Option Text := do
  let rest ← pattern.stripPrefix ['*', '.']
  let name := (stripCaret rest).getD rest
  if '*' ∈ name then none else some name

/-- Drops each `*` that follows a `*` and lowercases the rest. -/
def mergeStars (glob : Text) : Text :=
  glob.foldl (fun merged c => if c ≠ '*' ∨ merged.getLast? ≠ some '*' then merged ++ [c.toLower] else merged) []

/-- The stored pattern of a rule whose name has a `*`, and whether it also covers parents. -/
def wildcardPattern (pattern : Text) : Option (Bool × Text) :=
  let (parents, start, rest) :=
    match pattern.stripPrefix ['|', '|'] with
    | some rest => (true, [], rest)
    | none =>
        match (pattern.stripPrefix [':', '/', '/']).orElse fun _ => pattern.stripPrefix ['|'] with
        | some rest => (false, [], rest)
        | none => (false, ['*'], pattern)
  let glob := start ++ (stripCaret rest).elim (rest ++ ['*']) Text.stripDot
  let merged := mergeStars glob
  if isValidPattern merged then some (parents, merged) else none

/-- The options of a rule: whether it is important and whether it cancels others. -/
def parseOptions (options : Option Text) : Option (Bool × Bool) :=
  (options.elim [] fun list => list.splitOn ',').foldlM (fun (important, badfilter) option =>
    if Text.trim option = "important".toList then some (true, badfilter)
    else if Text.trim option = "badfilter".toList then some (important, true)
    else none) (false, false)

/-- The host name of a rule without a `*`, and whether the rule is about that host only. -/
def anchoredName (pattern : Text) : Option (Bool × Text) :=
  match pattern.stripPrefix ['|', '|'] with
  | some rest =>
      match stripCaret rest with
      | some name => some (false, name)
      | none => if rest.getLast? = some '.' then none else some (false, rest)
  | none =>
      match pattern.stripPrefix ['.'] with
      | some rest => (rest.stripSuffix ['^']).map fun name => (false, name)
      | none =>
          match pattern.stripPrefix ['|'] with
          | some rest => (stripCaret rest).map fun name => (true, name)
          | none =>
              match pattern.stripPrefix [':', '/', '/'] with
              | some rest => (stripCaret rest).map fun name => (true, name)
              | none =>
                  if pattern.head?.any Char.isAlphanum then (stripCaret pattern).map fun name => (false, name)
                  else none

/-- The kind of a wildcard rule; there are no important ones. -/
def wildcardKind (exception important parents : Bool) : Option Kind :=
  match exception, important, parents with
  | true, _, true => some .wildcardAllow
  | true, _, false => some .exactWildcardAllow
  | false, true, _ => none
  | false, false, true => some .wildcardBlock
  | false, false, false => some .exactWildcardBlock

/-- The kind of a rule without a `*`; there are no important ones for one host only. -/
def nameKind (exception important exact : Bool) : Option Kind :=
  match exception, important, exact with
  | true, _, false => some .allow
  | true, _, true => some .exactAllow
  | false, true, false => some .important
  | false, true, true => none
  | false, false, false => some .block
  | false, false, true => some .exactBlock

/-- The rule that a pattern with its options stands for, or `none` if the line is skipped. -/
def parseRule (exception : Bool) (pattern : Text) (important : Bool) : Option (Kind × Text) :=
  match wildcardDomain pattern with
  | some name => do
      let name ← normalizeName name
      let kind ← nameKind exception important false
      some (kind, name)
  | none =>
      if '*' ∈ pattern then do
        let (parents, glob) ← wildcardPattern pattern
        let kind ← wildcardKind exception important parents
        some (kind, glob)
      else do
        let (exact, name) ← anchoredName pattern
        let name ← normalizeName name
        let kind ← nameKind exception important exact
        some (kind, name)

def parseAdblockLine (line : Text) : Line :=
  let line := line.trim
  if line.isEmpty || line.head? == some '!' || line.head? == some '#' || line.head? == some '[' then .comment
  else
    let (exception, rule) :=
      match line.stripPrefix ['@', '@'] with
      | some rest => (true, rest)
      | none => (false, line)
    let (pattern, options) :=
      match rule.splitOnce '$' with
      | some (pattern, options) => (pattern, some options)
      | none => (rule, none)
    match parseOptions options with
    | none => .skip
    | some (important, badfilter) =>
        match parseRule exception pattern important with
        | none => .skip
        | some (kind, name) => .rule kind name badfilter

/-- What the lists read so far contribute. -/
structure Builder where
  exempt : Option Exemption
  sets : Kind → Finset Text
  badfilter : Finset (Kind × Text)
  patternOrder : List (Kind × Text)
  skipped : ℕ
  exempted : ℕ

namespace Builder

/-- `Builder::default()`. -/
def empty : Builder := ⟨none, fun _ => ∅, ∅, [], 0, 0⟩

/-- Updates the set of one kind. -/
def updateSet (builder : Builder) (kind : Kind) (update : Finset Text → Finset Text) : Builder :=
  { builder with sets := Function.update builder.sets kind (update (builder.sets kind)) }

/-- Whether the list being added exempts a host that the rule covers; counts the rule if so. -/
def exempts (builder : Builder) (kind : Kind) (name : Text) : Bool × Builder :=
  let exempted := builder.exempt.any fun exempt => kind.coversExempt name exempt
  (exempted, { builder with exempted := builder.exempted + exempted.toNat })

def addAdblockLine (builder : Builder) (line : Text) : Builder :=
  match parseAdblockLine line with
  | .comment => builder
  | .skip => { builder with skipped := builder.skipped + 1 }
  | .rule kind name true => { builder with badfilter := insert (kind, name) builder.badfilter }
  | .rule kind name false =>
      match builder.exempts kind name with
      | (true, builder) => builder
      | (false, builder) =>
          let added := builder.updateSet kind (insert name)
          if kind.isPattern && name ∉ builder.sets kind then
            { added with patternOrder := added.patternOrder ++ [(kind, name)] }
          else added

/-- Adds one name of a hosts line; the count is of the names accepted. -/
def addHostsName (state : Builder × ℕ) (name : Text) : Builder × ℕ :=
  if name.eqIgnoreAsciiCase "localhost.localdomain".toList then state
  else
    match normalizeName name with
    | none => state
    | some name =>
        match state.1.exempts .block name with
        | (true, builder) => (builder, state.2 + 1)
        | (false, builder) => (builder.updateSet .block (insert name), state.2 + 1)

/-- Adds the names of a hosts line; a line without a usable name is skipped. -/
def addHostsNames (builder : Builder) (names : List Text) : Builder :=
  let (builder, accepted) := names.foldl addHostsName (builder, 0)
  if accepted = 0 then { builder with skipped := builder.skipped + 1 } else builder

def addHostsLine (builder : Builder) (line : Text) : Builder :=
  let line := Text.trim (line.takeWhile (· != '#'))
  match Text.splitWhitespace line with
  | [] => builder
  | first :: fields =>
      let startsWithAddress := IpAddr.isIpAddr first || first.contains ':'
      builder.addHostsNames (if startsWithAddress then fields else first :: fields)

/-- The counters of `limitPatterns`. -/
structure Limits where
  kept : ℕ
  keptUnkeyed : ℕ
  leftOut : ℕ

/-- Keeps one pattern if there is room for it, or leaves it out. -/
def limitPattern (state : Builder × Limits) (entry : Kind × Text) : Builder × Limits :=
  let (builder, limits) := state
  let (kind, pattern) := entry
  if pattern ∉ builder.sets kind then state
  else
    let unkeyed := isUnkeyed pattern
    if limits.kept < maxWildcardPatterns && (!unkeyed || limits.keptUnkeyed < maxUnkeyedPatterns) then
      (builder, { limits with kept := limits.kept + 1, keptUnkeyed := limits.keptUnkeyed + unkeyed.toNat })
    else (builder.updateSet kind (·.erase pattern), { limits with leftOut := limits.leftOut + 1 })

/-- Leaves out the patterns over the limits, exceptions kept first, and counts them as skipped. -/
def limitPatterns (builder : Builder) : Builder :=
  let exceptions := builder.patternOrder.filter fun entry => entry.1.isException
  let blocks := builder.patternOrder.filter fun entry => !entry.1.isException
  let (limited, limits) := (exceptions ++ blocks).foldl limitPattern ({ builder with patternOrder := [] }, ⟨0, 0, 0⟩)
  { limited with skipped := limited.skipped + limits.leftOut }

/-- Removes the cancelled rules. -/
def cancel (builder : Builder) : Builder :=
  { builder with
    sets := fun kind => (builder.sets kind).filter fun name => (kind, name) ∉ builder.badfilter
    badfilter := ∅ }

/-- The sets as they are written out: cancelled rules gone, patterns limited. -/
def settle (builder : Builder) : Builder := builder.cancel.limitPatterns

end Builder

/-- Host names and patterns taken from filter lists. -/
structure DomainRules where
  important : List Text
  allow : List Text
  block : List Text
  exactAllow : List Text
  exactBlock : List Text
  wildcardAllow : List Text
  exactWildcardAllow : List Text
  wildcardBlock : List Text
  exactWildcardBlock : List Text
  skipped : ℕ
  exempted : ℕ
deriving DecidableEq, Repr

def sorted (names : Finset Text) : List Text := names.sort

/-- Sorted names, leaving out any whose parent is also in the set. -/
def withoutRedundantChildren (names : Finset Text) : List Text :=
  sorted (names.filter fun name => !name.namesAbove.any fun parent => parent ∈ names)

def Builder.finish (builder : Builder) : DomainRules :=
  let settled := builder.settle
  { important := withoutRedundantChildren (settled.sets .important)
    allow := withoutRedundantChildren (settled.sets .allow)
    block := withoutRedundantChildren (settled.sets .block)
    exactAllow := sorted (settled.sets .exactAllow)
    exactBlock := sorted (settled.sets .exactBlock)
    wildcardAllow := sorted (settled.sets .wildcardAllow)
    exactWildcardAllow := sorted (settled.sets .exactWildcardAllow)
    wildcardBlock := sorted (settled.sets .wildcardBlock)
    exactWildcardBlock := sorted (settled.sets .exactWildcardBlock)
    skipped := settled.skipped
    exempted := settled.exempted }

inductive ListFormat
  | adblock
  | hosts
deriving DecidableEq, Repr

/-- One filter list's text. -/
structure ListSource where
  text : Text
  format : ListFormat

/-- A list for the DNS blocklist, and the hosts its blocks must leave alone. -/
structure DnsList where
  source : ListSource
  exempt : Option Exemption

/-- Reads one list. -/
def Builder.addList (builder : Builder) (list : DnsList) : Builder :=
  let text := (list.source.text.stripPrefix ['\uFEFF']).getD list.source.text
  let addLine :=
    match list.source.format with
    | .adblock => Builder.addAdblockLine
    | .hosts => Builder.addHostsLine
  text.lines.foldl addLine { builder with exempt := list.exempt }

namespace DomainRules

/-- What reading all lists leaves in the builder. -/
def collect (lists : List DnsList) : Builder := lists.foldl Builder.addList .empty

/-- Reads the lists, leaving out each list's block rules that cover a host it exempts. -/
def parseExempting (lists : List DnsList) : DomainRules := (collect lists).finish

/-- Lists with no exempt hosts. -/
def parse (lists : List ListSource) : DomainRules :=
  parseExempting (lists.map fun source => ⟨source, none⟩)

end DomainRules

end Tollgate
