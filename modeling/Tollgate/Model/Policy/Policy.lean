import Mathlib.Data.Char
import Mathlib.Data.List.Lex
import Mathlib.Data.List.Sort
import Tollgate.Model.Policy.HostPattern
import Tollgate.Model.Policy.PinBook
import Tollgate.ToMathlib.Separated

/-! # The policy of a session

A policy is made from the configuration and the pins that an earlier session saved. Its patterns are
kept in hash sets and looked up by a host's key and its parents. The saved pins are a JSON file whose
printer and parser are a library's; a file that cannot be read is ignored. The bundled patterns are
constant data and a parameter here.
-/

namespace Tollgate

inductive PolicyError where
  | invalidPattern (pattern : Text) (reason : String)
deriving DecidableEq, Repr

/-- Checks one label of a host name. -/
def validateLabel (label : Text) : Except String Unit :=
  if label.isEmpty then .error "empty label"
  else if 63 < label.len then .error "label longer than 63 bytes"
  else if !label.all fun c => c.isAlphanum || c == '-' || c == '_' then
    .error "only letters, digits, '-', '_' and '.' are allowed"
  else .ok ()

/-- Checks a host name (no trailing dot) and returns it lowercased. -/
def validateName (name : Text) : Except String Text :=
  if 253 < name.len then .error "host name longer than 253 bytes"
  else do
    (name.splitOn '.').forM validateLabel
    .ok name.toAsciiLowercase

namespace HostPattern

/-- Whether a pattern starts with `*.`, and what is left of it. -/
def splitWildcard (trimmed : Text) : Bool × Text :=
  match Text.stripPrefix trimmed ['*', '.'] with
  | some rest => (true, rest)
  | none => (false, trimmed)

def parse (s : Text) : Except PolicyError HostPattern :=
  let (wildcard, rest) := splitWildcard (Text.trim s)
  let rest := Text.stripDot rest
  if rest.isEmpty then .error (.invalidPattern s "empty host name")
  else if rest.contains '*' then .error (.invalidPattern s "a wildcard is only allowed as a leading \"*.\"")
  else
    match validateName rest with
    | .error reason => .error (.invalidPattern s reason)
    | .ok name => .ok ⟨name, wildcard⟩

end HostPattern

/-- What a policy reads of the configuration. -/
structure Config where
  passthrough : List Text
  allowlist : List Text
  mitmEnabled : Bool
deriving DecidableEq, Repr

/-- Why a connection is not intercepted, as far as a policy decides it. -/
inductive PassthroughReason where
  | mitmDisabled
  | user
  | bundled
  | learnedPin
deriving DecidableEq, Repr

inductive Decision where
  | intercept
  | passthrough (reason : PassthroughReason)
deriving DecidableEq, Repr

structure PinEntry where
  host : Text
  learnedAt : UInt64
deriving DecidableEq, Repr

structure PinsFile where
  version : UInt32
  pins : List PinEntry
deriving DecidableEq, Repr

def pinsFormatVersion : UInt32 := 1

/-- The library that prints and parses the file of learned pins. -/
structure PinsFormat where
  print : PinsFile → Text
  parse : Text → Option PinsFile

/-- The library parses what it prints. -/
def PinsFormat.Faithful (format : PinsFormat) : Prop := ∀ file, format.parse (format.print file) = some file

namespace Policy

def parsePatterns (patterns : List Text) : Except PolicyError (List HostPattern) := patterns.mapM HostPattern.parse

/-- Exact names and `*.` suffixes. -/
structure PatternSet where
  exact : Finset Text
  suffix : Finset Text
deriving DecidableEq

def PatternSet.add (set : PatternSet) (pattern : HostPattern) : PatternSet :=
  if pattern.wildcard then { set with suffix := insert pattern.name set.suffix }
  else { set with exact := insert pattern.name set.exact }

def PatternSet.new (patterns : List HostPattern) : PatternSet := patterns.foldl PatternSet.add ⟨∅, ∅⟩

/-- The key is a lookup key. -/
def PatternSet.matches (set : PatternSet) (key : Text) : Bool :=
  if key ∈ set.exact then true
  else if set.suffix = ∅ then false
  else (key :: key.tailsAfter '.').any fun parent => parent ∈ set.suffix

/-- The pins of a file, by lookup key; a later entry replaces an earlier one. -/
def collectPins (entries : List PinEntry) : HostMap ℕ :=
  entries.foldl
    (fun pins entry =>
      let host := lookupKey entry.host
      if host.isEmpty then pins else pins.insert host entry.learnedAt.toNat) ∅

def parsePins (format : PinsFormat) (json : Text) : HostMap ℕ :=
  match format.parse json with
  | some file => if file.version = pinsFormatVersion then collectPins file.pins else ∅
  | none => ∅

/-- The order of strings and numbers in a sorted list of pins. -/
def PinLe (left right : LearnedAt) : Prop := left.1 < right.1 ∨ (left.1 = right.1 ∧ left.2 ≤ right.2)

instance : DecidableRel PinLe := fun left right =>
  inferInstanceAs (Decidable (left.1 < right.1 ∨ (left.1 = right.1 ∧ left.2 ≤ right.2)))

end Policy

/-- Decides per host whether the proxy intercepts. -/
structure Policy where
  mitmEnabled : Bool
  user : Policy.PatternSet
  allowlist : Policy.PatternSet
  learning : Learning

namespace Policy

/-- Fails if a user pattern is invalid. -/
def new (format : PinsFormat) (config : Config) (learnedPinsJson : Option Text) : Except PolicyError Policy := do
  let user ← parsePatterns config.passthrough
  let allowlist ← parsePatterns config.allowlist
  let pins := (learnedPinsJson.map (parsePins format)).getD ∅
  .ok ⟨config.mitmEnabled, .new user, .new allowlist, .start pins⟩

/-- Order: MITM disabled, user passthrough, bundled passthrough, learned pins, intercept. -/
def classify (bundled : PatternSet) (policy : Policy) (host : Text) (now : UInt64) : Decision :=
  if !policy.mitmEnabled then .passthrough .mitmDisabled
  else
    let key := lookupKey host
    if policy.user.matches key then .passthrough .user
    else if bundled.matches key then .passthrough .bundled
    else if (policy.learning.pins.lookup key).any fun time => pinIsLive time now.toNat then .passthrough .learnedPin
    else .intercept

/-- Whether a host matches a user allowlist pattern. -/
def isAllowlisted (policy : Policy) (host : Text) : Bool :=
  let key := lookupKey host
  !key.isEmpty && policy.allowlist.matches key

/-- Every learned pin, sorted by host. -/
def learnedPins (policy : Policy) : List LearnedAt :=
  (policy.learning.pins.entries.map fun entry => (entry.1, entry.2)).insertionSort PinLe

def learnedPinsJson (format : PinsFormat) (policy : Policy) : Text :=
  format.print ⟨pinsFormatVersion, policy.learnedPins.map fun pin => ⟨pin.1, UInt64.ofNat pin.2⟩⟩

/-- One operation on the learning state. -/
def call (policy : Policy) (call : Call) : Policy := { policy with learning := (policy.learning.call call).2 }

/-- The policy after a history of operations, newest first. -/
def after (policy : Policy) (calls : List Call) : Policy := Machine.after Policy.call policy calls

end Policy

/-- The host that an operation can make a pin. -/
def Op.host? : Op → Option Text
  | .recordClientRejection host _ | .recordSilentRefusal host _ | .learnUpstreamUntrusted host _ => some host
  | _ => none

/-- The key of a host is its own key. -/
def StableHost (host : Text) : Prop := lookupKey (lookupKey host) = lookupKey host

instance (host : Text) : Decidable (StableHost host) := inferInstanceAs (Decidable (_ = _))

end Tollgate
