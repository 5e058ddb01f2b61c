import Tollgate.Model.Filter.DomainRules
import Tollgate.Model.Filter.PatternSet
import Tollgate.ToMathlib.Endian

/-! # The DNS blocklist file and lookups in it

The file has a 40 byte header with counts, section lengths and a checksum, then the block, allow
and important hashes, each section sorted, and then the wildcard exceptions and blocks as text. A
hash is 64-bit FNV-1a of the lowercase name; an entry for one host only is hashed with a leading
`|`. Version 1 files have a 32 byte header and no wildcard blocks.
-/

namespace Tollgate

open Endian

/-- `TGDS`. -/
abbrev magic : Bytes := [84, 71, 68, 83]
abbrev version : ℕ := 2
abbrev oldestVersion : ℕ := 1
abbrev headerLenV1 : ℕ := 32
abbrev headerLen : ℕ := 40

inductive DomainSetError
  | tooShort
  | badMagic
  | unsupportedVersion (version : ℕ)
  | badHeader
  | badPatterns
  | lengthMismatch (expected actual : ℕ)
  | badChecksum
  | unsorted
deriving DecidableEq, Repr

abbrev fnvOffset : UInt64 := 0xcbf29ce484222325
abbrev fnvPrime : UInt64 := 0x100000001b3
abbrev exactTag : Bytes := [124]

/-- FNV-1a 64 continued over more bytes, lowercasing ASCII letters. -/
def fnv1a64From (hash : UInt64) (bytes : Bytes) : UInt64 :=
  bytes.foldl (fun hash b => (hash ^^^ (lowerByte b).toUInt64) * fnvPrime) hash

def fnv1a64 (bytes : Bytes) : UInt64 := fnv1a64From fnvOffset bytes

/-- The hash of an entry for exactly this name. -/
def exactHash (name : Bytes) : UInt64 := fnv1a64From (fnv1a64 exactTag) name

/-- FNV-1a 64 of the raw bytes. -/
def checksum (bytes : Bytes) : UInt64 :=
  bytes.foldl (fun hash b => (hash ^^^ b.toUInt64) * fnvPrime) fnvOffset

def readU32 (bytes : Bytes) (position : ℕ) : Option ℕ := (slice bytes position (position + 4)).map ofLe

/-- The hashes of names and of one-host entries, sorted and unique. -/
def sortedHashes (names exact : List Text) : List ℕ :=
  (names.map (fun name => (fnv1a64 name.asBytes).toNat) ++
    exact.map (fun name => (exactHash name.asBytes).toNat)).toFinset.sort

/-- A wildcard section: `||` lines, then `|` lines. -/
def patternSection (parents host : List Text) : Text :=
  (parents.flatMap fun pattern => ['|', '|'] ++ pattern ++ ['\n']) ++
    host.flatMap fun pattern => ['|'] ++ pattern ++ ['\n']

namespace DomainRules

/-- The file with an empty checksum. -/
def encodeUnsealed (rules : DomainRules) : Option Bytes := do
  let block := sortedHashes rules.block rules.exactBlock
  let allow := sortedHashes rules.allow rules.exactAllow
  let important := sortedHashes rules.important []
  let allowPatterns := (patternSection rules.wildcardAllow rules.exactWildcardAllow).asBytes
  let blockPatterns := (patternSection rules.wildcardBlock rules.exactWildcardBlock).asBytes
  let counts ← [block, allow, important].mapM fun hashes => expectU32 hashes.length
  let allowLength ← expectU32 allowPatterns.length
  let blockLength ← expectU32 blockPatterns.length
  some ([magic, leBytes 4 version] ++ counts.map (leBytes 4) ++
    [leBytes 4 allowLength, leBytes 8 0, leBytes 4 blockLength, leBytes 4 0,
      (block ++ allow ++ important).flatMap (leBytes 8), allowPatterns, blockPatterns]).flatten

/-- The file for these rules, in the current format version. -/
def encode (rules : DomainRules) : Option Bytes := do
  let out ← rules.encodeUnsealed
  let sum := checksum (out.drop headerLen)
  some (out.take 24 ++ leBytes 8 sum.toNat ++ out.drop 32)

end DomainRules

/-- Reads a wildcard section: every line ends in a newline and holds a stored pattern. The outer
option is a panic, the inner one a malformed section. -/
def parsePatterns [Width] (bytes : Bytes) : Option (Option PatternSet) :=
  match Text.fromUtf8 bytes with
  | none => some none
  | some text =>
      match text.stripSuffix ['\n'] with
      | none => if text.isEmpty then some (some .empty) else some none
      | some body =>
          match (body.splitOn '\n').mapM Pattern.parse with
          | none => some none
          | some patterns => (PatternSet.new patterns).map some

/-- The hashed DNS blocklist and its wildcard patterns; a range is its start and end. -/
structure DomainSet where
  data : Bytes
  hashesAt : ℕ
  block : ℕ × ℕ
  allow : ℕ × ℕ
  important : ℕ × ℕ
  wildcardAllow : PatternSet
  wildcardBlock : PatternSet

namespace DomainSet

/-- `as_chunks::<8>().0`. -/
def asChunks : Bytes → List Bytes
  | a :: b :: c :: d :: e :: f :: g :: h :: rest => [a, b, c, d, e, f, g, h] :: asChunks rest
  | _ => []

section Width

variable [Width]

def hashes (set : DomainSet) : Option (List Bytes) := do
  let length ← Width.mul 8 set.important.2
  let stop ← Width.add set.hashesAt length
  (slice set.data set.hashesAt stop).map asChunks

/-- The hashes of one section. -/
def sectionHashes (set : DomainSet) (range : ℕ × ℕ) : Option (List Bytes) := do
  let hashes ← set.hashes
  slice hashes range.1 range.2

/-- Whether each entry is below the next. -/
def increasing : List ℕ → Bool
  | first :: second :: rest => first < second && increasing (second :: rest)
  | _ => true

/-- Accepts a set whose sections are all sorted and free of duplicates. -/
def checkSorted (set : DomainSet) : Option (Except DomainSetError DomainSet) := do
  let sorted ← [set.block, set.allow, set.important].allM fun range =>
    (set.sectionHashes range).map fun entries => increasing (entries.map ofLe)
  if sorted then some (.ok set) else some (.error .unsorted)

/-- What the header of a file says: where the hashes start and how long the block patterns are. -/
def readHeader (bytes : Bytes) (version : ℕ) : Option (Except DomainSetError (ℕ × ℕ)) :=
  if version = 1 then some (.ok (headerLenV1, 0))
  else if bytes.length < headerLen then some (.error .tooShort)
  else do
    let padding ← readU32 bytes 36
    if padding ≠ 0 then some (.error .badHeader)
    else
      let blockLength ← readU32 bytes 32
      some (.ok (headerLen, blockLength))

/-- Reads the patterns behind the hashes and checks the order of the hashes. -/
def readPatterns (bytes : Bytes) (headerLen : ℕ) (block allow important : ℕ × ℕ) (allowAt blockAt : ℕ) :
    Option (Except DomainSetError DomainSet) := do
  let allowBytes ← slice bytes allowAt blockAt
  let blockBytes ← slice bytes blockAt bytes.length
  let wildcardAllow ← parsePatterns allowBytes
  let wildcardBlock ← parsePatterns blockBytes
  match wildcardAllow, wildcardBlock with
  | some wildcardAllow, some wildcardBlock =>
      checkSorted ⟨bytes, headerLen, block, allow, important, wildcardAllow, wildcardBlock⟩
  | _, _ => some (.error .badPatterns)

/-- Checks the sections behind a header that was read. -/
def readSections (bytes : Bytes) (headerLen blockLength : ℕ) : Option (Except DomainSetError DomainSet) := do
  let allowLength ← readU32 bytes 20
  let blockCount ← readU32 bytes 8
  let allowCount ← readU32 bytes 12
  let importantCount ← readU32 bytes 16
  let total ← [blockCount, allowCount, importantCount].foldlM Width.add 0
  let hashesLength ← Width.mul 8 total
  let expected ← Width.add headerLen hashesLength
  let expected ← Width.add expected allowLength
  let expected ← Width.add expected blockLength
  if bytes.length ≠ expected then some (.error (.lengthMismatch expected bytes.length))
  else
    let stored ← slice bytes 24 32
    let body ← slice bytes headerLen bytes.length
    if (checksum body).toNat ≠ ofLe stored then some (.error .badChecksum)
    else
      let block := (0, blockCount)
      let allowEnd ← Width.add block.2 allowCount
      let allow := (block.2, allowEnd)
      let importantEnd ← Width.add allow.2 importantCount
      let important := (allow.2, importantEnd)
      let hashesLength ← Width.mul 8 important.2
      let allowAt ← Width.add headerLen hashesLength
      let blockAt ← Width.add allowAt allowLength
      readPatterns bytes headerLen block allow important allowAt blockAt

def new (bytes : Bytes) : Option (Except DomainSetError DomainSet) :=
  if bytes.length < headerLenV1 then some (.error .tooShort)
  else do
    let start ← slice bytes 0 4
    if start ≠ magic then some (.error .badMagic)
    else
      let version ← readU32 bytes 4
      if version < oldestVersion ∨ Tollgate.version < version then some (.error (.unsupportedVersion version))
      else
        let header ← readHeader bytes version
        match header with
        | .error reason => some (.error reason)
        | .ok (headerLen, blockLength) => readSections bytes headerLen blockLength

def fromBytes (bytes : Bytes) : Option (Except DomainSetError DomainSet) := new bytes

def contains (set : DomainSet) (range : ℕ × ℕ) (hash : UInt64) : Option Bool := do
  let entries ← set.sectionHashes range
  some (entries.binarySearchBy fun entry => compare (ofLe entry) hash.toNat).isSome

/-- The loop of `is_blocked` that fills the array of hashes, and how many it wrote. -/
def suffixLoop (host : Bytes) : ℕ → List UInt64 → ℕ → ℕ → Option (List UInt64 × ℕ)
  | 0, _, _, _ => none
  | fuel + 1, hashes, n, start =>
      if n < hashes.length then do
        let rest ← slice host start host.length
        match rest.findIdx? (· == dotByte) with
        | none => some (hashes, n)
        | some dot =>
            let hashes := hashes.set n (fnv1a64 rest)
            let n ← Width.add n 1
            let skip ← Width.add dot 1
            let start ← Width.add start skip
            suffixLoop host fuel hashes n start
      else some (hashes, n)

/-- The hashes of the host and of each parent that still has a dot. -/
def suffixHashes (host : Bytes) : Option (List UInt64) := do
  let (hashes, n) ← suffixLoop host 128 (List.replicate 127 0) 0 0
  slice hashes 0 n

/-- Whether one of the hashes is in a section. -/
def covered (set : DomainSet) (hashes : List UInt64) (range : ℕ × ℕ) : Option Bool :=
  if range.2 ≤ range.1 then some false else hashes.anyM (set.contains range)

/-- Whether the one-host hash is in a section. -/
def exactly (set : DomainSet) (exact : UInt64) (range : ℕ × ℕ) : Option Bool :=
  if range.2 ≤ range.1 then some false else set.contains range exact

/-- Whether the host is blocked. Blocks are checked before the wildcard exceptions, which only
matter for a blocked host. -/
def isBlocked (set : DomainSet) (host : Text) : Option Bool := do
  let host := host.stripDot.asBytes
  let hashes ← suffixHashes host
  if hashes.isEmpty then some false
  else
    let exact := exactHash host
    let important ← set.covered hashes set.important
    if important then some true
    else
      let allowed ← orElse (set.exactly exact set.allow) (set.covered hashes set.allow)
      if allowed then some false
      else
        let blocked ← orElse (orElse (set.exactly exact set.block) (set.covered hashes set.block))
          (set.wildcardBlock.matchesHost host)
        if blocked then (set.wildcardAllow.matchesHost host).map (!·) else some false

end Width

end DomainSet

end Tollgate
