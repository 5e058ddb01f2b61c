import Mathlib.Data.List.MinMax
import Tollgate.Model.Core.Checked
import Tollgate.Model.Core.Text
import Tollgate.ToMathlib.Retain
import Tollgate.ToMathlib.Tally

/-! # What a policy has learned

The state behind the policy's mutex: the learned pins, the counts that may make a host a pin, and
the two lists that let a burst or a network change take fresh pins back. Times are seconds of a
wall clock that may jump, so every age test also bounds how far ahead a recorded time may lie. A
hash map is a finite map; where the program walks one for its oldest entry, the order of the walk
is a parameter. Log lines are left out, with what only they read.
-/

namespace Tollgate

def rejectionWindowSecs : ℕ := 10 * 60
def pinLifetimeSecs : ℕ := 30 * 24 * 60 * 60
def maxRecentRejections : ℕ := 1024
def upstreamBurstHosts : ℕ := 3
def upstreamBurstSecs : ℕ := 60
def upstreamSuppressSecs : ℕ := 10 * 60
def upstreamRecentSecs : ℕ := 5 * 60
def silentRefusals : ℕ := 3
def silentFloodSecs : ℕ := 60
def silentFloodSeconds : ℕ := 10
def silentFloodRatio : ℕ := 5
def silentHeldBackLogSecs : ℕ := 5 * 60
def silentRecentSecs : ℕ := 60
def silentBurstHosts : ℕ := 4
def silentBurstSecs : ℕ := 10
def silentSuppressSecs : ℕ := 60
def clockToleranceSecs : ℕ := 60 * 60

/-- Lowercase, one trailing dot removed, IPv6 brackets removed. -/
def lookupKey (host : Text) : Text :=
  let host := Text.stripDot host
  let host := ((Text.stripPrefix host ['[']).bind fun h => Text.stripSuffix h [']']).getD host
  Text.toAsciiLowercase host

/-- Whether `time` lies at most `maxAge` seconds before `now`, and not far after it. -/
def within (time now maxAge : ℕ) : Bool :=
  time ≤ saturatingAdd 64 now clockToleranceSecs && now - time ≤ maxAge

def pinIsLive (learnedAt now : ℕ) : Bool := within learnedAt now (pinLifetimeSecs - 1)

/-- A hash map with host keys. -/
abbrev HostMap (V : Type) := AList fun _ : Text => V

/-- A host with the time it was learned. -/
abbrev LearnedAt := Text × ℕ

/-- Connections of one host counted per second: one entry for each second with any. -/
abbrev PerSecond := List (ℕ × ℕ)

namespace PerSecond

/-- Counts one connection, and forgets the seconds out of the window. -/
def add (seconds : PerSecond) (now : ℕ) : PerSecond :=
  (seconds.filter fun second => within second.1 now silentFloodSecs).bump (fun count => saturatingAdd 32 count 1) now

/-- The connections, and the different seconds with any, within the window. -/
def count (seconds : PerSecond) (now : ℕ) : ℕ × ℕ :=
  (seconds.filter fun second => within second.1 now silentFloodSecs).foldl
    (fun total second => (saturatingAdd 32 total.1 second.2, total.2 + 1)) (0, 0)

def last (seconds : PerSecond) : ℕ := (seconds.map Prod.fst).maximum.unbotD 0

end PerSecond

/-- The handshakes clients completed with our certificate for one host. -/
structure Trusted where
  last : ℕ
  recent : PerSecond
deriving DecidableEq, Repr

/-- A host's silent refusals and completed handshakes in the flood window. -/
structure FloodCounts where
  refusals : ℕ
  seconds : ℕ
  handshakes : ℕ
deriving DecidableEq, Repr

def FloodCounts.isFlood (counts : FloodCounts) : Bool :=
  silentFloodSeconds ≤ counts.seconds && counts.handshakes * silentFloodRatio ≤ counts.refusals

/-- The order in which a hash map is walked decides which of its oldest entries is found. -/
structure Ties where
  oldest : List LearnedAt → Option Text
  least : ∀ {entries host}, oldest entries = some host →
    ∃ time, (host, time) ∈ entries ∧ ∀ entry ∈ entries, time ≤ entry.2
  found : ∀ {entries}, entries ≠ [] → (oldest entries).isSome

/-- The first of the oldest entries in the order they are listed. -/
def Ties.first : Ties where
  oldest entries := (entries.argmin Prod.snd).map Prod.fst
  least := by
    intro entries host found
    obtain ⟨entry, oldest, rfl⟩ := Option.map_eq_some_iff.mp found
    exact ⟨entry.2, List.argmin_mem oldest, fun other member => List.le_of_mem_argmin member oldest⟩
  found := by
    intro entries nonempty
    rw [Option.isSome_map, Option.isSome_iff_ne_none]
    exact fun none => nonempty (List.argmin_eq_none.mp none)

/-- Makes room for one more host: a full map keeps its fresh entries, and one that is still full
drops its oldest. -/
def makeRoom {V : Type} (ties : Ties) (fresh : V → Bool) (last : V → ℕ) (map : HostMap V) : HostMap V :=
  if map.size < maxRecentRejections then map
  else
    let map := map.retain fun _ value => fresh value
    if map.size < maxRecentRejections then map
    else
      match ties.oldest (map.entries.map fun entry => (entry.1, last entry.2)) with
      | some host => map.erase host
      | none => map

/-- The learning state of a policy. -/
structure Learning where
  pins : HostMap ℕ
  recent : HostMap ℕ
  upstream : List LearnedAt
  upstreamSuppressedUntil : Option ℕ
  silentPending : HostMap (List ℕ)
  silentHosts : HostMap ℕ
  silentFlood : HostMap PerSecond
  trusted : HostMap Trusted
  heldBackLogged : HostMap ℕ
  silent : List LearnedAt
  silentSuppressedUntil : Option ℕ

namespace Learning

/-- A new session: only the saved pins are known. -/
def start (pins : HostMap ℕ) : Learning := ⟨pins, ∅, [], none, ∅, ∅, ∅, ∅, ∅, [], none⟩

/-- Drops the pins that are too old, or too far ahead. -/
def expirePins (learning : Learning) (now : ℕ) : Learning :=
  { learning with pins := learning.pins.retain fun _ time => pinIsLive time now }

/-- Removes a host's pin if it is still the one learned at that time. -/
def takeBack (pins : HostMap ℕ) (learned : LearnedAt) : HostMap ℕ :=
  if pins.lookup learned.1 = some learned.2 then pins.erase learned.1 else pins

/-- Whether a suppression that ends at `stop` holds; one further ahead than it can be does not. -/
def suppresses (limit now : ℕ) (stop : Option ℕ) : Bool :=
  stop.any fun stop => now < stop && stop - now ≤ limit

def upstreamSuppressed (learning : Learning) (now : ℕ) : Bool × Learning :=
  if suppresses upstreamSuppressSecs now learning.upstreamSuppressedUntil then (true, learning)
  else (false, { learning with upstreamSuppressedUntil := none })

def silentSuppressed (learning : Learning) (now : ℕ) : Bool × Learning :=
  if suppresses silentSuppressSecs now learning.silentSuppressedUntil then (true, learning)
  else (false, { learning with silentSuppressedUntil := none })

/-- A map with room for a host: unchanged if the host has an entry already. -/
def roomFor {V : Type} (ties : Ties) (fresh : V → Bool) (last : V → ℕ) (host : Text) (map : HostMap V) :
    HostMap V :=
  if host ∈ map then map else makeRoom ties fresh last map

/-- Notes a silent refusal for burst detection, and counts the hosts refused in its window. -/
def noteSilentHost (learning : Learning) (ties : Ties) (host : Text) (now : ℕ) : ℕ × Learning :=
  let hosts := learning.silentHosts.retain fun _ time => within time now silentBurstSecs
  let hosts := (roomFor ties (fun _ => true) id host hosts).insert host now
  (hosts.size, { learning with silentHosts := hosts })

/-- Counts a silent refusal toward a flood. -/
def countForFlood (learning : Learning) (ties : Ties) (host : Text) (now : ℕ) : (ℕ × ℕ) × Learning :=
  let flood := roomFor ties (fun refusals => 0 < (PerSecond.count refusals now).2) PerSecond.last host
    learning.silentFlood
  let refusals := PerSecond.add ((flood.lookup host).getD []) now
  (PerSecond.count refusals now, { learning with silentFlood := flood.insert host refusals })

def recentHandshakes (learning : Learning) (host : Text) (now : ℕ) : ℕ :=
  match learning.trusted.lookup host with
  | some trusted => (PerSecond.count trusted.recent now).1
  | none => 0

/-- Makes a host a pin learned from silent refusals, and forgets what was pending for it. -/
def learnSilent (learning : Learning) (host : Text) (now : ℕ) : Learning :=
  { learning with
    silentPending := learning.silentPending.erase host
    silentFlood := learning.silentFlood.erase host
    recent := learning.recent.erase host
    upstream := learning.upstream.filter fun learned => learned.1 ≠ host
    silent := (learning.silent.filter fun learned => within learned.2 now silentRecentSecs) ++ [(host, now)]
    pins := learning.pins.insert host now }

/-- Notes that the guard held refusals back, at most once in a while for a host. -/
def logHeldBack (learning : Learning) (ties : Ties) (host : Text) (counts : FloodCounts) (now : ℕ) : Learning :=
  let fresh := fun time => within time now (silentHeldBackLogSecs - 1)
  if counts.seconds < silentRefusals then learning
  else if (learning.heldBackLogged.lookup host).any fresh then learning
  else { learning with heldBackLogged := (roomFor ties fresh id host learning.heldBackLogged).insert host now }

/-- A burst of silent refusals: forgets the pending ones and those counted for a flood, takes back
the pins of the window, and ignores silent refusals for a while. -/
def silentBurst (learning : Learning) (now : ℕ) : Learning :=
  { learning with
    pins := (learning.silent.filter fun learned => within learned.2 now silentBurstSecs).foldl takeBack
      learning.pins
    silent := learning.silent.filter fun learned => !within learned.2 now silentBurstSecs
    silentPending := ∅
    silentFlood := ∅
    silentSuppressedUntil := some (saturatingAdd 64 now silentSuppressSecs) }

end Learning

end Tollgate
