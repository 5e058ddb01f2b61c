import Mathlib.Data.UInt
import Tollgate.Model.Policy.Learning

/-! # The operations of a policy

Each operation takes the learning state under its mutex, so a run of a policy is a sequence of
calls. An operation that can make its host a pin returns whether it did. `Call` pairs an operation
with the walk orders its hash maps happened to have, and `after` is the state a history of calls
leads to, newest call first.
-/

namespace Tollgate

namespace Learning

/-- A rejection by alert within the window of an earlier one makes the host a pin. -/
def recordClientRejection (learning : Learning) (ties : Ties) (host : Text) (now : ℕ) : Bool × Learning :=
  let key := lookupKey host
  if key = [] then (false, learning)
  else
    let learning := learning.expirePins now
    if key ∈ learning.pins then (false, learning)
    else if (learning.recent.lookup key).any fun previous => within previous now rejectionWindowSecs then
      (true, { learning with
        recent := learning.recent.erase key
        silentPending := learning.silentPending.erase key
        silentFlood := learning.silentFlood.erase key
        upstream := learning.upstream.filter fun learned => learned.1 ≠ key
        silent := learning.silent.filter fun learned => learned.1 ≠ key
        pins := learning.pins.insert key now })
    else
      -- The room is made without asking whether the host has an entry already.
      let recent := makeRoom ties (fun time => within time now rejectionWindowSecs) id learning.recent
      (false, { learning with recent := recent.insert key now })

/-- The upstream pins of the burst window, once those out of every window are forgotten. -/
def upstreamWindow (learning : Learning) (now : ℕ) : List LearnedAt :=
  (learning.upstream.filter fun learned => within learned.2 now upstreamRecentSecs).filter fun learned =>
    within learned.2 now upstreamBurstSecs

/-- One more host would make a burst of upstream failures. -/
def isUpstreamBurst (learning : Learning) (now : ℕ) : Bool :=
  upstreamBurstHosts ≤ ((learning.upstreamWindow now).map Prod.fst).toFinset.card + 1

/-- Takes the pins of the window back, and ignores upstream failures for a while. The end of the
suppression is a plain sum of the program's 64-bit times. -/
def upstreamBurst (learning : Learning) (now : ℕ) : Learning :=
  { learning with
    pins := (learning.upstreamWindow now).foldl takeBack learning.pins
    upstream := (learning.upstream.filter fun learned => within learned.2 now upstreamRecentSecs).filter
      fun learned => !within learned.2 now upstreamBurstSecs
    upstreamSuppressedUntil := some ((now + upstreamSuppressSecs) % 2 ^ 64) }

def learnUpstream (learning : Learning) (host : Text) (now : ℕ) : Learning :=
  { learning with
    recent := learning.recent.erase host
    silentPending := learning.silentPending.erase host
    silentFlood := learning.silentFlood.erase host
    pins := learning.pins.insert host now
    upstream := (learning.upstream.filter fun learned => within learned.2 now upstreamRecentSecs) ++ [(host, now)] }

/-- An upstream failure makes the host a pin at once, unless it completes a burst. -/
def learnUpstreamUntrusted (learning : Learning) (host : Text) (now : ℕ) : Bool × Learning :=
  let key := lookupKey host
  if key = [] then (false, learning)
  else
    let learning := learning.expirePins now
    if key ∈ learning.pins then (false, learning)
    else
      let suppressed := learning.upstreamSuppressed now
      if suppressed.1 then (false, suppressed.2)
      else if suppressed.2.isUpstreamBurst now then (false, suppressed.2.upstreamBurst now)
      else (true, suppressed.2.learnUpstream key now)

/-- A counted silent refusal while a client trusts us: only a flood makes the host a pin. -/
def guardedRefusal (learning : Learning) (ties : Ties) (key : Text) (refusals : ℕ × ℕ) (now : ℕ) :
    Bool × Learning :=
  let learning := { learning with silentPending := learning.silentPending.erase key }
  let counts : FloodCounts := ⟨refusals.1, refusals.2, learning.recentHandshakes key now⟩
  if counts.isFlood then (true, learning.learnSilent key now)
  else (false, learning.logHeldBack ties key counts now)

/-- A counted silent refusal with no such client: enough different seconds make the host a pin. -/
def pendingRefusal (learning : Learning) (ties : Ties) (key : Text) (now : ℕ) : Bool × Learning :=
  let fresh := fun seconds : List ℕ => seconds.any fun time => within time now rejectionWindowSecs
  let pending := roomFor ties fresh (fun seconds => seconds.maximum.unbotD 0) key learning.silentPending
  let seconds := ((pending.lookup key).getD []).filter fun time => within time now rejectionWindowSecs
  if now ∈ seconds then (false, { learning with silentPending := pending.insert key seconds })
  else
    let learning := { learning with silentPending := pending.insert key (seconds ++ [now]) }
    if (seconds ++ [now]).length < silentRefusals then (false, learning)
    else (true, learning.learnSilent key now)

/-- A silent refusal that is neither part of a burst nor suppressed. -/
def countedRefusal (learning : Learning) (ties : Ties) (key : Text) (now : ℕ) : Bool × Learning :=
  let flood := learning.countForFlood ties key now
  let trusted := (flood.2.trusted.lookup key).map Trusted.last
  if trusted.any fun time => within time now rejectionWindowSecs then
    flood.2.guardedRefusal ties key flood.1 now
  else flood.2.pendingRefusal ties key now

def recordSilentRefusal (learning : Learning) (ties : Ties) (host : Text) (now : ℕ) : Bool × Learning :=
  let key := lookupKey host
  if key = [] then (false, learning)
  else
    let learning := learning.expirePins now
    if key ∈ learning.pins then (false, learning)
    else
      let noted := learning.noteSilentHost ties key now
      if silentBurstHosts ≤ noted.1 then (false, noted.2.silentBurst now)
      else
        let suppressed := noted.2.silentSuppressed now
        if suppressed.1 then (false, suppressed.2)
        else suppressed.2.countedRefusal ties key now

/-- A client completed a handshake with our certificate, so it trusts us. -/
def recordInterceptedHandshake (learning : Learning) (ties : Ties) (host : Text) (now : ℕ) : Learning :=
  let key := lookupKey host
  if key = [] then learning
  else
    let trusted := roomFor ties (fun trusted => within trusted.last now rejectionWindowSecs) Trusted.last key
      learning.trusted
    let recent := ((trusted.lookup key).map Trusted.recent).getD []
    { learning with
      silentPending := learning.silentPending.erase key
      trusted := trusted.insert key ⟨now, PerSecond.add recent now⟩ }

/-- Takes the fresh pins of both lists back, and forgets the silent refusals that count. -/
def onNetworkChange (learning : Learning) (now : ℕ) : Learning :=
  let pins := (learning.upstream.filter fun learned => within learned.2 now upstreamRecentSecs).foldl takeBack
    learning.pins
  { learning with
    pins := (learning.silent.filter fun learned => within learned.2 now silentRecentSecs).foldl takeBack pins
    upstream := []
    silent := []
    silentPending := ∅
    silentFlood := ∅
    silentHosts := ∅ }

/-- Forgets one host. -/
def forgetPin (learning : Learning) (key : Text) : Learning :=
  { learning with
    pins := learning.pins.erase key
    recent := learning.recent.erase key
    silentPending := learning.silentPending.erase key
    silentFlood := learning.silentFlood.erase key
    upstream := learning.upstream.filter fun learned => learned.1 ≠ key
    silent := learning.silent.filter fun learned => learned.1 ≠ key }

/-- Forgets these hosts, and counts the pins removed. -/
def forgetPins (learning : Learning) (hosts : List Text) : ℕ × Learning :=
  hosts.foldl
    (fun done host =>
      let key := lookupKey host
      (done.1 + (if key ∈ done.2.pins then 1 else 0), done.2.forgetPin key))
    (0, learning)

end Learning

/-- The operations that change what is learned. -/
inductive Op where
  | recordClientRejection (host : Text) (now : UInt64)
  | recordSilentRefusal (host : Text) (now : UInt64)
  | recordInterceptedHandshake (host : Text) (now : UInt64)
  | learnUpstreamUntrusted (host : Text) (now : UInt64)
  | onNetworkChange (now : UInt64)
  | forgetPins (hosts : List Text)
deriving DecidableEq, Repr

/-- An operation with the walk orders of its hash maps. -/
structure Call where
  op : Op
  ties : Ties

namespace Op

/-- The time of a call. -/
def now? : Op → Option ℕ
  | recordClientRejection _ now | recordSilentRefusal _ now | recordInterceptedHandshake _ now
  | learnUpstreamUntrusted _ now | onNetworkChange now => some now.toNat
  | forgetPins _ => none

end Op

/-- One call: whether it made its host a pin, and the state it leaves. -/
def Learning.call (learning : Learning) (call : Call) : Bool × Learning :=
  match call.op with
  | .recordClientRejection host now => learning.recordClientRejection call.ties host now.toNat
  | .recordSilentRefusal host now => learning.recordSilentRefusal call.ties host now.toNat
  | .recordInterceptedHandshake host now => (false, learning.recordInterceptedHandshake call.ties host now.toNat)
  | .learnUpstreamUntrusted host now => learning.learnUpstreamUntrusted host now.toNat
  | .onNetworkChange now => (false, learning.onNetworkChange now.toNat)
  | .forgetPins hosts => (false, (learning.forgetPins hosts).2)

end Tollgate
