import Tollgate.Machine.History
import Tollgate.Model.Policy.Operations

/-! # The pins and the lists that can take them back

Provenance is not stored with a pin: it is implied by the two lists of fresh pins. `Book` keeps the
pins and these lists, `Action` names everything a call can do to them, and `Learning.action` reads
off which action a call takes. `latestLearning` is the provenance itself, read off a history of
calls: which operation last made a host a pin, and when.
-/

namespace Tollgate

/-- The pins with the lists of those learned lately. -/
structure Book where
  pins : HostMap ℕ
  upstream : List LearnedAt
  silent : List LearnedAt

def Learning.book (learning : Learning) : Book := ⟨learning.pins, learning.upstream, learning.silent⟩

/-- The operations that make a host a pin. -/
inductive Origin where
  | client
  | upstream
  | silent
deriving DecidableEq, Repr

/-- What a call can do to the pins. -/
inductive Action where
  | idle
  | expire (now : ℕ)
  | learn (origin : Origin) (key : Text) (now : ℕ)
  | upstreamBurst (now : ℕ)
  | silentBurst (now : ℕ)
  | networkChange (now : ℕ)
  | forget (keys : List Text)

namespace Book

/-- Drops the pins that are not live. -/
def expire (book : Book) (now : ℕ) : Book :=
  { book with pins := book.pins.retain fun _ time => pinIsLive time now }

/-- The entries of a list learned at most so many seconds ago. -/
def fresh (entries : List LearnedAt) (now maxAge : ℕ) : List LearnedAt :=
  entries.filter fun learned => within learned.2 now maxAge

def stale (entries : List LearnedAt) (now maxAge : ℕ) : List LearnedAt :=
  entries.filter fun learned => !within learned.2 now maxAge

/-- The entries of other hosts. -/
def others (entries : List LearnedAt) (key : Text) : List LearnedAt :=
  entries.filter fun learned => learned.1 ≠ key

/-- The upstream pins that count for a burst. -/
def window (book : Book) (now : ℕ) : List LearnedAt :=
  fresh (fresh book.upstream now upstreamRecentSecs) now upstreamBurstSecs

def learn (book : Book) : Origin → Text → ℕ → Book
  | .client, key, now => ⟨book.pins.insert key now, others book.upstream key, others book.silent key⟩
  | .upstream, key, now =>
      ⟨book.pins.insert key now, fresh book.upstream now upstreamRecentSecs ++ [(key, now)], book.silent⟩
  | .silent, key, now =>
      ⟨book.pins.insert key now, others book.upstream key, fresh book.silent now silentRecentSecs ++ [(key, now)]⟩

def takeUpstream (book : Book) (now : ℕ) : Book :=
  { book with
    pins := (book.window now).foldl Learning.takeBack book.pins
    upstream := stale (fresh book.upstream now upstreamRecentSecs) now upstreamBurstSecs }

def takeSilent (book : Book) (now : ℕ) : Book :=
  { book with
    pins := (fresh book.silent now silentBurstSecs).foldl Learning.takeBack book.pins
    silent := stale book.silent now silentBurstSecs }

def takeFresh (book : Book) (now : ℕ) : Book :=
  ⟨(fresh book.silent now silentRecentSecs).foldl Learning.takeBack
    ((fresh book.upstream now upstreamRecentSecs).foldl Learning.takeBack book.pins), [], []⟩

def forget (book : Book) (key : Text) : Book :=
  ⟨book.pins.erase key, others book.upstream key, others book.silent key⟩

def act (book : Book) : Action → Book
  | .idle => book
  | .expire now => book.expire now
  | .learn origin key now => (book.expire now).learn origin key now
  | .upstreamBurst now => (book.expire now).takeUpstream now
  | .silentBurst now => (book.expire now).takeSilent now
  | .networkChange now => book.takeFresh now
  | .forget keys => keys.foldl forget book

end Book

namespace Action

/-- A host is learned only while it has no live pin, and from upstream only without a burst. -/
def Enabled (book : Book) : Action → Prop
  | learn origin key now =>
      key ∉ (book.expire now).pins ∧
        (origin = .upstream → ((book.window now).map Prod.fst).toFinset.card + 1 < upstreamBurstHosts)
  | _ => True

/-- The provenance of each host's pin after an action. -/
def note (latest : Text → Option (Origin × ℕ)) : Action → Text → Option (Origin × ℕ)
  | learn origin key now => Function.update latest key (some (origin, now))
  | _ => latest

/-- The time of an action. -/
def now? : Action → Option ℕ
  | expire now | learn _ _ now | upstreamBurst now | silentBurst now | networkChange now => some now
  | _ => none

end Action

namespace Learning

/-- An upstream failure that completes a burst. -/
def findsUpstreamBurst (learning : Learning) (host : Text) (now : ℕ) : Bool :=
  let expired := learning.expirePins now
  lookupKey host ≠ [] && !decide (lookupKey host ∈ expired.pins) && !(expired.upstreamSuppressed now).1 &&
    (expired.upstreamSuppressed now).2.isUpstreamBurst now

/-- A silent refusal that completes a burst. -/
def findsSilentBurst (learning : Learning) (ties : Ties) (host : Text) (now : ℕ) : Bool :=
  let expired := learning.expirePins now
  lookupKey host ≠ [] && !decide (lookupKey host ∈ expired.pins) &&
    silentBurstHosts ≤ (expired.noteSilentHost ties (lookupKey host) now).1

/-- The host a call makes a pin, with the operation and its time. -/
def learned (learning : Learning) (call : Call) : Option (Text × Origin × ℕ) :=
  if (learning.call call).1 then
    match call.op with
    | .recordClientRejection host now => some (lookupKey host, .client, now.toNat)
    | .recordSilentRefusal host now => some (lookupKey host, .silent, now.toNat)
    | .learnUpstreamUntrusted host now => some (lookupKey host, .upstream, now.toNat)
    | _ => none
  else none

/-- What a call that teaches nothing does to the pins. -/
def upkeep (learning : Learning) (call : Call) : Action :=
  match call.op with
  | .recordClientRejection host now => if lookupKey host = [] then .idle else .expire now.toNat
  | .recordSilentRefusal host now =>
      if lookupKey host = [] then .idle
      else if learning.findsSilentBurst call.ties host now.toNat then .silentBurst now.toNat
      else .expire now.toNat
  | .recordInterceptedHandshake _ _ => .idle
  | .learnUpstreamUntrusted host now =>
      if lookupKey host = [] then .idle
      else if learning.findsUpstreamBurst host now.toNat then .upstreamBurst now.toNat
      else .expire now.toNat
  | .onNetworkChange now => .networkChange now.toNat
  | .forgetPins hosts => .forget (hosts.map lookupKey)

def action (learning : Learning) (call : Call) : Action :=
  match learning.learned call with
  | some (key, origin, now) => .learn origin key now
  | none => learning.upkeep call

end Learning

/-- The state after a history of calls, newest first, of a session that began with saved pins. -/
def afterCalls (saved : HostMap ℕ) (calls : List Call) : Learning :=
  Machine.after (fun learning call => (learning.call call).2) (Learning.start saved) calls

/-- The operation that last made a host a pin in this session, with its time. -/
def latestLearning (saved : HostMap ℕ) : List Call → Text → Option (Origin × ℕ)
  | [], _ => none
  | call :: past, host =>
      match (afterCalls saved past).learned call with
      | some (key, learning) => if key = host then some learning else latestLearning saved past host
      | none => latestLearning saved past host

/-- The operation behind a host's pin; none behind a saved one. -/
def learnedBy (saved : HostMap ℕ) (calls : List Call) (host : Text) : Option Origin :=
  (latestLearning saved calls host).map Prod.fst

/-- The times of the calls, newest first. -/
def callTimes (calls : List Call) : List ℕ := calls.filterMap fun call => call.op.now?

/-- A history under a clock that does not go back. -/
def Ordered (calls : List Call) : Prop := (callTimes calls).Pairwise (· ≥ ·)

instance (calls : List Call) : Decidable (Ordered calls) := inferInstanceAs (Decidable (List.Pairwise ..))

/-- The time of the last call that has one. -/
def lastTime (calls : List Call) : ℕ := (callTimes calls).headD 0

end Tollgate
