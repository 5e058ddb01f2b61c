import Tollgate.Model.Core.Text

/-! # Resolving one query

`resolve` takes one of the in-flight permits or fails at once, puts the upstreams in order, and asks one
after the other until one answers. What `order` reads of an upstream is its mark and whether a background
query to it is on its way; it starts one in a step of its own, so another call may have started one since. A
step is one operation, or the end of an await for an upstream with any answer or any error that an upstream's
`query` can make. The permit is given back with the step that returns.
-/

namespace Tollgate.Doh

/-- Queries resolving at once. -/
def maxInFlight : ℕ := 128

def dnsHeaderLen : ℕ := 12

inductive DohError where
  | noUpstream
  | badQuery
  | busy
  | stopped
  | timeout
  | connect (message : Text)
  | tls (message : Text)
  | http (message : Text)
  | status (code : UInt16)
  | badAnswer (message : Text)
  | config (message : Text)
deriving DecidableEq, Repr

/-- Whether `query` of an upstream makes the error. -/
def DohError.fromUpstream : DohError → Bool
  | timeout | connect _ | tls _ | http _ | status _ | badAnswer _ => true
  | noUpstream | badQuery | busy | stopped | config _ => false

inductive Health where
  | up
  | down
  | due
deriving DecidableEq, Repr

/-- What tells how an upstream is doing. -/
structure Standing where
  downUntil : ℕ
  probing : Bool
deriving DecidableEq, Repr

def Standing.health (standing : Standing) (now : ℕ) : Health :=
  if standing.downUntil = 0 then .up
  else if now < standing.downUntil then .down
  else if standing.probing then .down
  else .due

/-- What the clones of a resolver share. -/
structure Inner where
  upstreams : List Standing
  /-- In-flight permits that are free. -/
  inFlight : ℕ
  /-- The upstreams of the background queries on their way. -/
  probes : List ℕ
deriving DecidableEq, Repr

namespace Inner

/-- A resolver with some upstreams. -/
def new (upstreams : ℕ) : Inner := ⟨List.replicate upstreams ⟨0, false⟩, maxInFlight, []⟩

/-- Starts a background query, unless one is on its way. -/
def probe (inner : Inner) (index : ℕ) : Inner :=
  if inner.upstreams[index]?.any Standing.probing then inner
  else
    { inner with
      upstreams := inner.upstreams.modify index fun standing => { standing with probing := true }
      probes := inner.probes ++ [index] }

/-- A background query ends. -/
def probed (inner : Inner) (index : ℕ) : Inner :=
  { inner with
    upstreams := inner.upstreams.modify index fun standing => { standing with probing := false }
    probes := inner.probes.erase index }

/-- An attempt or a reset sets the mark of an upstream. -/
def mark (inner : Inner) (index downUntil : ℕ) : Inner :=
  { inner with upstreams := inner.upstreams.modify index fun standing => { standing with downUntil := downUntil } }

def release (inner : Inner) : Inner := { inner with inFlight := inner.inFlight + 1 }

end Inner

/-- Where a call of `resolve` stands. -/
inductive Resolve where
  | entering (query : Bytes)
  /-- Has a permit and has looked at some upstreams: those that are up and those that are down. -/
  | ordering (query : Bytes) (now : ℕ) (up down : List ℕ)
  /-- Is about to start a background query to the next upstream, whose time is up. -/
  | probing (query : Bytes) (now : ℕ) (up down : List ℕ)
  /-- Has a permit and asks the first of the upstreams that are left. -/
  | asking (query : Bytes) (last : DohError) (order : List ℕ)
  | returned (result : Except DohError Bytes)

/-- How a step goes: the next operation, at a reading of the clock, or the end of an await. -/
inductive Resolve.Choice where
  | go (now : ℕ)
  | answered (answer : Bytes)
  | failed (error : DohError)
deriving DecidableEq, Repr

namespace Resolve

/-- The permits that the call has. -/
def held : Resolve → ℕ
  | ordering .. | probing .. | asking .. => 1
  | entering _ | returned _ => 0

/-- Whether the call awaits an upstream. -/
def awaits : Resolve → Bool
  | asking _ _ (_ :: _) => true
  | _ => false

def enter (inner : Inner) (query : Bytes) (now : ℕ) : Inner × Resolve :=
  if query.length < dnsHeaderLen then (inner, .returned (.error .badQuery))
  else if inner.inFlight = 0 then (inner, .returned (.error .busy))
  else ({ inner with inFlight := inner.inFlight - 1 }, .ordering query now [] [])

/-- `order` looks at the next upstream, if there is one. -/
def order (inner : Inner) (query : Bytes) (now : ℕ) (up down : List ℕ) : Inner × Resolve :=
  let index := up.length + down.length
  match inner.upstreams[index]? with
  | none => (inner, .asking query .noUpstream (up ++ down))
  | some standing =>
      match standing.health now with
      | .up => (inner, .ordering query now (up ++ [index]) down)
      | .down => (inner, .ordering query now up (down ++ [index]))
      | .due => (inner, .probing query now up down)

/-- `order` starts a background query to the next upstream and goes on. -/
def probe (inner : Inner) (query : Bytes) (now : ℕ) (up down : List ℕ) : Inner × Resolve :=
  let index := up.length + down.length
  (inner.probe index, .ordering query now up (down ++ [index]))

/-- One step, if the choice is possible. An answer gets the id of the query. -/
def step (inner : Inner) : Resolve → Choice → Option (Inner × Resolve)
  | entering query, .go now => some (enter inner query now)
  | ordering query now up down, .go _ => some (order inner query now up down)
  | probing query now up down, .go _ => some (probe inner query now up down)
  | asking _ last [], .go _ => some (inner.release, .returned (.error last))
  | asking query _ (_ :: _), .answered answer =>
      some (inner.release, .returned (.ok (query.take 2 ++ answer.drop 2)))
  | asking query _ (_ :: order), .failed error =>
      if error.fromUpstream then some (inner, .asking query error order) else none
  | _, _ => none

end Resolve

end Tollgate.Doh
