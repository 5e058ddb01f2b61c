import Mathlib.Data.List.AList
import Tollgate.Model.Dns.Cache
import Tollgate.Model.Dns.LocalName
import Tollgate.Model.Doh.Resolve

/-! # Looking up host names for the proxy

Calls of `HostResolver::resolve` run at once. A call that finds no lookup of its name leads one: it waits for
a turn, asks for both types together, keeps what it found, sends it to those who joined, and drops its guard
and then its sender. A call that finds one joins it. A call that is cancelled while it awaits something drops
what it has, one thing a step: the in-flight permits, the turn, the guard, the sender. A lookup is known by
its channel. `leader` records the call that made a channel; no step reads it. The semaphore of the turns is
never closed. Reading and writing messages is the DNS library's.
-/

namespace Tollgate.Lookup

open Dns

def lookupCacheCapacity : ℕ := 256
def maxLookupTtl : UInt32 := 300
def lookupPermits : ℕ := 32

inductive Address where
  | v4 (bits : BitVec 32)
  | v6 (bits : BitVec 128)
deriving DecidableEq, Repr

inductive RecordType where
  | a
  | aaaa
deriving DecidableEq, Repr

inductive RData where
  | a (bits : BitVec 32)
  | aaaa (bits : BitVec 128)
  | other
deriving DecidableEq, Repr

/-- The address in a record of the type. -/
def RData.address : RData → RecordType → Option Address
  | a bits, .a => some (.v4 bits)
  | aaaa bits, .aaaa => some (.v6 bits)
  | _, _ => none

structure LookupMessage where
  noError : Bool
  answers : List (RData × UInt32)
deriving DecidableEq, Repr

/-- What the libraries do with a host name and with messages. -/
structure LookupLibraries where
  parse : Text → Option Address
  encode : Text → RecordType → Option Bytes
  decode : Bytes → Option LookupMessage

/-- The addresses of one type in an answer and their smallest TTL. -/
def readAnswer (libraries : LookupLibraries) (rtype : RecordType) (answer : Bytes) :
    Option (List Address × UInt32) := do
  let message ← libraries.decode answer
  if message.noError then
    let found := message.answers.filterMap fun record => (record.1.address rtype).map fun ip => (ip, record.2)
    some (found.map Prod.fst, found.foldl (fun ttl record => min ttl record.2) 0xffffffff)
  else some ([], 0)

/-- Where a call of `query` stands. -/
inductive Query where
  | starting
  | resolving (resolve : Doh.Resolve)
  | finished (found : Option (List Address × UInt32))

namespace Query

def resolves : Query → List Doh.Resolve
  | resolving resolve => [resolve]
  | _ => []

def held : Query → ℕ
  | resolving resolve => resolve.held
  | _ => 0

def step (libraries : LookupLibraries) (inner : Doh.Inner) (host : Text) (rtype : RecordType) :
    Query → Doh.Resolve.Choice → Option (Doh.Inner × Query)
  | starting, .go _ =>
      match libraries.encode host rtype with
      | none => some (inner, .finished none)
      | some wire => some (inner, .resolving (.entering wire))
  | resolving (.returned result), .go _ =>
      match result with
      | .ok answer => some (inner, .finished (readAnswer libraries rtype answer))
      | .error _ => some (inner, .finished none)
  | resolving resolve, choice => (resolve.step inner choice).map fun next => (next.1, .resolving next.2)
  | _, _ => none

/-- Whether a future that awaits this query and another may be dropped at this query. -/
def rests : Query → Bool
  | starting => false
  | resolving resolve => resolve.awaits
  | finished _ => true

end Query

structure HostEntry where
  addresses : List Address
  expires : UInt64
deriving DecidableEq, Repr

/-- The live cached addresses of a name. -/
def cached (cache : Lru Text HostEntry) (host : Text) (now : UInt64) : Option (List Address) × Lru Text HostEntry :=
  match cache.get host with
  | (some entry, used) => if entry.expires > now then (some entry.addresses, used) else (none, used.pop host)
  | (none, used) => (none, used)

/-- The addresses of both types without repetitions, and the smallest TTL. -/
def gather (found : List (List Address × UInt32)) : List Address × Option UInt32 :=
  found.foldl
    (fun gathered next =>
      (next.1.foldl (fun kept ip => if kept.contains ip then kept else kept ++ [ip]) gathered.1,
        some (gathered.2.elim next.2 fun ttl => min ttl next.2)))
    ([], none)

/-- Keeps what a lookup found, unless it is nothing. -/
def keep (cache : Lru Text HostEntry) (host : Text) (now : UInt64) (addresses : List Address) (ttl : Option UInt32) :
    Lru Text HostEntry :=
  if addresses.isEmpty then cache
  else
    let lifetime := max minCacheTtl (min (ttl.getD 0) maxLookupTtl)
    cache.put host ⟨addresses, now + lifetime.toUInt64⟩

/-- Where a call of `look_up` stands. -/
inductive LookUp where
  /-- Waits for a turn. -/
  | queued
  /-- Has a turn. -/
  | running (now : UInt64) (a aaaa : Query)
  /-- Has kept what it found and is about to give its turn back. -/
  | kept (addresses : List Address)
  | returned (addresses : List Address)
  /-- Is being dropped, with a turn and some in-flight permits. -/
  | dropping (permits : ℕ)
  | dropped

/-- How a step of a lookup goes. -/
inductive Choice where
  | go (now : UInt64)
  | query (rtype : RecordType) (choice : Doh.Resolve.Choice)
  /-- The caller drops the call. -/
  | cancelled
deriving DecidableEq, Repr

/-- The part of a resolver that its lookups use. -/
structure Resources where
  inner : Doh.Inner
  cache : Lru Text HostEntry
  /-- Turns that are free. -/
  turns : ℕ

namespace LookUp

/-- The turns that the lookup has. -/
def turns : LookUp → ℕ
  | running .. | kept _ | dropping _ => 1
  | queued | returned _ | dropped => 0

/-- The in-flight permits that the lookup has. -/
def held : LookUp → ℕ
  | running _ a aaaa => a.held + aaaa.held
  | dropping permits => permits
  | queued | kept _ | returned _ | dropped => 0

def resolves : LookUp → List Doh.Resolve
  | running _ a aaaa => a.resolves ++ aaaa.resolves
  | _ => []

/-- Whether the lookup is still to return or to be dropped. -/
def runs : LookUp → Bool
  | returned _ | dropped => false
  | queued | running .. | kept _ | dropping _ => true

/-- Both queries have ended: their results are put together and kept. -/
def finish (resources : Resources) (host : Text) (now : UInt64) : Query → Query → Option (Resources × LookUp)
  | .finished a, .finished aaaa =>
      let (addresses, ttl) := gather ([a, aaaa].filterMap id)
      some ({ resources with cache := keep resources.cache host now addresses ttl }, .kept addresses)
  | _, _ => none

def step (libraries : LookupLibraries) (resources : Resources) (host : Text) :
    LookUp → Choice → Option (Resources × LookUp)
  | queued, .go now =>
      if resources.turns = 0 then none
      else some ({ resources with turns := resources.turns - 1 }, .running now .starting .starting)
  | queued, .cancelled => some (resources, .dropped)
  | running now a aaaa, .query .a choice =>
      (a.step libraries resources.inner host .a choice).map fun next =>
        ({ resources with inner := next.1 }, .running now next.2 aaaa)
  | running now a aaaa, .query .aaaa choice =>
      (aaaa.step libraries resources.inner host .aaaa choice).map fun next =>
        ({ resources with inner := next.1 }, .running now a next.2)
  | running now a aaaa, .go _ => finish resources host now a aaaa
  | running _ a aaaa, .cancelled =>
      if a.rests && aaaa.rests && 0 < a.held + aaaa.held then some (resources, .dropping (a.held + aaaa.held)) else none
  | kept addresses, .go _ => some ({ resources with turns := resources.turns + 1 }, .returned addresses)
  | dropping (permits + 1), .go _ => some ({ resources with inner := resources.inner.release }, .dropping permits)
  | dropping 0, .go _ => some ({ resources with turns := resources.turns + 1 }, .dropped)
  | _, _ => none

end LookUp

/-- A watch channel: what was sent, and whether the sender is still there. -/
structure Channel where
  leader : ℕ
  value : Option (List Address)
  sender : Bool
deriving DecidableEq, Repr

/-- The lookups in progress by name, each with an id and its channel. -/
structure Lookups where
  lastId : UInt64
  byHost : AList fun _ : Text => UInt64 × ℕ

namespace Lookups

def new : Lookups := ⟨0, ∅⟩

def get (lookups : Lookups) (host : Text) : Option (UInt64 × ℕ) := lookups.byHost.lookup host

def remove (lookups : Lookups) (host : Text) : Lookups := { lookups with byHost := lookups.byHost.erase host }

def insert (lookups : Lookups) (host : Text) (channel : ℕ) : Lookups × UInt64 :=
  let id := lookups.lastId + 1
  (⟨id, lookups.byHost.insert host (id, channel)⟩, id)

/-- The guard of a lookup is dropped. -/
def finish (lookups : Lookups) (host : Text) (id : UInt64) : Lookups :=
  if (lookups.get host).any fun entry => entry.1 = id then lookups.remove host else lookups

end Lookups

/-- Where a call of `resolve` stands. -/
inductive Phase where
  /-- At the head of its loop. -/
  | checking
  /-- About to lock the lookups in progress. -/
  | entering
  /-- Leads a lookup. -/
  | looking (id : UInt64) (channel : ℕ) (lookUp : LookUp)
  /-- Has sent what it found and is about to drop its guard. -/
  | leaving (id : UInt64) (channel : ℕ) (addresses : List Address)
  /-- Has dropped its guard and is about to drop its sender. -/
  | closing (channel : ℕ) (result : Option (List Address))
  /-- Has joined a lookup. -/
  | waiting (channel : ℕ)
  | returned (addresses : List Address)
  | cancelled

namespace Phase

def lookUp : Phase → Option LookUp
  | looking _ _ lookUp => some lookUp
  | _ => none

/-- Whether the call runs `look_up`. -/
def looks (phase : Phase) : Bool := phase.lookUp.any LookUp.runs

/-- The entry that the call's guard is for. -/
def guards : Phase → Option (UInt64 × ℕ)
  | looking id channel _ | leaving id channel _ => some (id, channel)
  | _ => none

/-- The channel that the call has the sender of. -/
def sends : Phase → Option ℕ
  | looking _ channel _ | leaving _ channel _ | closing channel _ => some channel
  | _ => none

/-- What the call that leads a lookup has found. -/
def found : Phase → Option (List Address)
  | leaving _ _ addresses | returned addresses => some addresses
  | closing _ result => result
  | _ => none

/-- The call has dropped its sender. -/
def ended : Option (List Address) → Phase
  | some addresses => returned addresses
  | none => cancelled

end Phase

/-- A call for a name, which is stripped of its final dot and in lower case. -/
structure Call where
  host : Text
  phase : Phase

/-- The call begins: an address is returned as it is, and a local name is not looked up. -/
def Call.begin (libraries : LookupLibraries) (host : Text) : Call :=
  let host := host.stripDot.toAsciiLowercase
  match libraries.parse host with
  | some ip => ⟨host, .returned [ip]⟩
  | none => if isLocalName host then ⟨host, .returned []⟩ else ⟨host, .checking⟩

structure HostResolver where
  resources : Resources
  lookups : Lookups
  channels : List Channel

namespace HostResolver

def new (inner : Doh.Inner) : HostResolver :=
  ⟨⟨inner, .new lookupCacheCapacity (by decide), lookupPermits / 2⟩, .new, []⟩

/-- A call finds the name in progress and joins, or leads a lookup of its own. -/
def join (hosts : HostResolver) (index : ℕ) (host : Text) : HostResolver × Phase :=
  match hosts.lookups.get host with
  | some (_, channel) => (hosts, .waiting channel)
  | none =>
      let (lookups, id) := hosts.lookups.insert host hosts.channels.length
      ({ hosts with lookups := lookups, channels := hosts.channels ++ [⟨index, none, true⟩] },
        .looking id hosts.channels.length .queued)

def send (hosts : HostResolver) (channel : ℕ) (addresses : List Address) : HostResolver :=
  { hosts with channels := hosts.channels.modify channel fun there => { there with value := some addresses } }

def dropSender (hosts : HostResolver) (channel : ℕ) : HostResolver :=
  { hosts with channels := hosts.channels.modify channel fun there => { there with sender := false } }

def dropGuard (hosts : HostResolver) (host : Text) (id : UInt64) : HostResolver :=
  { hosts with lookups := hosts.lookups.finish host id }

/-- `wait_for` ends with the value if one was sent, else with an error once the sender is dropped. -/
def wake (hosts : HostResolver) (channel : ℕ) : Option Phase := do
  let there ← hosts.channels[channel]?
  match there.value with
  | some addresses => some (.returned addresses)
  | none => if there.sender then none else some .checking

/-- One step of a call, if the choice is possible in its phase. -/
def advance (libraries : LookupLibraries) (hosts : HostResolver) (index : ℕ) (host : Text) :
    Phase → Choice → Option (HostResolver × Phase)
  | .checking, .go now =>
      let (found, cache) := cached hosts.resources.cache host now
      some ({ hosts with resources := { hosts.resources with cache := cache } },
        found.elim .entering .returned)
  | .entering, .go _ => some (hosts.join index host)
  | .looking id channel (.returned addresses), .go _ =>
      some (hosts.send channel addresses, .leaving id channel addresses)
  | .looking id channel .dropped, .go _ => some (hosts.dropGuard host id, .closing channel none)
  | .looking id channel lookUp, choice =>
      (lookUp.step libraries hosts.resources host choice).map fun next =>
        ({ hosts with resources := next.1 }, .looking id channel next.2)
  | .leaving id channel addresses, .go _ => some (hosts.dropGuard host id, .closing channel (some addresses))
  | .closing channel result, .go _ => some (hosts.dropSender channel, .ended result)
  | .waiting channel, .go _ => (hosts.wake channel).map fun phase => (hosts, phase)
  | .waiting _, .cancelled => some (hosts, .cancelled)
  | _, _ => none

end HostResolver

end Tollgate.Lookup
