import Tollgate.Machine.Runs
import Tollgate.Model.Dns.Session
import Tollgate.Model.Engine.LocalJobs

/-! # Calls into the engine, interleaved

Each call into the engine that deals with local names is a thread, and what it does under one lock is
one step: handling a packet, reading the resolver, the section of `resolve_locally`, one call of the
resolver, the removal in `complete_local`, and answering one query. Steps of different calls interleave
in any way. The fields from `tickets` on record what happened and are read by no step.
-/

namespace Tollgate.Engine

open Dns

/-- Where a call stands, with the queries it holds. -/
inductive Phase where
  /-- `handle_packets` goes through its packets. -/
  | collecting (jobs : List Query)
  /-- `resolve_locally` has read whether there is a resolver. -/
  | queueing (resolver : Bool) (jobs : List Query)
  /-- `resolve_locally` calls the resolver. -/
  | resolving (calls : List ResolveCall) (failed : List Query)
  /-- The queries are answered with these records, those of a lookup if there is a source. -/
  | answering (source : Option ℕ) (records : Option (List LocalRecord)) (jobs : List Query)
deriving DecidableEq, Repr

/-- What follows the section: calls of the resolver, then answers for the queries that failed. -/
def Phase.resolve (calls : List ResolveCall) (failed : List Query) : Phase :=
  if calls.isEmpty then .answering none none failed else .resolving calls failed

/-- The local queries of a batch that has not come to its section yet. -/
def Phase.incoming : Phase → List Query
  | .collecting jobs | .queueing _ jobs => jobs
  | .resolving .. | .answering .. => []

/-- The queries that a call is about to answer. -/
def Phase.held : Phase → List Query
  | .resolving _ jobs | .answering _ _ jobs => jobs
  | .collecting _ | .queueing .. => []

structure World where
  handler : DnsHandler
  resolver : Bool
  localJobs : LocalJobs
  calls : List Phase
  clock : ℕ
  /-- How many local queries there were. -/
  tickets : ℕ
  /-- The tickets of the queries that were answered. -/
  answered : List ℕ
  /-- The ids that lookups were given. -/
  ids : List ℕ
  /-- The network generation when the resolver was called for an id. -/
  started : ℕ → Option ℕ
  /-- The lookup that the local answer under a key came from, and the records it was completed with. -/
  origin : Bytes → Option (ℕ × List LocalRecord)

inductive Event where
  | begin
  | packet (call : ℕ) (packet : Bytes) (now : UInt64)
  | readResolver (call : ℕ)
  /-- The section under the lock; `found` is the order in which the hash map lists what expired. -/
  | resolveLocally (call : ℕ) (found : List ℕ)
  | resolve (call : ℕ)
  | completeLocal (id : ℕ) (records : Option (List LocalRecord))
  | answer (call : ℕ) (now : UInt64)
  | setNetwork (network : Text)
  | setLocalResolver (present : Bool)
  /-- What else happens to the handler: forwarded queries complete, lists change, caches forget. -/
  | dns (call : Call)
  | tick (seconds : ℕ)

/-- The blocklist that an event brings in. -/
def Event.blocklist? : Event → Option DomainSet
  | .dns call => call.blocklist?
  | _ => none

/-- The calls of the handler that have nothing to do with local names. -/
def isUpstream : Call → Bool
  | .complete .. | .setBlocklist _ | .setAllowlist _ | .forget .. => true
  | .handlePacket .. | .completeLocal .. | .setNetwork _ => false

namespace World

def start (blocklist : Option DomainSet) : World :=
  ⟨.new blocklist, false, .empty, [], 0, 0, [], [], fun _ => none, fun _ => none⟩

/-- The local queries that no section has accepted yet. -/
def incoming (world : World) : List Query := world.calls.flatMap Phase.incoming

/-- The queries that calls are about to answer. -/
def held (world : World) : List Query := world.calls.flatMap Phase.held

/-- All queries that have no answer yet. -/
def queries (world : World) : List Query := world.incoming ++ world.localJobs.queries ++ world.held

def setCall (world : World) (call : ℕ) (phase : Phase) : World := { world with calls := world.calls.set call phase }

/-- One packet of a batch. A forwarded query that cannot be queued is completed at once, which is a
call of the handler of its own. -/
def packet (libraries : Libraries) (world : World) (call : ℕ) (packet : Bytes) (now : UInt64) : Option World :=
  match world.calls[call]? with
  | some (.collecting jobs) => do
      let (handler, outcome) ← world.handler.handlePacket libraries packet now
      let world := { world with handler := handler }
      match outcome with
      | .localJob job =>
          some { world.setCall call (.collecting (jobs ++ [⟨world.tickets, job⟩])) with tickets := world.tickets + 1 }
      | _ => some world
  | _ => none

/-- `resolve_locally` begins, if the batch has local queries. -/
def readResolver (world : World) (call : ℕ) : Option World :=
  match world.calls[call]? with
  | some (.collecting jobs) =>
      if jobs.isEmpty then none else some (world.setCall call (.queueing world.resolver jobs))
  | _ => none

/-- The section of `resolve_locally` under the lock. -/
def resolveLocally (deadline : ℕ) (world : World) (call : ℕ) (found : List ℕ) : Option World :=
  match world.calls[call]? with
  | some (.queueing resolver jobs) =>
      if found.isPerm (world.localJobs.expired world.clock deadline) then do
        let work ← Section.run world.localJobs resolver world.clock found jobs
        some { world.setCall call (.resolve work.calls work.failed) with
          localJobs := work.jobs
          ids := world.ids ++ work.calls.map ResolveCall.id }
      else none
  | _ => none

/-- One call of the resolver, outside the lock. -/
def resolve (world : World) (call : ℕ) : Option World :=
  match world.calls[call]? with
  | some (.resolving (next :: calls) failed) =>
      some { world.setCall call (.resolve calls failed) with
        started := Function.update world.started next.id (some world.handler.localState.generation) }
  | _ => none

/-- The removal of `complete_local`; nothing happens for an id that does not wait. -/
def completeLocal (world : World) (id : ℕ) (records : Option (List LocalRecord)) : World :=
  match world.localJobs.remove id with
  | some (lookup, jobs) =>
      { world with localJobs := jobs, calls := world.calls ++ [.answering (some id) records lookup.jobs] }
  | none => world

/-- Answers one query that a call holds. -/
def answer (libraries : Libraries) (world : World) (call : ℕ) (now : UInt64) : Option World :=
  match world.calls[call]? with
  | some (.answering source records (query :: jobs)) => do
      let (handler, _) ← world.handler.completeLocal libraries query.job records now
      some { world.setCall call (.answering source records jobs) with
        handler := handler
        answered := world.answered ++ [query.ticket]
        origin := if world.handler.keepsAnswer libraries.decoder query.job records then
            Function.update world.origin (cacheKey query.job.key query.job.requester) (Option.map₂ Prod.mk source records)
          else world.origin }
  | _ => none

/-- One step of the engine, if the event is possible. -/
def step (libraries : Libraries) (deadline : ℕ) (world : World) : Event → Option World
  | .begin => some { world with calls := world.calls ++ [.collecting []] }
  | .packet call bytes now => world.packet libraries call bytes now
  | .readResolver call => world.readResolver call
  | .resolveLocally call found => world.resolveLocally deadline call found
  | .resolve call => world.resolve call
  | .completeLocal id records => some (world.completeLocal id records)
  | .answer call now => world.answer libraries call now
  | .setNetwork network => some { world with handler := world.handler.setNetwork network }
  | .setLocalResolver present => some { world with resolver := present }
  | .dns call => if isUpstream call then some { world with handler := world.handler.call libraries call } else none
  | .tick seconds => some { world with clock := world.clock + seconds }

/-- The world after a history of events, newest first, if they were possible. -/
def after (libraries : Libraries) (deadline : ℕ) (blocklist : Option DomainSet) (history : List Event) : Option World :=
  Machine.run (step libraries deadline) (start blocklist) history

/-- The lookups are in order, ids are never reused, and every query is in one place: it is incoming,
waits for a lookup, is held by a call, or has been answered, and that once. -/
structure Placed (world : World) : Prop where
  wf : world.localJobs.Wf
  ids : world.ids = List.range world.localJobs.nextId
  places : (world.queries.map Query.ticket ++ world.answered).Perm (List.range world.tickets)

/-- No call panics: one with packets, queries to queue or queries to answer can always go on. -/
structure Live (libraries : Libraries) (deadline : ℕ) (world : World) : Prop where
  packet : ∀ call jobs, world.calls[call]? = some (.collecting jobs) →
    ∀ bytes now, (world.packet libraries call bytes now).isSome
  resolveLocally : ∀ call resolver jobs, world.calls[call]? = some (.queueing resolver jobs) →
    ∀ found, found.Perm (world.localJobs.expired world.clock deadline) →
      (world.resolveLocally deadline call found).isSome
  answer : ∀ call source records query jobs, world.calls[call]? = some (.answering source records (query :: jobs)) →
    ∀ now, (world.answer libraries call now).isSome

/-- The answer under a key was made from the records of a lookup for which the resolver was called
after the last change of network. -/
def OfNetwork (decoder : Decoder) (world : World) (key : Bytes) (answer : UpstreamAnswer) : Prop :=
  ∃ id found question requester, world.origin key = some (id, found) ∧
    world.started id = some world.handler.localState.generation ∧ key = cacheKey question requester ∧
    DnsHandler.checkLocal decoder question (some found) = some (.ok answer)

/-- The resolver completes a waiting lookup only after it was called for it. -/
def Completes (world : World) : Event → Prop
  | .completeLocal id _ => world.localJobs.waiting.lookup id = none ∨ (world.started id).isSome
  | _ => True

/-- No query joins a lookup for which the resolver was called on an earlier network than the one the
query arrived on. -/
def JoinsCurrent (world : World) : Event → Prop
  | .resolveLocally call found => ∀ resolver jobs, world.calls[call]? = some (.queueing resolver jobs) →
      ∀ query ∈ jobs, ∀ id lookup began, world.localJobs.waiting.lookup id = some lookup → id ∉ found →
        Section.question query = some lookup.question → world.started id = some began → query.job.network ≤ began
  | _ => True

instance (world : World) : (event : Event) → Decidable (world.Completes event)
  | .completeLocal .. => inferInstanceAs (Decidable (_ ∨ _))
  | .begin | .packet .. | .readResolver _ | .resolveLocally .. | .resolve _ | .answer .. | .setNetwork _
  | .setLocalResolver _ | .dns _ | .tick _ => isTrue trivial

/-- The queries that the section of a call goes through. -/
def queueing (world : World) (call : ℕ) : List Query :=
  match world.calls[call]? with
  | some (.queueing _ jobs) => jobs
  | _ => []

theorem joinsCurrent_iff {world : World} {call : ℕ} {found : List ℕ} :
    world.JoinsCurrent (.resolveLocally call found) ↔ ∀ query ∈ world.queueing call,
      ∀ waiting ∈ world.localJobs.waiting.entries, waiting.1 ∉ found →
        Section.question query = some waiting.2.question → ∀ began ∈ world.started waiting.1,
          query.job.network ≤ began := by
  unfold queueing
  constructor
  · intro joins query member waiting stored new same began start
    split at member
    · next resolver jobs there =>
      exact joins resolver jobs there query member _ _ began (AList.mem_lookup_iff.mpr stored) new same start
    · cases member
  · intro joins resolver jobs there query member id lookup began waits new same start
    rw [there] at joins
    exact joins query member ⟨id, lookup⟩ (AList.mem_lookup_iff.mp waits) new same began start

instance (world : World) : (event : Event) → Decidable (world.JoinsCurrent event)
  | .resolveLocally .. => decidable_of_iff' _ joinsCurrent_iff
  | .begin | .packet .. | .readResolver _ | .completeLocal .. | .resolve _ | .answer .. | .setNetwork _
  | .setLocalResolver _ | .dns _ | .tick _ => isTrue trivial

end World

end Tollgate.Engine
