import Tollgate.Model.Dns.Handler
import Tollgate.ToMathlib.Retain

/-! # Lookups handed to the local resolver

Queries for local names wait for a lookup, by id, and a second query for the same question waits for
the lookup that is already running. `Section` is the work of `resolve_locally` under its lock. A query
carries a ticket, which is not part of the program: it tells queries apart that are otherwise equal. The ids
are counted in 64 bits, which no run brings to overflow.
-/

namespace Tollgate.Engine

open Dns

/-- Lookups that may wait at once. -/
def localPending : ℕ := 64

/-- Queries that may wait for one lookup. -/
def localJobsPerLookup : ℕ := 16

/-- A question's name in lowercase, its type and its class. -/
structure LocalQuestion where
  name : Text
  rtype : UInt16
  rclass : UInt16
deriving DecidableEq, Repr

/-- A local query, told apart from all others by its ticket. -/
structure Query where
  ticket : ℕ
  job : ForwardJob
deriving DecidableEq, Repr

/-- One lookup handed to the local resolver and the queries waiting for it. -/
structure LocalLookup where
  question : LocalQuestion
  jobs : List Query
  since : ℕ
deriving DecidableEq, Repr

/-- A call of `LocalResolver::resolve`. -/
structure ResolveCall where
  id : ℕ
  name : Text
  rtype : UInt16
  rclass : UInt16
deriving DecidableEq, Repr

/-- The lookups that wait, by id, and their ids by question. -/
structure LocalJobs where
  nextId : ℕ
  waiting : AList fun _ : ℕ => LocalLookup
  byQuestion : AList fun _ : LocalQuestion => ℕ

namespace LocalJobs

def empty : LocalJobs := ⟨0, ∅, ∅⟩

def remove (jobs : LocalJobs) (id : ℕ) : Option (LocalLookup × LocalJobs) := do
  let lookup ← jobs.waiting.lookup id
  some (lookup, { jobs with
    waiting := jobs.waiting.erase id
    byQuestion := jobs.byQuestion.erase lookup.question })

/-- The lookups past their deadline; a hash map lists them in any order. -/
def expired (jobs : LocalJobs) (clock deadline : ℕ) : List ℕ :=
  (jobs.waiting.entries.filter fun entry => decide (clock - entry.2.since ≥ deadline)).map Sigma.fst

/-- Removes lookups and collects the queries that waited for them. -/
def expire (jobs : LocalJobs) : List ℕ → List Query × LocalJobs
  | [] => ([], jobs)
  | id :: rest =>
      match jobs.remove id with
      | some (lookup, jobs) =>
          let (failed, jobs) := expire jobs rest
          (lookup.jobs ++ failed, jobs)
      | none => expire jobs rest

/-- The queries that wait. -/
def queries (jobs : LocalJobs) : List Query := jobs.waiting.entries.flatMap fun entry => entry.2.jobs

/-- The two maps are inverse to each other, every id was given out, and the limits hold. -/
structure Wf (jobs : LocalJobs) : Prop where
  inverse : ∀ question id, jobs.byQuestion.lookup question = some id ↔
    ∃ lookup, jobs.waiting.lookup id = some lookup ∧ lookup.question = question
  fresh : ∀ id lookup, jobs.waiting.lookup id = some lookup → id < jobs.nextId
  few : jobs.waiting.size ≤ localPending
  shared : ∀ id lookup, jobs.waiting.lookup id = some lookup →
    1 ≤ lookup.jobs.length ∧ lookup.jobs.length ≤ localJobsPerLookup

end LocalJobs

/-- The work of `resolve_locally` under the lock: the lookups, the queries that cannot wait, and the
calls to make. -/
structure Section where
  jobs : LocalJobs
  failed : List Query
  calls : List ResolveCall

namespace Section

def fail (work : Section) (query : Query) : Section := { work with failed := work.failed ++ [query] }

/-- The question under which a query is looked up. -/
def question (query : Query) : Option LocalQuestion := do
  let (rtype, rclass) ← query.job.requester.qtypeAndClass
  some ⟨query.job.name.toAsciiLowercase, rtype, rclass⟩

/-- Lets a query wait for a lookup that is already running. The lookup of an indexed question is
expected to be there. -/
def join (work : Section) (id : ℕ) (query : Query) : Option Section := do
  let lookup ← work.jobs.waiting.lookup id
  if lookup.jobs.length < localJobsPerLookup then
    some { work with jobs := { work.jobs with
      waiting := work.jobs.waiting.insert id { lookup with jobs := lookup.jobs ++ [query] } } }
  else some (work.fail query)

/-- Starts a lookup for a query. -/
def launch (work : Section) (question : LocalQuestion) (clock : ℕ) (query : Query) : Section :=
  let id := work.jobs.nextId
  { work with
    calls := work.calls ++ [⟨id, query.job.name, question.rtype, question.rclass⟩]
    jobs :=
      { nextId := id + 1
        byQuestion := work.jobs.byQuestion.insert question id
        waiting := work.jobs.waiting.insert id ⟨question, [query], clock⟩ } }

/-- One query of the batch. -/
def add (resolver : Bool) (clock : ℕ) (work : Section) (query : Query) : Option Section :=
  if !resolver then some (work.fail query)
  else do
    let question ← Section.question query
    match work.jobs.byQuestion.lookup question with
    | some id => work.join id query
    | none =>
        if work.jobs.waiting.size ≥ localPending then some (work.fail query)
        else some (work.launch question clock query)

/-- The whole section: lookups past their deadline fail first, in the order they are found. -/
def run (jobs : LocalJobs) (resolver : Bool) (clock : ℕ) (found : List ℕ) (queries : List Query) : Option Section :=
  let (failed, jobs) := jobs.expire found
  queries.foldlM (add resolver clock) ⟨jobs, failed, []⟩

end Section

end Tollgate.Engine
