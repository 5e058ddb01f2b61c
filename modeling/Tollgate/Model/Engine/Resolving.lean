import Tollgate.Machine.Runs
import Tollgate.Model.Dns.HostResolver

/-! # The users of the DNS over HTTPS client

The engine resolves forwarded queries in tasks of their own, and the proxy looks up host names, over one
resolver. `forward` takes one of its permits before it takes a job from the queue, and the job's task gives
the permit back when it has the reply. Background queries to upstreams end and the marks of upstreams change
at any time. A step is one operation of one call, task or loop, in any order.
-/

namespace Tollgate.Forwarding

open Lookup

structure EngineOptions where
  forwardInFlight : ℕ

/-- The options of an engine that no test changes. -/
def EngineOptions.default : EngineOptions := ⟨Doh.maxInFlight - lookupPermits⟩

/-- Where the loop of `forward` stands. -/
inductive Forwarder where
  /-- Waits for a permit. -/
  | acquiring
  /-- Has a permit and waits for a job. -/
  | receiving
  | stopped
deriving DecidableEq, Repr

def Forwarder.permits : Forwarder → ℕ
  | receiving => 1
  | acquiring | stopped => 0

/-- Where the task of a job stands; it has a permit of `forward` until it is done. -/
inductive Task where
  | resolving (resolve : Doh.Resolve)
  /-- Is being dropped while it has an in-flight permit. -/
  | dropping
  /-- Has its reply, or is being dropped without an in-flight permit. -/
  | leaving
  | done

namespace Task

def permits : Task → ℕ
  | resolving _ | dropping | leaving => 1
  | done => 0

/-- The in-flight permits that the task has. -/
def held : Task → ℕ
  | resolving resolve => resolve.held
  | dropping => 1
  | leaving | done => 0

def resolves : Task → List Doh.Resolve
  | resolving resolve => [resolve]
  | _ => []

end Task

inductive TaskChoice where
  | go (choice : Doh.Resolve.Choice)
  /-- The runtime drops the task. -/
  | cancelled
deriving DecidableEq, Repr

inductive ForwardChoice where
  | go
  /-- The queue is closed. -/
  | closed
  /-- The task of the loop is aborted. -/
  | aborted
deriving DecidableEq, Repr

structure World where
  hosts : HostResolver
  calls : List Call
  /-- Permits of `forward` that are free. -/
  permits : ℕ
  forwarder : Forwarder
  /-- The queries of the jobs that wait. -/
  queue : List Bytes
  tasks : List Task

inductive Event where
  /-- An attempt marks an upstream. -/
  | mark (upstream downUntil : ℕ)
  /-- `reset_connections` comes to an upstream. -/
  | reset (upstream : ℕ)
  /-- A background query ends. -/
  | probed (upstream : ℕ)
  /-- A job arrives. -/
  | arrive (query : Bytes)
  | forward (choice : ForwardChoice)
  | task (index : ℕ) (choice : TaskChoice)
  /-- A lookup is asked for. -/
  | resolve (host : Text)
  | call (index : ℕ) (choice : Choice)
deriving DecidableEq, Repr

namespace World

def start (options : EngineOptions) (upstreams : ℕ) : World :=
  ⟨.new (.new upstreams), [], options.forwardInFlight, .acquiring, [], []⟩

def inner (world : World) : Doh.Inner := world.hosts.resources.inner

def withInner (world : World) (inner : Doh.Inner) : World :=
  { world with hosts := { world.hosts with resources := { world.hosts.resources with inner := inner } } }

def forward (world : World) : Forwarder → ForwardChoice → Option World
  | .acquiring, .go =>
      if world.permits = 0 then none else some { world with permits := world.permits - 1, forwarder := .receiving }
  | .acquiring, .aborted => some { world with forwarder := .stopped }
  | .receiving, .go =>
      match world.queue with
      | [] => none
      | query :: queue =>
          some { world with
            forwarder := .acquiring, queue := queue, tasks := world.tasks ++ [.resolving (.entering query)] }
  | .receiving, .closed =>
      if world.queue.isEmpty then some { world with permits := world.permits + 1, forwarder := .stopped } else none
  | .receiving, .aborted => some { world with permits := world.permits + 1, forwarder := .stopped }
  | _, _ => none

/-- A step of a task: the resolver, the free permits and the task after it. -/
def stepTask (inner : Doh.Inner) (permits : ℕ) : Task → TaskChoice → Option (Doh.Inner × ℕ × Task)
  | .resolving (.returned _), .go _ => some (inner, permits, .leaving)
  | .resolving resolve, .go choice =>
      (resolve.step inner choice).map fun next => (next.1, permits, .resolving next.2)
  | .resolving (.entering _), .cancelled => some (inner, permits, .leaving)
  | .resolving resolve, .cancelled => if resolve.awaits then some (inner, permits, .dropping) else none
  | .dropping, .go _ => some (inner.release, permits, .leaving)
  | .leaving, .go _ => some (inner, permits + 1, .done)
  | _, _ => none

/-- One step, if the event is possible. -/
def step (libraries : LookupLibraries) (world : World) : Event → Option World
  | .mark upstream downUntil => some (world.withInner (world.inner.mark upstream downUntil))
  | .reset upstream => some (world.withInner (world.inner.mark upstream 0))
  | .probed upstream =>
      if upstream ∈ world.inner.probes then some (world.withInner (world.inner.probed upstream)) else none
  | .arrive query => some { world with queue := world.queue ++ [query] }
  | .forward choice => world.forward world.forwarder choice
  | .task index choice => do
      let task ← world.tasks[index]?
      let (inner, permits, next) ← stepTask world.inner world.permits task choice
      some { world.withInner inner with permits := permits, tasks := world.tasks.set index next }
  | .resolve host => some { world with calls := world.calls ++ [.begin libraries host] }
  | .call index choice => do
      let call ← world.calls[index]?
      let (hosts, phase) ← world.hosts.advance libraries index call.host call.phase choice
      some { world with hosts := hosts, calls := world.calls.set index ⟨call.host, phase⟩ }

/-- The world after a history of events, newest first, if they were possible. -/
def after (libraries : LookupLibraries) (options : EngineOptions) (upstreams : ℕ) (history : List Event) :
    Option World := Machine.run (step libraries) (start options upstreams) history

/-- The calls of the DNS over HTTPS client's `resolve`, also those that have just returned. -/
def resolves (world : World) : List Doh.Resolve :=
  world.tasks.flatMap Task.resolves ++
    world.calls.flatMap fun call => call.phase.lookUp.elim [] LookUp.resolves

end World

end Tollgate.Forwarding
