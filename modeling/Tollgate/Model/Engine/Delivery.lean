import Tollgate.Model.Dns.Session
import Tollgate.Model.Engine.LocalJobs
import Tollgate.Model.Engine.Resolving

/-! # Forwarded queries, from the packet to the reply

`handle_packets` clones the queue's sender of the runtime that is running when it is called, and puts the
queries that have to be forwarded into that queue. It answers a query itself if there is no runtime, if the
runtime no longer receives or if the queue is full. `forward` takes one of its permits, then a job, and
starts a task, which resolves the query, builds the reply and delivers it. `stop` only tells a runtime to
end: its loop and its tasks are dropped some time later. The fields from `jobs` on record what happened and
are read by no step; a query is known by its ticket, the place of its job in `jobs`.
-/

namespace Tollgate.Delivery

open Dns Engine Forwarding

structure Options where
  forwardQueue : ℕ
  forwardInFlight : ℕ

/-- The capacity of the queue. -/
def Options.capacity (options : Options) : ℕ := max options.forwardQueue 1

def Options.inFlight (options : Options) : ℕ := max options.forwardInFlight 1

/-- Where a call of `handle_packets` stands, with the runtime it has a sender of. -/
inductive Phase where
  | collecting (sender : Option ℕ)
  /-- About to put a query into the queue. -/
  | sending (sender : Option ℕ) (query : Query)
  /-- About to answer a query that could not be queued. -/
  | failing (sender : Option ℕ) (query : Query) (error : String)
  | returned
deriving DecidableEq, Repr

def Phase.sender : Phase → Option ℕ
  | collecting sender | sending sender _ | failing sender _ _ => sender
  | returned => none

def Phase.queries : Phase → List Query
  | sending _ query | failing _ query _ => [query]
  | collecting _ | returned => []

/-- Where the task of a job stands. It gives its permit back when it has the reply. -/
inductive Task where
  | resolving (query : Query)
  | completing (query : Query) (answer : Except String Bytes)
  | delivering (query : Query) (packet : Bytes)
  | done

namespace Task

def queries : Task → List Query
  | resolving query | completing query _ | delivering query _ => [query]
  | done => []

def permits : Task → ℕ
  | resolving _ | completing _ _ => 1
  | delivering _ _ | done => 0

end Task

inductive TaskChoice where
  /-- The resolver returns. -/
  | resolved (answer : Except String Bytes)
  | complete (now : UInt64)
  | deliver
  /-- The runtime drops the task. -/
  | cancelled

/-- A runtime that was started. -/
structure Runtime where
  queue : List Query
  forwarder : Forwarder
  /-- Permits of `forward` that are free. -/
  permits : ℕ
  tasks : List Task
  /-- Whether it was told to end. -/
  stopping : Bool

namespace Runtime

def new (options : Options) : Runtime := ⟨[], .acquiring, options.inFlight, [], false⟩

def queries (runtime : Runtime) : List Query := runtime.queue ++ runtime.tasks.flatMap Task.queries

end Runtime

structure World where
  handler : DnsHandler
  /-- The runtime that is running. -/
  running : Option ℕ
  runtimes : List Runtime
  calls : List Phase
  jobs : List ForwardJob
  /-- The tickets of the queries that were answered, and the packets. -/
  answered : List (ℕ × Bytes)
  /-- The tickets of the queries that were dropped, and the runtimes that dropped them. -/
  lost : List (ℕ × ℕ)

inductive Event where
  /-- `handle_packets` is called. -/
  | begin
  | packet (call : ℕ) (packet : Bytes) (now : UInt64)
  | trySend (call : ℕ)
  | fail (call : ℕ) (now : UInt64)
  | finish (call : ℕ)
  | start
  | stop
  | forward (runtime : ℕ) (choice : ForwardChoice)
  | task (runtime index : ℕ) (choice : TaskChoice)
  /-- What else happens to the handler: local queries complete, lists and networks change, caches forget. -/
  | dns (call : Call)

/-- The blocklist that an event brings in. -/
def Event.blocklist? : Event → Option DomainSet
  | .dns call => call.blocklist?
  | _ => none

/-- The calls of the handler that have nothing to do with forwarded queries. -/
def isApart : Call → Bool
  | .completeLocal .. | .setNetwork _ | .setBlocklist _ | .setAllowlist _ | .forget .. => true
  | .handlePacket .. | .complete .. => false

namespace World

def start (blocklist : Option DomainSet) : World := ⟨.new blocklist, none, [], [], [], [], []⟩

/-- The queries that have no answer yet. -/
def pending (world : World) : List Query :=
  world.calls.flatMap Phase.queries ++ world.runtimes.flatMap Runtime.queries

def setCall (world : World) (call : ℕ) (phase : Phase) : World := { world with calls := world.calls.set call phase }

def setRuntime (world : World) (index : ℕ) (runtime : Runtime) : World :=
  { world with runtimes := world.runtimes.set index runtime }

def packet (libraries : Libraries) (world : World) (call : ℕ) (packet : Bytes) (now : UInt64) : Option World :=
  match world.calls[call]? with
  | some (.collecting sender) => do
      let (handler, outcome) ← world.handler.handlePacket libraries packet now
      let world := { world with handler := handler }
      match outcome with
      | .forward job =>
          some { world.setCall call (.sending sender ⟨world.jobs.length, job⟩) with jobs := world.jobs ++ [job] }
      | _ => some world
  | _ => none

/-- `try_send`: a runtime whose loop has ended no longer receives. -/
def trySend (options : Options) (world : World) (call : ℕ) : Option World :=
  match world.calls[call]? with
  | some (.sending sender query) =>
      match sender.bind fun index => world.runtimes[index]?.map (index, ·) with
      | none => some (world.setCall call (.failing sender query "the resolver is stopped"))
      | some (index, runtime) =>
          if runtime.forwarder = .stopped then
            some (world.setCall call (.failing sender query "the resolver is stopped"))
          else if runtime.queue.length ≥ options.capacity then
            some (world.setCall call (.failing sender query "too many queries are in flight"))
          else
            some ((world.setRuntime index { runtime with queue := runtime.queue ++ [query] }).setCall call
              (.collecting sender))
  | _ => none

/-- A query that could not be queued is answered by the call itself. -/
def fail (libraries : Libraries) (world : World) (call : ℕ) (now : UInt64) : Option World :=
  match world.calls[call]? with
  | some (.failing sender query error) => do
      let (handler, packet) ← world.handler.complete libraries query.job (.error error) now
      some { world.setCall call (.collecting sender) with
        handler := handler
        answered := world.answered ++ [(query.ticket, packet)] }
  | _ => none

def finish (world : World) (call : ℕ) : Option World :=
  match world.calls[call]? with
  | some (.collecting _) => some (world.setCall call .returned)
  | _ => none

/-- `start` makes a runtime, unless one is running. -/
def startRuntime (options : Options) (world : World) : Option World :=
  if world.running.isSome then none
  else some { world with
    running := some world.runtimes.length
    runtimes := world.runtimes ++ [.new options] }

/-- `stop` tells the runtime to end. -/
def stopRuntime (world : World) : Option World := do
  let index ← world.running
  let runtime ← world.runtimes[index]?
  some { world.setRuntime index { runtime with stopping := true } with running := none }

/-- The loop of a runtime that was told to end is dropped, and the queue with it. -/
def abort (world : World) (index : ℕ) (runtime : Runtime) (permits : ℕ) : World :=
  { world.setRuntime index { runtime with forwarder := .stopped, permits := permits, queue := [] } with
    lost := world.lost ++ runtime.queue.map fun query => (query.ticket, index) }

/-- One step of the loop of `forward`. -/
def forward (world : World) (index : ℕ) (runtime : Runtime) : Forwarder → ForwardChoice → Option World
  | .acquiring, .go =>
      if runtime.permits = 0 then none
      else some (world.setRuntime index { runtime with permits := runtime.permits - 1, forwarder := .receiving })
  | .receiving, .go =>
      match runtime.queue with
      | [] => none
      | query :: queue =>
          some (world.setRuntime index
            { runtime with forwarder := .acquiring, queue := queue, tasks := runtime.tasks ++ [.resolving query] })
  -- The queue is closed when every sender is dropped: the engine's and those of the calls.
  | .receiving, .closed =>
      if runtime.queue.isEmpty && runtime.stopping && world.calls.all fun phase => phase.sender != some index then
        some (world.abort index runtime (runtime.permits + 1))
      else none
  | .acquiring, .aborted => if runtime.stopping then some (world.abort index runtime runtime.permits) else none
  | .receiving, .aborted => if runtime.stopping then some (world.abort index runtime (runtime.permits + 1)) else none
  | _, _ => none

/-- One step of a task. -/
def task (libraries : Libraries) (world : World) (index place : ℕ) (runtime : Runtime) :
    Task → TaskChoice → Option World
  | .resolving query, .resolved answer =>
      some (world.setRuntime index { runtime with tasks := runtime.tasks.set place (.completing query answer) })
  | .resolving query, .cancelled =>
      if runtime.stopping then
        some { world.setRuntime index
            { runtime with tasks := runtime.tasks.set place .done, permits := runtime.permits + 1 } with
          lost := world.lost ++ [(query.ticket, index)] }
      else none
  | .completing query answer, .complete now => do
      let (handler, packet) ← world.handler.complete libraries query.job answer now
      some { world.setRuntime index
          { runtime with tasks := runtime.tasks.set place (.delivering query packet), permits := runtime.permits + 1 } with
        handler := handler }
  | .delivering query packet, .deliver =>
      some { world.setRuntime index { runtime with tasks := runtime.tasks.set place .done } with
        answered := world.answered ++ [(query.ticket, packet)] }
  | _, _ => none

/-- One step, if the event is possible. -/
def step (libraries : Libraries) (options : Options) (world : World) : Event → Option World
  | .begin => some { world with calls := world.calls ++ [.collecting world.running] }
  | .packet call bytes now => world.packet libraries call bytes now
  | .trySend call => world.trySend options call
  | .fail call now => world.fail libraries call now
  | .finish call => world.finish call
  | .start => world.startRuntime options
  | .stop => world.stopRuntime
  | .forward index choice => do
      let runtime ← world.runtimes[index]?
      world.forward index runtime runtime.forwarder choice
  | .task index place choice => do
      let runtime ← world.runtimes[index]?
      let task ← runtime.tasks[place]?
      world.task libraries index place runtime task choice
  | .dns call => if isApart call then some { world with handler := world.handler.call libraries call } else none

/-- The world after a history of events, newest first, if they were possible. -/
def after (libraries : Libraries) (options : Options) (blocklist : Option DomainSet) (history : List Event) :
    Option World := Machine.run (step libraries options) (start blocklist) history

/-- Every query is in one place: it is pending, was answered, and that once, or was dropped. -/
def Placed (world : World) : Prop :=
  (world.pending.map Query.ticket ++ world.answered.map Prod.fst ++ world.lost.map Prod.fst).Perm
    (List.range world.jobs.length)

/-- What was dropped was dropped by a runtime that had been told to end. -/
def LostByStop (world : World) : Prop :=
  ∀ dropped ∈ world.lost, ∃ runtime, world.runtimes[dropped.2]? = some runtime ∧ runtime.stopping = true

/-- No queue is longer than its capacity, and no more queries than permits are being resolved. -/
def Bounded (options : Options) (world : World) : Prop :=
  ∀ runtime ∈ world.runtimes, runtime.queue.length ≤ options.capacity ∧
    (runtime.tasks.map Task.permits).sum ≤ options.inFlight

/-- The packet is a reply to the query of a job. -/
def Replies (libraries : Libraries) (job : ForwardJob) (packet : Bytes) : Prop :=
  ∃ (query : Message) (payload : Bytes) (reply : Message), query.encode <+: job.query ∧
    query.Answers payload reply ∧ replyPacket libraries.packets job.server job.client payload = some packet

/-- Each packet that was sent back is a reply to the query with its ticket. -/
def Answered (libraries : Libraries) (world : World) : Prop :=
  ∀ sent ∈ world.answered, ∃ job, world.jobs[sent.1]? = some job ∧ Replies libraries job sent.2

/-- No step that is left panics: packets are handled and replies are built. -/
structure Live (libraries : Libraries) (world : World) : Prop where
  packet : ∀ call sender, world.calls[call]? = some (.collecting sender) →
    ∀ bytes now, (world.packet libraries call bytes now).isSome
  fail : ∀ call sender query error, world.calls[call]? = some (.failing sender query error) →
    ∀ now, (world.fail libraries call now).isSome
  complete : ∀ index runtime place query answer, world.runtimes[index]? = some runtime →
    runtime.tasks[place]? = some (.completing query answer) →
      ∀ now, (world.task libraries index place runtime (.completing query answer) (.complete now)).isSome

end World

end Tollgate.Delivery
