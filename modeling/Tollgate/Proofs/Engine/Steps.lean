import Tollgate.Model.Engine.World
import Tollgate.Proofs.Engine.LocalJobs

/-! # What a step of the engine does

`Stepped` says once what each event can do to the world, with the guards under which it happens; every
invariant is proved by cases on it. `Moved` says what a step does to the queries without an answer: one
arrives, one is answered, or they only change places.
-/

namespace Tollgate.Engine

open Dns List

theorem Phase.held_resolve (calls : List ResolveCall) (failed : List Query) :
    (Phase.resolve calls failed).held = failed := by
  unfold Phase.resolve
  split <;> rfl

theorem Phase.incoming_resolve (calls : List ResolveCall) (failed : List Query) :
    (Phase.resolve calls failed).incoming = [] := by
  unfold Phase.resolve
  split <;> rfl

namespace World

/-- The world after a section of `resolve_locally`. -/
def queued (world : World) (call : ℕ) (work : Section) : World :=
  { world.setCall call (.resolve work.calls work.failed) with
    localJobs := work.jobs
    ids := world.ids ++ work.calls.map ResolveCall.id }

/-- The world after one of a call's queries was answered. -/
def replied (world : World) (libraries : Libraries) (call : ℕ) (source : Option ℕ) (records : Option (List LocalRecord))
    (query : Query) (jobs : List Query) (handler : DnsHandler) : World :=
  { world.setCall call (.answering source records jobs) with
    handler := handler
    answered := world.answered ++ [query.ticket]
    origin := if world.handler.keepsAnswer libraries.decoder query.job records then
        Function.update world.origin (cacheKey query.job.key query.job.requester) (Option.map₂ Prod.mk source records)
      else world.origin }

/-- What an event does to the world, and when. -/
inductive Stepped (libraries : Libraries) (deadline : ℕ) (world : World) : Event → World → Prop where
  | begin : Stepped libraries deadline world .begin { world with calls := world.calls ++ [.collecting []] }
  | accepts {call : ℕ} {bytes : Bytes} {now : UInt64} {jobs : List Query} {handler : DnsHandler} {job : ForwardJob}
      (found : world.calls[call]? = some (.collecting jobs))
      (handled : world.handler.handlePacket libraries bytes now = some (handler, .localJob job)) :
      Stepped libraries deadline world (.packet call bytes now)
        { world with
          handler := handler
          calls := world.calls.set call (.collecting (jobs ++ [⟨world.tickets, job⟩]))
          tickets := world.tickets + 1 }
  | handles {call : ℕ} {bytes : Bytes} {now : UInt64} {handler : DnsHandler} {outcome : Outcome}
      (handled : world.handler.handlePacket libraries bytes now = some (handler, outcome)) :
      Stepped libraries deadline world (.packet call bytes now) { world with handler := handler }
  | readResolver {call : ℕ} {jobs : List Query} (found : world.calls[call]? = some (.collecting jobs)) :
      Stepped libraries deadline world (.readResolver call) (world.setCall call (.queueing world.resolver jobs))
  | resolveLocally {call : ℕ} {expired : List ℕ} {resolver : Bool} {jobs : List Query} {work : Section}
      (found : world.calls[call]? = some (.queueing resolver jobs))
      (ran : Section.run world.localJobs resolver world.clock expired jobs = some work) :
      Stepped libraries deadline world (.resolveLocally call expired) (world.queued call work)
  | resolve {call : ℕ} {first : ResolveCall} {calls : List ResolveCall} {failed : List Query}
      (found : world.calls[call]? = some (.resolving (first :: calls) failed)) :
      Stepped libraries deadline world (.resolve call)
        { world.setCall call (.resolve calls failed) with
          started := Function.update world.started first.id (some world.handler.localState.generation) }
  | completes {id : ℕ} {records : Option (List LocalRecord)} {lookup : LocalLookup} {jobs : LocalJobs}
      (removed : world.localJobs.remove id = some (lookup, jobs)) :
      Stepped libraries deadline world (.completeLocal id records)
        { world with localJobs := jobs, calls := world.calls ++ [.answering (some id) records lookup.jobs] }
  | ignores {id : ℕ} {records : Option (List LocalRecord)} (unknown : world.localJobs.remove id = none) :
      Stepped libraries deadline world (.completeLocal id records) world
  | answer {call : ℕ} {now : UInt64} {source : Option ℕ} {records : Option (List LocalRecord)} {query : Query}
      {jobs : List Query} {handler : DnsHandler} {packet : Bytes}
      (found : world.calls[call]? = some (.answering source records (query :: jobs)))
      (completed : world.handler.completeLocal libraries query.job records now = some (handler, packet)) :
      Stepped libraries deadline world (.answer call now)
        (world.replied libraries call source records query jobs handler)
  | setNetwork (network : Text) :
      Stepped libraries deadline world (.setNetwork network) { world with handler := world.handler.setNetwork network }
  | setLocalResolver (present : Bool) :
      Stepped libraries deadline world (.setLocalResolver present) { world with resolver := present }
  | dns {call : Call} (upstream : isUpstream call = true) :
      Stepped libraries deadline world (.dns call) { world with handler := world.handler.call libraries call }
  | tick (seconds : ℕ) : Stepped libraries deadline world (.tick seconds) { world with clock := world.clock + seconds }

variable {libraries : Libraries} {deadline : ℕ} {world next : World} {event : Event}

theorem packet_stepped {call : ℕ} {bytes : Bytes} {now : UInt64}
    (stepped : world.packet libraries call bytes now = some next) :
    Stepped libraries deadline world (.packet call bytes now) next := by
  unfold packet at stepped
  split at stepped
  · next jobs found =>
    obtain ⟨⟨handler, outcome⟩, handled, stepped⟩ := Option.bind_eq_some_iff.mp stepped
    dsimp only at stepped
    split at stepped
    · obtain rfl := Option.some.inj stepped
      exact .accepts found handled
    · obtain rfl := Option.some.inj stepped
      exact .handles handled
  · cases stepped

theorem readResolver_stepped {call : ℕ} (stepped : world.readResolver call = some next) :
    Stepped libraries deadline world (.readResolver call) next := by
  unfold readResolver at stepped
  split at stepped
  · next jobs found =>
    split at stepped
    · cases stepped
    · obtain rfl := Option.some.inj stepped
      exact .readResolver found
  · cases stepped

theorem resolveLocally_stepped {call : ℕ} {expired : List ℕ}
    (stepped : world.resolveLocally deadline call expired = some next) :
    Stepped libraries deadline world (.resolveLocally call expired) next := by
  unfold resolveLocally at stepped
  split at stepped
  · next resolver jobs found =>
    split at stepped
    · obtain ⟨work, ran, stepped⟩ := Option.bind_eq_some_iff.mp stepped
      obtain rfl := Option.some.inj stepped
      exact .resolveLocally found ran
    · cases stepped
  · cases stepped

theorem resolve_stepped {call : ℕ} (stepped : world.resolve call = some next) :
    Stepped libraries deadline world (.resolve call) next := by
  unfold resolve at stepped
  split at stepped
  · next first calls failed found =>
    obtain rfl := Option.some.inj stepped
    exact .resolve found
  · cases stepped

theorem completeLocal_stepped (id : ℕ) (records : Option (List LocalRecord)) :
    Stepped libraries deadline world (.completeLocal id records) (world.completeLocal id records) := by
  unfold completeLocal
  split
  · next lookup jobs removed => exact .completes removed
  · next unknown => exact .ignores unknown

theorem answer_stepped {call : ℕ} {now : UInt64} (stepped : world.answer libraries call now = some next) :
    Stepped libraries deadline world (.answer call now) next := by
  unfold answer at stepped
  split at stepped
  · next source records query jobs found =>
    obtain ⟨⟨handler, packet⟩, completed, stepped⟩ := Option.bind_eq_some_iff.mp stepped
    obtain rfl := Option.some.inj stepped
    exact .answer found completed
  · cases stepped

/-- Every step is one of these. -/
theorem stepped_of_step (stepped : world.step libraries deadline event = some next) :
    Stepped libraries deadline world event next := by
  cases event with
  | begin => exact Option.some.inj stepped ▸ .begin
  | packet call bytes now => exact packet_stepped stepped
  | readResolver call => exact readResolver_stepped stepped
  | resolveLocally call found => exact resolveLocally_stepped stepped
  | resolve call => exact resolve_stepped stepped
  | completeLocal id records => exact Option.some.inj stepped ▸ completeLocal_stepped id records
  | answer call now => exact answer_stepped stepped
  | setNetwork network => exact Option.some.inj stepped ▸ .setNetwork network
  | setLocalResolver present => exact Option.some.inj stepped ▸ .setLocalResolver present
  | dns call =>
    simp only [step] at stepped
    split at stepped
    · next upstream => exact Option.some.inj stepped ▸ .dns upstream
    · cases stepped
  | tick seconds => exact Option.some.inj stepped ▸ .tick seconds

/-- What a step does to the queries that have no answer yet. -/
inductive Moved (libraries : Libraries) (world next : World) : Prop where
  | stays (same : next.queries.Perm world.queries) (tickets : next.tickets = world.tickets)
      (answered : next.answered = world.answered) : Moved libraries world next
  | arrives (query : Query) (more : next.queries.Perm (query :: world.queries)) (ticket : query.ticket = world.tickets)
      (tickets : next.tickets = world.tickets + 1) (answered : next.answered = world.answered)
      (handled : ∃ bytes now, world.handler.handlePacket libraries bytes now = some (next.handler, .localJob query.job)) :
      Moved libraries world next
  | leaves (query : Query) (fewer : world.queries.Perm (query :: next.queries)) (tickets : next.tickets = world.tickets)
      (answered : next.answered = world.answered ++ [query.ticket]) : Moved libraries world next

/-- The queries of a world in which one call has gone on. -/
theorem count_queries_set {calls : List Phase} {call : ℕ} {old : Phase} (found : calls[call]? = some old) (new : Phase)
    (query : Query) :
    ((calls.set call new).flatMap Phase.incoming).count query + ((calls.set call new).flatMap Phase.held).count query +
        old.incoming.count query + old.held.count query =
      (calls.flatMap Phase.incoming).count query + (calls.flatMap Phase.held).count query +
        new.incoming.count query + new.held.count query := by
  have incoming := count_flatMap_set Phase.incoming found new query
  have held := count_flatMap_set Phase.held found new query
  omega

theorem Stepped.moved (stepped : Stepped libraries deadline world event next) (wf : world.localJobs.Wf) :
    Moved libraries world next := by
  cases stepped with
  | begin =>
    refine .stays ?_ rfl rfl
    simp only [queries, incoming, held, flatMap_append, flatMap_cons, flatMap_nil, Phase.incoming, Phase.held, append_nil]
    exact .refl _
  | @accepts call bytes now jobs handler job found handled =>
    refine .arrives ⟨world.tickets, job⟩ (perm_iff_count.mpr fun query => ?_) rfl rfl rfl ⟨bytes, now, handled⟩
    have trade := count_queries_set found (.collecting (jobs ++ [⟨world.tickets, job⟩])) query
    simp only [Phase.incoming, Phase.held, count_append, count_nil] at trade
    simp only [queries, incoming, held, count_append, count_cons, count_nil] at trade ⊢
    omega
  | @readResolver call jobs found =>
    refine .stays (perm_iff_count.mpr fun query => ?_) rfl rfl
    have trade := count_queries_set found (.queueing world.resolver jobs) query
    simp only [Phase.incoming, Phase.held] at trade
    simp only [queries, incoming, held, setCall, count_append]
    omega
  | @resolveLocally call expired resolver jobs work found ran =>
    refine .stays (perm_iff_count.mpr fun query => ?_) rfl rfl
    have trade := count_queries_set found (.resolve work.calls work.failed) query
    have moved := (Section.run_queries wf ran).count_eq query
    rw [Phase.held_resolve, Phase.incoming_resolve] at trade
    simp only [Phase.incoming, Phase.held, count_nil, count_append] at trade moved
    simp only [queries, incoming, held, queued, setCall, count_append]
    omega
  | @resolve call first calls failed found =>
    refine .stays (perm_iff_count.mpr fun query => ?_) rfl rfl
    have trade := count_queries_set found (.resolve calls failed) query
    rw [Phase.held_resolve, Phase.incoming_resolve] at trade
    simp only [Phase.incoming, Phase.held] at trade
    simp only [queries, incoming, held, setCall, count_append]
    omega
  | completes removed =>
    refine .stays (perm_iff_count.mpr fun query => ?_) rfl rfl
    have moved := (remove_queries removed).count_eq query
    rw [count_append] at moved
    simp only [queries, incoming, held, flatMap_append, flatMap_cons, flatMap_nil, Phase.incoming, Phase.held, count_append,
      count_nil]
    omega
  | @answer call now source records query jobs handler packet found completed =>
    refine .leaves query (perm_iff_count.mpr fun other => ?_) rfl rfl
    have trade := count_queries_set found (.answering source records jobs) other
    simp only [Phase.incoming, Phase.held, count_cons] at trade
    simp only [queries, incoming, held, replied, setCall, count_append, count_cons]
    omega
  | handles | ignores | setNetwork | setLocalResolver | dns | tick => exact .stays (.refl _) rfl rfl

end World

end Tollgate.Engine
