import Tollgate.Model.Engine.Delivery
import Tollgate.Proofs.Dns.Replies

/-! # Where a forwarded query goes

`Stepped` says once what each event can do, with the guards under which it happens. A step moves a query from
one place to another, and takes one out only by answering it or by dropping what a runtime had that was told
to end. The handler stays ready and every query is one it handed out, so every reply can be built and is a
reply to its query.
-/

namespace Tollgate.Delivery

open Dns Engine Forwarding List

namespace World

/-- What an event does to the world, and when. -/
inductive Stepped (libraries : Libraries) (options : Options) (world : World) : Event → World → Prop where
  | begins : Stepped libraries options world .begin { world with calls := world.calls ++ [.collecting world.running] }
  | accepts {call : ℕ} {bytes : Bytes} {now : UInt64} {sender : Option ℕ} {handler : DnsHandler} {job : ForwardJob}
      (found : world.calls[call]? = some (.collecting sender))
      (handled : world.handler.handlePacket libraries bytes now = some (handler, .forward job)) :
      Stepped libraries options world (.packet call bytes now)
        { world with
          handler := handler
          calls := world.calls.set call (.sending sender ⟨world.jobs.length, job⟩)
          jobs := world.jobs ++ [job] }
  | handles {call : ℕ} {bytes : Bytes} {now : UInt64} {handler : DnsHandler} {outcome : Outcome}
      (handled : world.handler.handlePacket libraries bytes now = some (handler, outcome)) :
      Stepped libraries options world (.packet call bytes now) { world with handler := handler }
  | refuses {call : ℕ} {sender : Option ℕ} {query : Query} (error : String)
      (found : world.calls[call]? = some (.sending sender query)) :
      Stepped libraries options world (.trySend call) (world.setCall call (.failing sender query error))
  | queues {call index : ℕ} {sender : Option ℕ} {query : Query} {runtime : Runtime}
      (found : world.calls[call]? = some (.sending sender query)) (there : world.runtimes[index]? = some runtime)
      (room : runtime.queue.length < options.capacity) :
      Stepped libraries options world (.trySend call)
        ((world.setRuntime index { runtime with queue := runtime.queue ++ [query] }).setCall call (.collecting sender))
  | fails {call : ℕ} {now : UInt64} {sender : Option ℕ} {query : Query} {error : String} {handler : DnsHandler}
      {packet : Bytes} (found : world.calls[call]? = some (.failing sender query error))
      (completed : world.handler.complete libraries query.job (.error error) now = some (handler, packet)) :
      Stepped libraries options world (.fail call now)
        { world with
          handler := handler
          calls := world.calls.set call (.collecting sender)
          answered := world.answered ++ [(query.ticket, packet)] }
  | finishes {call : ℕ} {sender : Option ℕ} (found : world.calls[call]? = some (.collecting sender)) :
      Stepped libraries options world (.finish call) (world.setCall call .returned)
  | starts (free : world.running = none) : Stepped libraries options world .start
        { world with running := some world.runtimes.length, runtimes := world.runtimes ++ [.new options] }
  | stops {index : ℕ} {runtime : Runtime} (there : world.runtimes[index]? = some runtime) :
      Stepped libraries options world .stop
        { world with
          running := none
          runtimes := world.runtimes.set index { runtime with stopping := true } }
  | acquires {index : ℕ} {runtime : Runtime} (choice : ForwardChoice) (there : world.runtimes[index]? = some runtime)
      (waits : runtime.forwarder = .acquiring) (free : runtime.permits ≠ 0) :
      Stepped libraries options world (.forward index choice)
        (world.setRuntime index { runtime with permits := runtime.permits - 1, forwarder := .receiving })
  | receives {index : ℕ} {runtime : Runtime} {query : Query} {queue : List Query} (choice : ForwardChoice)
      (there : world.runtimes[index]? = some runtime) (waits : runtime.forwarder = .receiving)
      (first : runtime.queue = query :: queue) :
      Stepped libraries options world (.forward index choice)
        (world.setRuntime index
          { runtime with forwarder := .acquiring, queue := queue, tasks := runtime.tasks ++ [.resolving query] })
  | aborts {index : ℕ} {runtime : Runtime} (choice : ForwardChoice) (there : world.runtimes[index]? = some runtime)
      (stopping : runtime.stopping = true) :
      Stepped libraries options world (.forward index choice)
        (world.abort index runtime (runtime.permits + runtime.forwarder.permits))
  | resolves {index place : ℕ} {runtime : Runtime} {query : Query} {answer : Except String Bytes}
      (there : world.runtimes[index]? = some runtime) (found : runtime.tasks[place]? = some (.resolving query)) :
      Stepped libraries options world (.task index place (.resolved answer))
        (world.setRuntime index { runtime with tasks := runtime.tasks.set place (.completing query answer) })
  | cancels {index place : ℕ} {runtime : Runtime} {query : Query}
      (there : world.runtimes[index]? = some runtime) (found : runtime.tasks[place]? = some (.resolving query))
      (stopping : runtime.stopping = true) :
      Stepped libraries options world (.task index place .cancelled)
        { world.setRuntime index
            { runtime with tasks := runtime.tasks.set place .done, permits := runtime.permits + 1 } with
          lost := world.lost ++ [(query.ticket, index)] }
  | completes {index place : ℕ} {runtime : Runtime} {query : Query} {answer : Except String Bytes} {now : UInt64}
      {handler : DnsHandler} {packet : Bytes} (there : world.runtimes[index]? = some runtime)
      (found : runtime.tasks[place]? = some (.completing query answer))
      (completed : world.handler.complete libraries query.job answer now = some (handler, packet)) :
      Stepped libraries options world (.task index place (.complete now))
        { world.setRuntime index
            { runtime with
              tasks := runtime.tasks.set place (.delivering query packet), permits := runtime.permits + 1 } with
          handler := handler }
  | delivers {index place : ℕ} {runtime : Runtime} {query : Query} {packet : Bytes}
      (there : world.runtimes[index]? = some runtime) (found : runtime.tasks[place]? = some (.delivering query packet)) :
      Stepped libraries options world (.task index place .deliver)
        { world.setRuntime index { runtime with tasks := runtime.tasks.set place .done } with
          answered := world.answered ++ [(query.ticket, packet)] }
  | dns {call : Call} : Stepped libraries options world (.dns call)
        { world with handler := world.handler.call libraries call }

variable {libraries : Libraries} {options : Options} {world next : World} {event : Event}

theorem packet_stepped {call : ℕ} {bytes : Bytes} {now : UInt64}
    (stepped : world.packet libraries call bytes now = some next) :
    Stepped libraries options world (.packet call bytes now) next := by
  unfold packet at stepped
  split at stepped
  · next sender found =>
    obtain ⟨⟨handler, outcome⟩, handled, stepped⟩ := Option.bind_eq_some_iff.mp stepped
    dsimp only at stepped
    split at stepped
    · obtain rfl := Option.some.inj stepped
      exact .accepts found handled
    · obtain rfl := Option.some.inj stepped
      exact .handles handled
  · cases stepped

theorem trySend_stepped {call : ℕ} (stepped : world.trySend options call = some next) :
    Stepped libraries options world (.trySend call) next := by
  unfold trySend at stepped
  split at stepped
  · next sender query found =>
    split at stepped
    · obtain rfl := Option.some.inj stepped
      exact .refuses _ found
    · next index runtime there =>
      obtain ⟨other, -, there⟩ := Option.bind_eq_some_iff.mp there
      obtain ⟨same, there, equal⟩ := Option.map_eq_some_iff.mp there
      cases equal
      split at stepped
      · obtain rfl := Option.some.inj stepped
        exact .refuses _ found
      · split at stepped
        · obtain rfl := Option.some.inj stepped
          exact .refuses _ found
        · next room =>
          obtain rfl := Option.some.inj stepped
          exact .queues found there (Nat.lt_of_not_le room)
  · cases stepped

theorem fail_stepped {call : ℕ} {now : UInt64} (stepped : world.fail libraries call now = some next) :
    Stepped libraries options world (.fail call now) next := by
  unfold fail at stepped
  split at stepped
  · next sender query error found =>
    obtain ⟨⟨handler, packet⟩, completed, stepped⟩ := Option.bind_eq_some_iff.mp stepped
    obtain rfl := Option.some.inj stepped
    exact .fails found completed
  · cases stepped

theorem finish_stepped {call : ℕ} (stepped : world.finish call = some next) :
    Stepped libraries options world (.finish call) next := by
  unfold finish at stepped
  split at stepped
  · next sender found =>
    obtain rfl := Option.some.inj stepped
    exact .finishes found
  · cases stepped

theorem forward_stepped {index : ℕ} {runtime : Runtime} {choice : ForwardChoice}
    (there : world.runtimes[index]? = some runtime)
    (stepped : world.forward index runtime runtime.forwarder choice = some next) :
    Stepped libraries options world (.forward index choice) next := by
  have abort : _ → Stepped libraries options world (.forward index choice) _ := Stepped.aborts choice there
  generalize waits : runtime.forwarder = forwarder at stepped abort
  cases forwarder with
  | acquiring =>
    cases choice with
    | go =>
      obtain ⟨free, stepped⟩ := Option.ite_none_left_eq_some.mp stepped
      obtain rfl := Option.some.inj stepped
      exact .acquires _ there waits free
    | closed => cases stepped
    | aborted =>
      obtain ⟨stopping, stepped⟩ := Option.ite_none_right_eq_some.mp stepped
      obtain rfl := Option.some.inj stepped
      exact abort stopping
  | receiving =>
    cases choice with
    | go =>
      simp only [forward] at stepped
      split at stepped
      · cases stepped
      · next query queue first =>
        obtain rfl := Option.some.inj stepped
        exact .receives _ there waits first
    | closed =>
      obtain ⟨closed, stepped⟩ := Option.ite_none_right_eq_some.mp stepped
      obtain rfl := Option.some.inj stepped
      simp only [Bool.and_eq_true] at closed
      exact abort closed.1.2
    | aborted =>
      obtain ⟨stopping, stepped⟩ := Option.ite_none_right_eq_some.mp stepped
      obtain rfl := Option.some.inj stepped
      exact abort stopping
  | stopped => cases choice <;> cases stepped

theorem task_stepped {index place : ℕ} {runtime : Runtime} {task : Task} {choice : TaskChoice}
    (there : world.runtimes[index]? = some runtime) (found : runtime.tasks[place]? = some task)
    (stepped : world.task libraries index place runtime task choice = some next) :
    Stepped libraries options world (.task index place choice) next := by
  cases task with
  | resolving query =>
    cases choice with
    | resolved answer =>
      obtain rfl := Option.some.inj stepped
      exact .resolves there found
    | cancelled =>
      obtain ⟨stopping, stepped⟩ := Option.ite_none_right_eq_some.mp stepped
      obtain rfl := Option.some.inj stepped
      exact .cancels there found stopping
    | complete | deliver => cases stepped
  | completing query answer =>
    cases choice with
    | complete now =>
      obtain ⟨⟨handler, packet⟩, completed, stepped⟩ := Option.bind_eq_some_iff.mp stepped
      obtain rfl := Option.some.inj stepped
      exact .completes there found completed
    | resolved | cancelled | deliver => cases stepped
  | delivering query packet =>
    cases choice with
    | deliver =>
      obtain rfl := Option.some.inj stepped
      exact .delivers there found
    | resolved | cancelled | complete => cases stepped
  | done => cases choice <;> cases stepped

theorem stepped_of_step (stepped : world.step libraries options event = some next) :
    Stepped libraries options world event next := by
  cases event with
  | begin =>
    obtain rfl := Option.some.inj stepped
    exact .begins
  | packet => exact packet_stepped stepped
  | trySend => exact trySend_stepped stepped
  | fail => exact fail_stepped stepped
  | finish => exact finish_stepped stepped
  | start =>
    obtain ⟨free, stepped⟩ := Option.ite_none_left_eq_some.mp stepped
    obtain rfl := Option.some.inj stepped
    exact .starts (Option.not_isSome_iff_eq_none.mp free)
  | stop =>
    obtain ⟨index, -, stepped⟩ := Option.bind_eq_some_iff.mp stepped
    obtain ⟨runtime, there, stepped⟩ := Option.bind_eq_some_iff.mp stepped
    obtain rfl := Option.some.inj stepped
    exact .stops there
  | forward index choice =>
    obtain ⟨runtime, there, stepped⟩ := Option.bind_eq_some_iff.mp stepped
    exact forward_stepped there stepped
  | task index place choice =>
    obtain ⟨runtime, there, stepped⟩ := Option.bind_eq_some_iff.mp stepped
    obtain ⟨task, found, stepped⟩ := Option.bind_eq_some_iff.mp stepped
    exact task_stepped there found stepped
  | dns call =>
    obtain ⟨-, stepped⟩ := Option.ite_none_right_eq_some.mp stepped
    obtain rfl := Option.some.inj stepped
    exact .dns

/-- What a step does to the queries without an answer. -/
inductive Moved (libraries : Libraries) (world next : World) : Prop where
  | stays (same : next.pending.Perm world.pending) (jobs : next.jobs = world.jobs)
      (answered : next.answered = world.answered) (lost : next.lost = world.lost)
  | arrives (job : ForwardJob) (more : next.pending.Perm (⟨world.jobs.length, job⟩ :: world.pending))
      (jobs : next.jobs = world.jobs ++ [job]) (answered : next.answered = world.answered)
      (lost : next.lost = world.lost)
      (handled : ∃ bytes now handler, world.handler.handlePacket libraries bytes now = some (handler, .forward job))
  | answers (query : Query) (packet : Bytes) (fewer : world.pending.Perm (query :: next.pending))
      (jobs : next.jobs = world.jobs) (answered : next.answered = world.answered ++ [(query.ticket, packet)])
      (lost : next.lost = world.lost)
  | loses (index : ℕ) (runtime : Runtime) (queries : List Query) (fewer : world.pending.Perm (queries ++ next.pending))
      (jobs : next.jobs = world.jobs) (answered : next.answered = world.answered)
      (lost : next.lost = world.lost ++ queries.map fun query => (query.ticket, index))
      (there : world.runtimes[index]? = some runtime) (stopping : runtime.stopping = true)

section Counts

variable {call index : ℕ} {old phase : Phase} {runtime changed : Runtime} {query : Query}

theorem count_of_call (next : World) (found : world.calls[call]? = some old) (calls : next.calls = world.calls.set call phase)
    (runtimes : next.runtimes = world.runtimes) (query : Query) :
    next.pending.count query + old.queries.count query = world.pending.count query + phase.queries.count query := by
  have traded := count_flatMap_set Phase.queries found phase query
  rw [pending, pending, count_append, count_append, calls, runtimes]
  omega

theorem count_of_runtime (next : World) (there : world.runtimes[index]? = some runtime) (calls : next.calls = world.calls)
    (runtimes : next.runtimes = world.runtimes.set index changed) (query : Query) :
    next.pending.count query + runtime.queries.count query = world.pending.count query + changed.queries.count query := by
  have traded := count_flatMap_set Runtime.queries there changed query
  rw [pending, pending, count_append, count_append, calls, runtimes]
  omega

/-- A call changes its phase and keeps its query. -/
theorem perm_of_call (found : world.calls[call]? = some old) (calls : next.calls = world.calls.set call phase)
    (runtimes : next.runtimes = world.runtimes) (same : phase.queries = old.queries) :
    next.pending.Perm world.pending := by
  rw [perm_iff_count]
  intro query
  have traded := count_of_call next found calls runtimes query
  rw [same] at traded
  omega

/-- The queries of a runtime change places. -/
theorem perm_of_runtime (there : world.runtimes[index]? = some runtime) (calls : next.calls = world.calls)
    (runtimes : next.runtimes = world.runtimes.set index changed) (same : changed.queries.Perm runtime.queries) :
    next.pending.Perm world.pending := by
  rw [perm_iff_count]
  intro query
  have traded := count_of_runtime next there calls runtimes query
  rw [same.count_eq] at traded
  omega

/-- A runtime is left without some of its queries. -/
theorem fewer_of_runtime (gone : List Query) (there : world.runtimes[index]? = some runtime)
    (calls : next.calls = world.calls) (runtimes : next.runtimes = world.runtimes.set index changed)
    (fewer : runtime.queries.Perm (gone ++ changed.queries)) : world.pending.Perm (gone ++ next.pending) := by
  rw [perm_iff_count]
  intro query
  have traded := count_of_runtime next there calls runtimes query
  rw [fewer.count_eq, count_append] at traded
  rw [count_append]
  omega

/-- A task is replaced. -/
theorem queries_set_perm {place : ℕ} {task after : Task} {permits : ℕ} (gone : List Query)
    (found : runtime.tasks[place]? = some task) (same : task.queries = gone ++ after.queries) :
    runtime.queries.Perm
      (gone ++ Runtime.queries { runtime with tasks := runtime.tasks.set place after, permits := permits }) := by
  rw [perm_iff_count]
  intro query
  have traded := count_flatMap_set Task.queries found after query
  rw [same, count_append] at traded
  simp only [Runtime.queries, count_append]
  omega

end Counts

theorem Stepped.moved (stepped : Stepped libraries options world event next) : Moved libraries world next := by
  cases stepped with
  | begins =>
    refine .stays (Perm.of_eq ?_) rfl rfl rfl
    simp [pending, Phase.queries]
  | @accepts call bytes now sender handler job found handled =>
    refine .arrives job ?_ rfl rfl rfl ⟨bytes, now, handler, handled⟩
    rw [perm_iff_count]
    intro query
    have traded := count_of_call { world with
      handler := handler
      calls := world.calls.set call (.sending sender ⟨world.jobs.length, job⟩)
      jobs := world.jobs ++ [job] } found rfl rfl query
    rw [show (Phase.collecting sender).queries = [] from rfl, count_nil, Nat.add_zero] at traded
    rw [traded, count_cons, Phase.queries, count_singleton]
  | handles | dns => exact .stays (.refl _) rfl rfl rfl
  | refuses error found => exact .stays (perm_of_call found rfl rfl rfl) rfl rfl rfl
  | @queues call index sender query runtime found there room =>
    refine .stays ?_ rfl rfl rfl
    rw [perm_iff_count]
    intro other
    have first := count_of_runtime (world.setRuntime index { runtime with queue := runtime.queue ++ [query] })
      there rfl rfl other
    generalize queued : world.setRuntime index { runtime with queue := runtime.queue ++ [query] } = middle at first ⊢
    have calls : middle.calls[call]? = some (.sending sender query) := by
      subst queued
      exact found
    have second := count_of_call (middle.setCall call (.collecting sender)) calls rfl rfl other
    simp only [Phase.queries, Runtime.queries, count_append, count_nil] at first second
    omega
  | @fails call now sender query error handler packet found completed =>
    refine .answers query packet ?_ rfl rfl rfl
    rw [perm_iff_count]
    intro other
    have traded := count_of_call { world with
      handler := handler
      calls := world.calls.set call (.collecting sender)
      answered := world.answered ++ [(query.ticket, packet)] } found rfl rfl other
    rw [show (Phase.collecting sender).queries = [] from rfl, count_nil, Nat.add_zero] at traded
    rw [← traded, count_cons, Phase.queries, count_singleton]
  | finishes found => exact .stays (perm_of_call found rfl rfl rfl) rfl rfl rfl
  | starts free =>
    refine .stays (Perm.of_eq ?_) rfl rfl rfl
    simp [pending, Runtime.queries, Runtime.new]
  | stops there => exact .stays (perm_of_runtime there rfl rfl (.refl _)) rfl rfl rfl
  | acquires choice there => exact .stays (perm_of_runtime there rfl rfl (.refl _)) rfl rfl rfl
  | receives choice there waits first =>
    refine .stays (perm_of_runtime there rfl rfl ?_) rfl rfl rfl
    simp only [Runtime.queries, first, flatMap_append, flatMap_singleton, Task.queries]
    rw [← append_assoc]
    exact perm_append_singleton _ _
  | @aborts index runtime choice there stopping =>
    exact .loses index runtime runtime.queue (fewer_of_runtime _ there rfl rfl (.refl _)) rfl rfl rfl there stopping
  | resolves there found =>
    refine .stays (perm_of_runtime there rfl rfl ?_) rfl rfl rfl
    exact (queries_set_perm [] found rfl).symm
  | @cancels index place runtime query there found stopping =>
    refine .loses index runtime [query] (fewer_of_runtime _ there rfl rfl ?_) rfl rfl rfl there stopping
    exact queries_set_perm [query] found rfl
  | completes there found =>
    refine .stays (perm_of_runtime there rfl rfl ?_) rfl rfl rfl
    exact (queries_set_perm [] found rfl).symm
  | @delivers index place runtime query packet there found =>
    refine .answers query packet (fewer_of_runtime [query] there rfl rfl ?_) rfl rfl rfl
    exact queries_set_perm [query] found rfl

theorem Moved.placed (moved : Moved libraries world next) (placed : world.Placed) : next.Placed := by
  unfold Placed at placed ⊢
  cases moved with
  | stays same jobs answered lost =>
    rw [jobs, answered, lost]
    exact (((same.map _).append_right _).append_right _).trans placed
  | arrives job more jobs answered lost =>
    rw [jobs, answered, lost, length_append, length_singleton, range_succ]
    refine (((more.map _).append_right _).append_right _).trans ?_
    rw [map_cons, cons_append, cons_append]
    exact (placed.cons _).trans (perm_append_singleton _ _).symm
  | answers query packet fewer jobs answered lost =>
    rw [jobs, answered, lost]
    refine .trans ?_ ((((fewer.map _).append_right _).append_right _).symm.trans placed)
    rw [map_cons, map_append, map_singleton, ← append_assoc]
    exact (perm_append_singleton _ _).append_right _
  | loses index runtime queries fewer jobs answered lost =>
    rw [jobs, answered, lost]
    refine .trans ?_ ((((fewer.map _).append_right _).append_right _).symm.trans placed)
    rw [perm_iff_count]
    intro ticket
    have tickets : (queries.map fun query => (query.ticket, index)).map Prod.fst = queries.map Query.ticket := map_map
    simp only [map_append, tickets, count_append]
    omega

/-- A runtime that was told to end stays so. -/
theorem Stepped.keeps_stopping (stepped : Stepped libraries options world event next) {index : ℕ} {runtime : Runtime}
    (there : world.runtimes[index]? = some runtime) (stopping : runtime.stopping = true) :
    ∃ after, next.runtimes[index]? = some after ∧ after.stopping = true := by
  have kept : ∀ (place : ℕ) (old changed : Runtime), world.runtimes[place]? = some old →
      (old.stopping = true → changed.stopping = true) →
      ∃ after, (world.runtimes.set place changed)[index]? = some after ∧ after.stopping = true := by
    intro place old changed found same
    by_cases here : place = index
    · subst here
      obtain rfl := Option.some.inj (found.symm.trans there)
      exact ⟨changed, getElem?_set_of_some found changed, same stopping⟩
    · exact ⟨runtime, (getElem?_set_ne here).trans there, stopping⟩
  cases stepped with
  | begins | accepts | handles | refuses | fails | finishes | dns => exact ⟨runtime, there, stopping⟩
  | starts => exact ⟨runtime, getElem?_concat_of_some there _, stopping⟩
  | stops found => exact kept _ _ _ found fun _ => rfl
  | queues _ found => exact kept _ _ _ found id
  | acquires _ found => exact kept _ _ _ found id
  | receives _ found => exact kept _ _ _ found id
  | aborts _ found => exact kept _ _ _ found id
  | resolves found => exact kept _ _ _ found id
  | cancels found => exact kept _ _ _ found id
  | completes found => exact kept _ _ _ found id
  | delivers found => exact kept _ _ _ found id

theorem Stepped.lostByStop (stepped : Stepped libraries options world event next) (lost : world.LostByStop) :
    next.LostByStop := by
  intro dropped member
  have old : dropped ∈ world.lost → ∃ runtime, next.runtimes[dropped.2]? = some runtime ∧ runtime.stopping = true := by
    intro before
    obtain ⟨runtime, there, stopping⟩ := lost dropped before
    exact stepped.keeps_stopping there stopping
  cases stepped.moved with
  | stays _ _ _ same | arrives _ _ _ _ same | answers _ _ _ _ _ same => exact old (same ▸ member)
  | loses index runtime queries _ _ _ more there stopping =>
    rw [more] at member
    rcases mem_append.mp member with before | new
    · exact old before
    · obtain ⟨query, -, rfl⟩ := mem_map.mp new
      exact stepped.keeps_stopping there stopping

/-- The queue is within its capacity, and the permits that are free and taken are as many as there are. -/
structure Runtime.Counted (options : Options) (runtime : Runtime) : Prop where
  queue : runtime.queue.length ≤ options.capacity
  permits : runtime.permits + runtime.forwarder.permits + (runtime.tasks.map Task.permits).sum = options.inFlight

/-- A task is replaced, and what it no longer has is free. -/
theorem Runtime.Counted.set {runtime : Runtime} {place permits : ℕ} {task after : Task}
    (counted : Runtime.Counted options runtime) (found : runtime.tasks[place]? = some task)
    (balance : permits + after.permits = runtime.permits + task.permits) :
    Runtime.Counted options { runtime with tasks := runtime.tasks.set place after, permits := permits } := by
  refine ⟨counted.queue, ?_⟩
  have traded := sum_map_set Task.permits found after
  have before := counted.permits
  simp only
  omega

theorem Stepped.counted (stepped : Stepped libraries options world event next)
    (counted : ∀ runtime ∈ world.runtimes, Runtime.Counted options runtime) :
    ∀ runtime ∈ next.runtimes, Runtime.Counted options runtime := by
  have changes : ∀ (place : ℕ) (old changed : Runtime), world.runtimes[place]? = some old →
      (Runtime.Counted options old → Runtime.Counted options changed) →
      ∀ runtime ∈ world.runtimes.set place changed, Runtime.Counted options runtime := by
    intro place old changed found same runtime member
    rcases mem_or_eq_of_mem_set member with before | rfl
    · exact counted runtime before
    · exact same (counted old (mem_of_getElem? found))
  cases stepped with
  | begins | accepts | handles | refuses | fails | finishes | dns => exact counted
  | starts =>
    intro runtime member
    rcases mem_append.mp member with before | new
    · exact counted runtime before
    · obtain rfl := mem_singleton.mp new
      exact ⟨Nat.zero_le _, rfl⟩
  | stops there => exact changes _ _ _ there fun old => ⟨old.queue, old.permits⟩
  | queues _ there room =>
    refine changes _ _ _ there fun old => ⟨?_, old.permits⟩
    rw [length_append]
    exact room
  | acquires _ there waits free =>
    refine changes _ _ _ there fun old => ⟨old.queue, ?_⟩
    have permits := old.permits
    rw [waits] at permits
    simp only [Forwarder.permits] at permits ⊢
    omega
  | receives _ there waits first =>
    refine changes _ _ _ there fun old => ⟨?_, ?_⟩
    · have queue := old.queue
      rw [first, length_cons] at queue
      exact (Nat.le_succ _).trans queue
    · have permits := old.permits
      rw [waits] at permits
      simp only [Forwarder.permits, map_append, map_singleton, sum_append, sum_singleton, Task.permits] at permits ⊢
      omega
  | aborts _ there =>
    refine changes _ _ _ there fun old => ⟨Nat.zero_le _, ?_⟩
    exact old.permits
  | resolves there found => exact changes _ _ _ there fun old => old.set found rfl
  | cancels there found => exact changes _ _ _ there fun old => old.set found rfl
  | completes there found => exact changes _ _ _ there fun old => old.set found rfl
  | delivers there found => exact changes _ _ _ there fun old => old.set found rfl

/-- A step calls the handler at most once. -/
theorem Stepped.effect (stepped : Stepped libraries options world event next) :
    ∃ call, Effect libraries.decoder world.handler call next.handler ∧ ∀ set ∈ call.blocklist?, set ∈ event.blocklist? := by
  cases stepped with
  | @accepts call bytes now sender handler job found handled =>
    have effect := call_effect libraries world.handler (.handlePacket bytes now)
    rw [DnsHandler.call, handled] at effect
    exact ⟨_, effect, nofun⟩
  | @handles call bytes now handler outcome handled =>
    have effect := call_effect libraries world.handler (.handlePacket bytes now)
    rw [DnsHandler.call, handled] at effect
    exact ⟨_, effect, nofun⟩
  | @fails call now sender query error handler packet found completed =>
    have effect := call_effect libraries world.handler (.complete query.job (.error error) now)
    rw [DnsHandler.call, completed] at effect
    exact ⟨_, effect, nofun⟩
  | @completes index place runtime query answer now handler packet there found completed =>
    have effect := call_effect libraries world.handler (.complete query.job answer now)
    rw [DnsHandler.call, completed] at effect
    exact ⟨_, effect, nofun⟩
  | @dns call => exact ⟨call, call_effect libraries world.handler call, fun set member => member⟩
  | begins | refuses | queues | finishes | starts | stops | acquires | receives | aborts | resolves | cancels | delivers =>
    exact ⟨.forget (fun _ => true) (fun _ => true), .reads (.refl _), nofun⟩

/-- The handler is ready, each query is the one its ticket says, and what is to be delivered is a reply. -/
structure Usable (libraries : Libraries) (world : World) : Prop where
  ready : world.handler.Ready
  known : ∀ query ∈ world.pending, world.jobs[query.ticket]? = some query.job
  jobs : ∀ job ∈ world.jobs, ∃ message, job.Of message
  replies : ∀ runtime ∈ world.runtimes, ∀ query packet, Task.delivering query packet ∈ runtime.tasks →
    Replies libraries query.job packet
  answered : world.Answered libraries

theorem usable_start {blocklist : Option DomainSet} (loaded : ∀ set ∈ blocklist, set.Loaded) :
    (start blocklist).Usable libraries :=
  ⟨ready_new loaded, nofun, nofun, nofun, nofun⟩

theorem mem_pending_of_call {call : ℕ} {phase : Phase} {query : Query} (found : world.calls[call]? = some phase)
    (member : query ∈ phase.queries) : query ∈ world.pending :=
  mem_append_left _ (mem_flatMap.mpr ⟨phase, mem_of_getElem? found, member⟩)

theorem mem_pending_of_task {index place : ℕ} {runtime : Runtime} {task : Task} {query : Query}
    (there : world.runtimes[index]? = some runtime) (found : runtime.tasks[place]? = some task)
    (member : query ∈ task.queries) : query ∈ world.pending := by
  refine mem_append_right _ (mem_flatMap.mpr ⟨runtime, mem_of_getElem? there, mem_append_right _ ?_⟩)
  exact mem_flatMap.mpr ⟨task, mem_of_getElem? found, member⟩

theorem Usable.of_pending (usable : world.Usable libraries) {query : Query} (member : query ∈ world.pending) :
    ∃ message, query.job.Of message :=
  usable.jobs _ (mem_of_getElem? (usable.known query member))

theorem Moved.known (moved : Moved libraries world next)
    (known : ∀ query ∈ world.pending, world.jobs[query.ticket]? = some query.job) :
    ∀ query ∈ next.pending, next.jobs[query.ticket]? = some query.job := by
  intro query member
  cases moved with
  | stays same jobs =>
    rw [jobs]
    exact known query (same.mem_iff.mp member)
  | arrives job more jobs =>
    rw [jobs]
    rcases mem_cons.mp (more.mem_iff.mp member) with rfl | old
    · exact getElem?_concat_length
    · exact getElem?_concat_of_some (known query old) job
  | answers gone packet fewer jobs =>
    rw [jobs]
    exact known query (fewer.mem_iff.mpr (mem_cons_of_mem _ member))
  | loses index runtime gone fewer jobs =>
    rw [jobs]
    exact known query (fewer.mem_iff.mpr (mem_append_right _ member))

/-- What was asked stays on record. -/
theorem Moved.jobs (moved : Moved libraries world next) {ticket : ℕ} {job : ForwardJob}
    (asked : world.jobs[ticket]? = some job) : next.jobs[ticket]? = some job := by
  cases moved with
  | stays _ jobs | answers _ _ _ jobs | loses _ _ _ _ jobs => rwa [jobs]
  | arrives new _ jobs =>
    rw [jobs]
    exact getElem?_concat_of_some asked new

section Live

variable (faithful : libraries.decoder.Faithful) (writes : libraries.packets.Writes)
include faithful writes

theorem replies_of_complete {job : ForwardJob} {message : Message} (of : job.Of message) {handler after : DnsHandler}
    {answer : Except String Bytes} {now : UInt64} {packet : Bytes}
    (completed : handler.complete libraries job answer now = some (after, packet)) : Replies libraries job packet := by
  obtain ⟨_, payload, reply, _, -, answers, written, same⟩ := complete_serves faithful writes of handler answer now
  cases completed.symm.trans same
  exact ⟨message, payload, reply, of.prefixed, answers, written⟩

theorem Stepped.jobs_of (stepped : Stepped libraries options world event next) (usable : world.Usable libraries) :
    ∀ job ∈ next.jobs, ∃ message, job.Of message := by
  cases stepped.moved with
  | stays _ jobs | answers _ _ _ jobs | loses _ _ _ _ jobs =>
    rw [jobs]
    exact usable.jobs
  | arrives new _ jobs _ _ handled =>
    obtain ⟨bytes, now, handler, handled⟩ := handled
    obtain ⟨after, outcome, same, serves⟩ := handlePacket_serves faithful writes usable.ready bytes now
    cases handled.symm.trans same
    intro job member
    rw [jobs] at member
    rcases mem_append.mp member with old | here
    · exact usable.jobs job old
    · obtain rfl := mem_singleton.mp here
      exact serves _ (.inl rfl)

theorem Stepped.replies (stepped : Stepped libraries options world event next) (usable : world.Usable libraries) :
    ∀ runtime ∈ next.runtimes, ∀ query packet, Task.delivering query packet ∈ runtime.tasks →
      Replies libraries query.job packet := by
  have changes : ∀ (place : ℕ) (old changed : Runtime), world.runtimes[place]? = some old →
      (∀ query packet, Task.delivering query packet ∈ changed.tasks →
        Task.delivering query packet ∈ old.tasks ∨ Replies libraries query.job packet) →
      ∀ runtime ∈ world.runtimes.set place changed, ∀ query packet, Task.delivering query packet ∈ runtime.tasks →
        Replies libraries query.job packet := by
    intro place old changed found tasks runtime member query packet delivers
    rcases mem_or_eq_of_mem_set member with before | rfl
    · exact usable.replies runtime before query packet delivers
    · rcases tasks query packet delivers with before | new
      · exact usable.replies old (mem_of_getElem? found) query packet before
      · exact new
  cases stepped with
  | begins | accepts | handles | refuses | fails | finishes | dns => exact usable.replies
  | starts =>
    intro runtime member
    rcases mem_append.mp member with before | new
    · exact usable.replies runtime before
    · obtain rfl := mem_singleton.mp new
      exact nofun
  | stops there => exact changes _ _ _ there fun _ _ member => .inl member
  | queues _ there => exact changes _ _ _ there fun _ _ member => .inl member
  | acquires _ there => exact changes _ _ _ there fun _ _ member => .inl member
  | aborts _ there => exact changes _ _ _ there fun _ _ member => .inl member
  | receives _ there =>
    refine changes _ _ _ there fun query packet member => ?_
    rcases mem_append.mp member with before | new
    · exact .inl before
    · cases mem_singleton.mp new
  | resolves there | cancels there | delivers there =>
    refine changes _ _ _ there fun query packet member => ?_
    rcases mem_or_eq_of_mem_set member with before | new
    · exact .inl before
    · cases new
  | completes there found completed =>
    refine changes _ _ _ there fun query packet member => ?_
    rcases mem_or_eq_of_mem_set member with before | new
    · exact .inl before
    · cases new
      obtain ⟨message, of⟩ := usable.of_pending (mem_pending_of_task there found mem_cons_self)
      exact .inr (replies_of_complete faithful writes of completed)

theorem Stepped.answered (stepped : Stepped libraries options world event next) (usable : world.Usable libraries) :
    next.Answered libraries := by
  have moved := stepped.moved
  intro sent member
  have old : sent ∈ world.answered → ∃ job, next.jobs[sent.1]? = some job ∧ Replies libraries job sent.2 := by
    intro before
    obtain ⟨job, asked, replies⟩ := usable.answered sent before
    exact ⟨job, moved.jobs asked, replies⟩
  cases stepped with
  | begins | accepts | handles | refuses | queues | finishes | starts | stops | acquires | receives | aborts | resolves
  | cancels | completes | dns => exact old member
  | fails found completed =>
    rcases mem_append.mp member with before | new
    · exact old before
    · obtain rfl := mem_singleton.mp new
      have pending := mem_pending_of_call found mem_cons_self
      obtain ⟨message, of⟩ := usable.of_pending pending
      exact ⟨_, usable.known _ pending, replies_of_complete faithful writes of completed⟩
  | delivers there found =>
    rcases mem_append.mp member with before | new
    · exact old before
    · obtain rfl := mem_singleton.mp new
      refine ⟨_, usable.known _ (mem_pending_of_task there found mem_cons_self), ?_⟩
      exact usable.replies _ (mem_of_getElem? there) _ _ (mem_of_getElem? found)

theorem Stepped.usable (stepped : Stepped libraries options world event next)
    (loaded : ∀ set ∈ event.blocklist?, set.Loaded) (usable : world.Usable libraries) : next.Usable libraries := by
  obtain ⟨call, effect, lists⟩ := stepped.effect
  refine ⟨effect.ready faithful (fun set member => loaded set (lists set member)) usable.ready,
    stepped.moved.known usable.known, stepped.jobs_of faithful writes usable, stepped.replies faithful writes usable,
    stepped.answered faithful writes usable⟩

/-- Nothing that a call or a task still has to do panics. -/
theorem Usable.live (usable : world.Usable libraries) : world.Live libraries := by
  refine ⟨fun call sender found bytes now => ?_, fun call sender query error found now => ?_,
    fun index runtime place query answer there found now => ?_⟩
  · obtain ⟨after, outcome, handled, -⟩ := handlePacket_serves faithful writes usable.ready bytes now
    simp only [packet, found, handled, Option.bind_eq_bind, Option.bind_some]
    split <;> rfl
  · obtain ⟨message, of⟩ := usable.of_pending (mem_pending_of_call found mem_cons_self)
    obtain ⟨after, -, -, packet, -, -, -, completed⟩ := complete_serves faithful writes of world.handler (.error error) now
    simp only [fail, found, completed, Option.bind_eq_bind, Option.bind_some]
    rfl
  · obtain ⟨message, of⟩ := usable.of_pending (mem_pending_of_task there found mem_cons_self)
    obtain ⟨after, -, -, packet, -, -, -, completed⟩ := complete_serves faithful writes of world.handler answer now
    simp only [task, completed, Option.bind_eq_bind, Option.bind_some]
    rfl

end Live

end World

end Tollgate.Delivery
