import Tollgate.Proofs.Engine.Resolving
import Tollgate.ToMathlib.Retain

/-! # The DNS over HTTPS client is never busy

Permits are never lost: for each of the three semaphores, those that are free and those that someone has are
as many as there were. A task has at most one in-flight permit and has a permit of `forward` meanwhile, and a
lookup has at most two and has a turn meanwhile. So with a share for each that together is no more than the
client allows, whoever tries for an in-flight permit finds one. Background queries take none.
-/

namespace Tollgate.Forwarding

open Lookup

namespace Task

def Fine (task : Task) : Prop := ∀ resolve ∈ task.resolves, resolve.Unbusy

theorem fine_resolving {resolve : Doh.Resolve} : (resolving resolve).Fine ↔ resolve.Unbusy := by
  simp [Fine, resolves]

theorem held_le_permits (task : Task) : task.held ≤ task.permits := by
  cases task with
  | resolving resolve => exact resolve.held_le
  | dropping => exact le_refl 1
  | leaving | done => exact Nat.zero_le _

end Task

theorem held_of_awaits {resolve : Doh.Resolve} (awaits : resolve.awaits = true) : resolve.held = 1 := by
  cases resolve with
  | asking | ordering | probing => rfl
  | entering | returned => cases awaits

namespace World

variable {libraries : LookupLibraries} {options : EngineOptions} {world next : World} {event : Event}

theorem stepTask_spec {inner later : Doh.Inner} {permits free : ℕ} {task after : Task} {choice : TaskChoice}
    (stepped : stepTask inner permits task choice = some (later, free, after)) :
    later.inFlight + after.held = inner.inFlight + task.held ∧ free + after.permits = permits + task.permits ∧
      ((task.held = 0 → task.permits = 1 → 0 < inner.inFlight) → task.Fine → after.Fine) := by
  rw [stepTask.eq_def] at stepped
  split at stepped
  · cases stepped
    exact ⟨rfl, rfl, fun _ _ _ => nofun⟩
  · obtain ⟨⟨inner', resolve'⟩, went, same⟩ := Option.map_eq_some_iff.mp stepped
    cases same
    obtain ⟨balance, unbusy⟩ := Doh.Resolve.step_spec went
    refine ⟨balance, rfl, fun room fine => Task.fine_resolving.mpr ?_⟩
    exact unbusy (fun none => room none rfl) (Task.fine_resolving.mp fine)
  · cases stepped
    exact ⟨rfl, rfl, fun _ _ _ => nofun⟩
  · next resolve _ =>
    obtain ⟨awaits, same⟩ := Option.ite_none_right_eq_some.mp stepped
    cases same
    refine ⟨?_, rfl, fun _ _ _ => nofun⟩
    change inner.inFlight + 1 = inner.inFlight + resolve.held
    rw [held_of_awaits awaits]
  · cases stepped
    exact ⟨rfl, rfl, fun _ _ _ => nofun⟩
  · cases stepped
    exact ⟨rfl, rfl, fun _ _ _ => nofun⟩
  · cases stepped

/-- In-flight permits of the tasks. -/
def tasksHeld (tasks : List Task) : ℕ := (tasks.map Task.held).sum

/-- Permits of `forward` that the tasks have. -/
def tasksPermits (tasks : List Task) : ℕ := (tasks.map Task.permits).sum

/-- In-flight permits of the lookups. -/
def callsHeld (calls : List Call) : ℕ := (calls.map fun call => call.phase.held).sum

/-- Turns that the lookups have. -/
def callsTurns (calls : List Call) : ℕ := (calls.map fun call => call.phase.turns).sum

/-- No permit is lost, and nobody found the client busy. -/
structure Balanced (options : EngineOptions) (world : World) : Prop where
  inFlight : world.inner.inFlight + tasksHeld world.tasks + callsHeld world.calls = Doh.maxInFlight
  permits : world.permits + world.forwarder.permits + tasksPermits world.tasks = options.forwardInFlight
  turns : world.hosts.resources.turns + callsTurns world.calls = lookupPermits / 2
  tasks : ∀ task ∈ world.tasks, task.Fine
  calls : ∀ call ∈ world.calls, call.phase.Fine

theorem balanced_start (options : EngineOptions) (upstreams : ℕ) : (start options upstreams).Balanced options :=
  ⟨rfl, rfl, rfl, nofun, nofun⟩

theorem tasksHeld_le (tasks : List Task) : tasksHeld tasks ≤ 1 * tasksPermits tasks := by
  apply List.sum_map_le_mul
  intro task _
  rw [Nat.one_mul]
  exact task.held_le_permits

theorem callsHeld_le {calls : List Call} (fine : ∀ call ∈ calls, call.phase.Fine) :
    callsHeld calls ≤ 2 * callsTurns calls := by
  apply List.sum_map_le_mul
  exact fun call member => (fine call member).held_le

/-- The shares fit into what the client allows. -/
def Fits (options : EngineOptions) : Prop := options.forwardInFlight + lookupPermits ≤ Doh.maxInFlight

theorem Balanced.room_for_task (balanced : world.Balanced options) (fits : Fits options) {task : Task}
    (member : task ∈ world.tasks) (none : task.held = 0) (one : task.permits = 1) : 0 < world.inner.inFlight := by
  have tasks : tasksHeld world.tasks < 1 * tasksPermits world.tasks := by
    apply List.sum_map_lt_mul _ member
    · rw [Nat.one_mul, none, one]
      exact Nat.zero_lt_one
    · intro task _
      rw [Nat.one_mul]
      exact task.held_le_permits
  have calls := callsHeld_le balanced.calls
  have permits := balanced.permits
  have turns := balanced.turns
  have inFlight := balanced.inFlight
  unfold Fits at fits
  have share : lookupPermits = 32 := rfl
  omega

theorem Balanced.room_for_call (balanced : world.Balanced options) (fits : Fits options) {call : Call}
    (member : call ∈ world.calls) (few : call.phase.held ≤ 1) (one : call.phase.turns = 1) :
    0 < world.inner.inFlight := by
  have calls : callsHeld world.calls < 2 * callsTurns world.calls := by
    apply List.sum_map_lt_mul _ member
    · rw [one]
      exact Nat.lt_succ_of_le few
    · exact fun call member => (balanced.calls call member).held_le
  have tasks := tasksHeld_le world.tasks
  have permits := balanced.permits
  have turns := balanced.turns
  have inFlight := balanced.inFlight
  unfold Fits at fits
  have share : lookupPermits = 32 := rfl
  omega

/-- A change that is not one of permits. -/
theorem Balanced.withInner (balanced : world.Balanced options) {inner : Doh.Inner}
    (same : inner.inFlight = world.inner.inFlight) : (world.withInner inner).Balanced options := by
  refine ⟨?_, balanced.permits, balanced.turns, balanced.tasks, balanced.calls⟩
  change inner.inFlight + _ + _ = _
  rw [same]
  exact balanced.inFlight

theorem Balanced.forward (balanced : world.Balanced options) {choice : ForwardChoice}
    (stepped : world.forward world.forwarder choice = some next) : next.Balanced options := by
  have permits := balanced.permits
  rw [World.forward.eq_def] at stepped
  split at stepped
  · next acquiring =>
    obtain ⟨some, same⟩ := Option.ite_none_left_eq_some.mp stepped
    cases same
    rw [acquiring] at permits
    refine ⟨balanced.inFlight, ?_, balanced.turns, balanced.tasks, balanced.calls⟩
    change world.permits - 1 + 1 + _ = _
    rw [Nat.sub_add_cancel (Nat.pos_of_ne_zero some)]
    exact permits
  · next acquiring =>
    cases stepped
    rw [acquiring] at permits
    exact ⟨balanced.inFlight, permits, balanced.turns, balanced.tasks, balanced.calls⟩
  · next receiving =>
    split at stepped
    · cases stepped
    · next query queue _ =>
      cases stepped
      rw [receiving] at permits
      refine ⟨?_, ?_, balanced.turns, ?_, balanced.calls⟩
      · change world.inner.inFlight + tasksHeld (world.tasks ++ [_]) + _ = _
        rw [tasksHeld, List.map_append, List.sum_append]
        exact balanced.inFlight
      · change world.permits + 0 + tasksPermits (world.tasks ++ [_]) = _
        rw [tasksPermits, List.map_append, List.sum_append]
        change world.permits + 1 + tasksPermits world.tasks = _ at permits
        change world.permits + 0 + (tasksPermits world.tasks + 1) = _
        omega
      · intro task member
        rcases List.mem_append.mp member with old | new
        · exact balanced.tasks task old
        · rw [List.mem_singleton.mp new]
          exact Task.fine_resolving.mpr trivial
  · next receiving =>
    obtain ⟨-, same⟩ := Option.ite_none_right_eq_some.mp stepped
    cases same
    rw [receiving] at permits
    exact ⟨balanced.inFlight, permits, balanced.turns, balanced.tasks, balanced.calls⟩
  · next receiving =>
    cases stepped
    rw [receiving] at permits
    exact ⟨balanced.inFlight, permits, balanced.turns, balanced.tasks, balanced.calls⟩
  · cases stepped

theorem Balanced.task (balanced : world.Balanced options) (fits : Fits options) {index : ℕ} {task after : Task}
    {choice : TaskChoice} {inner : Doh.Inner} {free : ℕ} (found : world.tasks[index]? = some task)
    (stepped : stepTask world.inner world.permits task choice = some (inner, free, after)) :
    ({ world.withInner inner with permits := free, tasks := world.tasks.set index after } : World).Balanced
      options := by
  obtain ⟨held, permits, fine⟩ := stepTask_spec stepped
  have member := List.mem_of_getElem? found
  have tradesHeld := List.sum_map_set Task.held found after
  have tradesPermits := List.sum_map_set Task.permits found after
  have inFlight := balanced.inFlight
  have before := balanced.permits
  refine ⟨?_, ?_, balanced.turns, ?_, balanced.calls⟩
  · change inner.inFlight + tasksHeld (world.tasks.set index after) + callsHeld world.calls = _
    unfold tasksHeld at inFlight ⊢
    omega
  · change free + world.forwarder.permits + tasksPermits (world.tasks.set index after) = _
    unfold tasksPermits at before ⊢
    omega
  · intro other there
    rcases List.mem_or_eq_of_mem_set there with old | rfl
    · exact balanced.tasks other old
    · exact fine (balanced.room_for_task fits member) (balanced.tasks task member)

theorem fine_begin (libraries : LookupLibraries) (host : Text) : (Call.begin libraries host).phase.Fine ∧
    (Call.begin libraries host).phase.held = 0 ∧ (Call.begin libraries host).phase.turns = 0 := by
  rw [Call.begin]
  split
  · exact ⟨fun _ => nofun, rfl, rfl⟩
  · split
    · exact ⟨fun _ => nofun, rfl, rfl⟩
    · exact ⟨fun _ => nofun, rfl, rfl⟩

theorem Balanced.resolve (balanced : world.Balanced options) (host : Text) :
    ({ world with calls := world.calls ++ [.begin libraries host] } : World).Balanced options := by
  obtain ⟨fine, held, turns⟩ := fine_begin libraries host
  refine ⟨?_, balanced.permits, ?_, balanced.tasks, ?_⟩
  · change world.inner.inFlight + tasksHeld world.tasks + callsHeld (world.calls ++ [_]) = _
    rw [callsHeld, List.map_append, List.sum_append, List.map_singleton, List.sum_singleton, held]
    exact balanced.inFlight
  · change world.hosts.resources.turns + callsTurns (world.calls ++ [_]) = _
    rw [callsTurns, List.map_append, List.sum_append, List.map_singleton, List.sum_singleton, turns]
    exact balanced.turns
  · intro call member
    rcases List.mem_append.mp member with old | new
    · exact balanced.calls call old
    · rw [List.mem_singleton.mp new]
      exact fine

theorem Balanced.call (balanced : world.Balanced options) (fits : Fits options) {index : ℕ} {call : Call}
    {hosts : HostResolver} {phase : Phase} (found : world.calls[index]? = some call)
    (moved : HostResolver.Moved libraries world.hosts index call.host call.phase hosts phase) :
    ({ world with hosts := hosts, calls := world.calls.set index ⟨call.host, phase⟩ } : World).Balanced options := by
  obtain ⟨held, turns, fine⟩ := moved.spec
  have member := List.mem_of_getElem? found
  have tradesHeld := List.sum_map_set (fun call => call.phase.held) found ⟨call.host, phase⟩
  have tradesTurns := List.sum_map_set (fun call => call.phase.turns) found ⟨call.host, phase⟩
  dsimp only at tradesHeld tradesTurns
  have inFlight := balanced.inFlight
  have before := balanced.turns
  refine ⟨?_, balanced.permits, ?_, balanced.tasks, ?_⟩
  · change hosts.resources.inner.inFlight + tasksHeld world.tasks + callsHeld (world.calls.set index _) = _
    change world.hosts.resources.inner.inFlight + _ + _ = _ at inFlight
    unfold callsHeld at inFlight ⊢
    omega
  · change hosts.resources.turns + callsTurns (world.calls.set index _) = _
    unfold callsTurns at before ⊢
    omega
  · intro other there
    rcases List.mem_or_eq_of_mem_set there with old | rfl
    · exact balanced.calls other old
    · exact fine (balanced.room_for_call fits member) (balanced.calls call member)

theorem Balanced.step (balanced : world.Balanced options) (fits : Fits options)
    (stepped : world.step libraries event = some next) : next.Balanced options := by
  cases event with
  | mark upstream downUntil =>
    cases stepped
    exact balanced.withInner rfl
  | reset upstream =>
    cases stepped
    exact balanced.withInner rfl
  | probed upstream =>
    obtain ⟨-, same⟩ := Option.ite_none_right_eq_some.mp stepped
    cases same
    exact balanced.withInner rfl
  | arrive query =>
    cases stepped
    exact ⟨balanced.inFlight, balanced.permits, balanced.turns, balanced.tasks, balanced.calls⟩
  | forward choice => exact balanced.forward stepped
  | task index choice =>
    obtain ⟨task, found, rest⟩ := Option.bind_eq_some_iff.mp stepped
    obtain ⟨⟨inner, free, after⟩, went, same⟩ := Option.bind_eq_some_iff.mp rest
    cases same
    exact balanced.task fits found went
  | resolve host =>
    cases stepped
    exact balanced.resolve host
  | call index choice =>
    obtain ⟨call, found, rest⟩ := Option.bind_eq_some_iff.mp stepped
    obtain ⟨⟨hosts, phase⟩, went, same⟩ := Option.bind_eq_some_iff.mp rest
    cases same
    exact balanced.call fits found (HostResolver.moved_of_advance went)

theorem balanced_after {upstreams : ℕ} {history : List Event} (fits : Fits options)
    (ran : after libraries options upstreams history = some world) : world.Balanced options := by
  refine Machine.run_invariant (Balanced options) (balanced_start options upstreams) ?_
    (Machine.along_of_forall_mem fun _ _ _ => trivial) ran
  intro before event next balanced _ stepped
  exact balanced.step fits stepped

theorem Balanced.unbusy (balanced : world.Balanced options) : ∀ resolve ∈ world.resolves, resolve.Unbusy := by
  intro resolve member
  rcases List.mem_append.mp member with task | call
  · obtain ⟨task, there, inside⟩ := List.mem_flatMap.mp task
    exact balanced.tasks task there resolve inside
  · obtain ⟨call, there, inside⟩ := List.mem_flatMap.mp call
    cases running : call.phase.lookUp with
    | none =>
      rw [running] at inside
      cases inside
    | some lookUp =>
      rw [running] at inside
      exact (balanced.calls call there lookUp running).unbusy resolve inside

/-- With the default options, in every state that any interleaving of forwarded jobs, tasks, lookups,
cancellations, resets and background queries reaches, no call of `resolve` has returned busy. -/
theorem resolver_never_busy (libraries : LookupLibraries) (upstreams : ℕ) (history : List Event) (world : World)
    (ran : after libraries .default upstreams history = some world) :
    ∀ resolve ∈ world.resolves, resolve ≠ .returned (.error .busy) := by
  have fits : Fits .default := by
    unfold Fits EngineOptions.default
    decide
  intro resolve member same
  have unbusy := (balanced_after fits ran).unbusy resolve member
  rw [same] at unbusy
  exact unbusy rfl

/-- Every name can be asked for, and no answer can be read. -/
def plainLibraries : LookupLibraries := ⟨fun _ => none, fun _ _ => some (List.replicate 12 0), fun _ => none⟩

/-- A forwarded query and a lookup meet an upstream that is worth a background query. -/
def busyMoment : List Event :=
  [.call 0 (.query .a (.go 9)), .call 0 (.query .a (.go 9)), .call 0 (.go 9), .call 0 (.go 9), .call 0 (.go 9),
    .resolve "a.example".toList, .task 0 (.go (.go 9)), .task 0 (.go (.go 9)), .task 0 (.go (.go 9)), .forward .go,
    .arrive (List.replicate 12 0), .forward .go, .mark 0 1]

theorem resolver_never_busy_sample :
    ∃ world, after plainLibraries .default 1 busyMoment = some world ∧ world.resolves.length = 2 ∧
      world.inner.inFlight = 126 ∧ world.inner.probes = [0] ∧
      ∀ resolve ∈ world.resolves, resolve ≠ .returned (.error .busy) :=
  ⟨_, rfl, rfl, rfl, rfl, resolver_never_busy plainLibraries 1 busyMoment _ rfl⟩

end World

end Tollgate.Forwarding
