import Tollgate.Proofs.Mitm.Handing

/-! # No two requests on one HTTP/1.1 connection

However requests, closing connections, the reaper, evictions and resets interleave, an HTTP/1.1 connection
is in one place at most: idle in the entry once, or with one request. A connection that is idle when the
upstream connections are reset is in no place from the next look on, so no request is sent on it again. Both
follow from what one step does to the connections that are there.
-/

namespace Tollgate.Mitm.Pool

open List

variable {options : PoolOptions} {pool next : Pool} {connection : ℕ}

/-- What an event does to the connections. -/
inductive Traded (pool next : Pool) : Prop where
  | steps (call : ℕ) (phase : Phase) (found : pool.calls[call]? = some phase) (handed : Handed pool call phase next)
  /-- No request moves, and the lock of the entries is not taken. -/
  | rests (owned : next.calls.flatMap Phase.owns = pool.calls.flatMap Phase.owns) (idles : next.idles = pool.idles)
      (resets : pool.resets ≤ next.resets ∧ next.resetsSeen = pool.resetsSeen)
      (length : next.connections.length = pool.connections.length)
  /-- Idle connections are dropped, under the lock of the entries. -/
  | drops (owned : next.calls.flatMap Phase.owns = pool.calls.flatMap Phase.owns)
      (idles : ∀ connection, next.idles.count connection ≤ pool.hosts.idles.count connection)
      (resets : next.resets = pool.resets ∧ next.resetsSeen = pool.resets)
      (length : next.connections.length = pool.connections.length)

theorem traded_of_endTask {task : ℕ} (stepped : pool.endTask task = some next) : Traded pool next := by
  unfold endTask at stepped
  split at stepped
  · next slot found =>
    cases stepped
    obtain ⟨slots, released⟩ :=
      releaseAll_eq { pool with connections := pool.connections.set task ⟨none, false⟩ } slot.toList
    rw [released]
    exact .rests rfl rfl ⟨Nat.le_refl _, rfl⟩ length_set
  · cases stepped

/-- Some idle connections are left out under the lock of the entries. -/
theorem traded_of_host {changed : Option Host}
    (fewer : ∀ connection, (changed.elim [] Host.idles).count connection ≤ pool.hosts.idles.count connection) :
    Traded pool { pool.hosts with host := changed } := by
  obtain ⟨calls, connections, resets, seen⟩ := pool.hosts_rest
  exact .drops (congrArg _ calls) fewer ⟨resets, seen⟩ (congrArg length connections)

theorem filter_idles_sublist (test : Host → Bool) (host : Option Host) :
    (host.filter test).elim [] Host.idles <+ host.elim [] Host.idles := by
  cases host with
  | none => exact Sublist.refl _
  | some host =>
    rw [Option.filter_some]
    split
    · exact Sublist.refl _
    · exact nil_sublist _

theorem traded_of_reap (now : ℕ) (closed : List ℕ) (h2Closed : Bool) :
    Traded pool (pool.reap options now closed h2Closed) := by
  refine traded_of_host fun connection => ?_
  refine ((filter_idles_sublist _ _).count_le connection).trans ?_
  rw [update, idles]
  cases pool.hosts.host with
  | none => exact Nat.le_refl _
  | some host => exact (Sublist.map Prod.fst filter_sublist).count_le connection

theorem traded_of_step {event : Event} (stepped : pool.step options event = some next) : Traded pool next := by
  cases event with
  | send =>
    cases stepped
    refine .rests ?_ rfl ⟨Nat.le_refl _, rfl⟩ rfl
    simp [Phase.owns]
  | step call choice =>
    obtain ⟨phase, found, advanced⟩ := Option.bind_eq_some_iff.mp stepped
    exact .steps call phase found (handed_of_advance advanced)
  | close closed =>
    cases stepped
    exact .rests rfl rfl ⟨Nat.le_refl _, rfl⟩ (length_modify ..)
  | endTask task => exact traded_of_endTask stepped
  | reap now closed h2Closed =>
    cases stepped
    exact traded_of_reap now closed h2Closed
  | evictHttp1 place =>
    obtain ⟨host, found, stepped⟩ := Option.bind_eq_some_iff.mp stepped
    obtain ⟨oldest, -, stepped⟩ := Option.bind_eq_some_iff.mp stepped
    obtain ⟨-, stepped⟩ := Option.ite_none_right_eq_some.mp stepped
    cases stepped
    refine traded_of_host fun connection => ?_
    have before : pool.hosts.idles = host.idles := by rw [idles, found]; rfl
    rw [before]
    exact ((eraseIdx_sublist host.idle place).map _).count_le connection
  | evictHttp2 =>
    obtain ⟨host, found, stepped⟩ := Option.bind_eq_some_iff.mp stepped
    obtain ⟨-, stepped⟩ := Option.ite_none_right_eq_some.mp stepped
    cases stepped
    refine traded_of_host fun connection => ?_
    have before : pool.hosts.idles = host.idles := by rw [idles, found]; rfl
    rw [before]
    exact Nat.le_refl _
  | reset =>
    cases stepped
    exact .rests rfl rfl ⟨Nat.le_succ _, rfl⟩ rfl

/-- Every connection is in one place at most, and those that are somewhere were opened. -/
structure Exclusive (pool : Pool) : Prop where
  seen : pool.resetsSeen ≤ pool.resets
  once : ∀ connection, pool.places connection ≤ 1
  opened : ∀ connection, 0 < pool.places connection → connection < pool.connections.length

theorem exclusive_new : new.Exclusive := ⟨Nat.le_refl _, fun _ => Nat.zero_le _, nofun⟩

theorem Exclusive.of_le (exclusive : pool.Exclusive) (seen : next.resetsSeen ≤ next.resets)
    (fewer : ∀ connection, next.places connection ≤ pool.places connection)
    (length : pool.connections.length ≤ next.connections.length) : next.Exclusive := by
  refine ⟨seen, fun connection => (fewer connection).trans (exclusive.once connection), fun connection somewhere => ?_⟩
  exact (exclusive.opened connection (somewhere.trans_le (fewer connection))).trans_le length

theorem Handed.seen {call : ℕ} {phase : Phase} (handed : Handed pool call phase next)
    (seen : pool.resetsSeen ≤ pool.resets) : next.resetsSeen ≤ next.resets := by
  cases handed with
  | keeps after calls idles resets | opens after calls idles resets =>
    rw [resets.1, resets.2]
    exact seen
  | locks after calls resets => rw [resets.1, resets.2]

theorem Exclusive.handed {call : ℕ} {phase : Phase} (exclusive : pool.Exclusive) (found : pool.calls[call]? = some phase)
    (handed : Handed pool call phase next) : next.Exclusive := by
  have seen := handed.seen exclusive.seen
  cases handed with
  | keeps after calls idles resets length owns =>
    refine exclusive.of_le seen (fun connection => ?_) length.ge
    have traded := count_flatMap_set Phase.owns found after connection
    have fewer := owns.count_le connection
    rw [places, places, calls, idles]
    omega
  | opens after calls idles resets length owns =>
    have more : ∀ connection, next.places connection ≤ pool.places connection + [pool.connections.length].count connection := by
      intro connection
      have traded := count_flatMap_set Phase.owns found after connection
      rw [places, places, calls, idles, ← owns]
      omega
    have unused : pool.places pool.connections.length = 0 := by
      have := exclusive.opened pool.connections.length
      omega
    refine ⟨seen, fun connection => ?_, fun connection somewhere => ?_⟩
    · have more := more connection
      have once := exclusive.once connection
      rw [count_singleton'] at more
      split at more
      · next same =>
        subst same
        omega
      · omega
    · have more := more connection
      have opened := exclusive.opened connection
      rw [count_singleton'] at more
      split at more
      · omega
      · omega
  | locks after calls resets length owns =>
    refine exclusive.of_le seen (fun connection => ?_) length.ge
    have traded := count_flatMap_set Phase.owns found after connection
    have owns := owns connection
    have idle := pool.count_idles_hosts_le connection
    rw [places, places, calls]
    omega

theorem Exclusive.traded (exclusive : pool.Exclusive) (traded : Traded pool next) : next.Exclusive := by
  cases traded with
  | steps call phase found handed => exact exclusive.handed found handed
  | rests owned idles resets length =>
    have seen : next.resetsSeen ≤ next.resets := by
      rw [resets.2]
      exact exclusive.seen.trans resets.1
    refine exclusive.of_le seen (fun connection => ?_) length.ge
    rw [places, places, owned, idles]
  | drops owned idles resets length =>
    refine exclusive.of_le (resets.2.trans resets.1.symm).le (fun connection => ?_) length.ge
    have fewer := (idles connection).trans (pool.count_idles_hosts_le connection)
    rw [places, places, owned]
    omega

theorem exclusive_after {history : List Event} (ran : Pool.after options history = some pool) : pool.Exclusive :=
  Machine.run_invariant Exclusive exclusive_new
    (fun _ _ _ exclusive _ stepped => exclusive.traded (traded_of_step stepped))
    (Machine.along_of_forall_mem fun _ _ _ => trivial) ran

/-- No request has the connection, and it is not idle either once the lock of the entries is taken. -/
structure Gone (connection : ℕ) (pool : Pool) : Prop where
  seen : pool.resetsSeen ≤ pool.resets
  opened : connection < pool.connections.length
  unowned : (pool.calls.flatMap Phase.owns).count connection = 0
  dropped : pool.hosts.idles.count connection = 0

theorem count_owns_le {calls : List Phase} {call : ℕ} {phase : Phase} (found : calls[call]? = some phase)
    (connection : ℕ) : phase.owns.count connection ≤ (calls.flatMap Phase.owns).count connection := by
  have traded := count_flatMap_set Phase.owns found .done connection
  rw [Phase.owns_done, count_nil] at traded
  omega

theorem Gone.handed {call : ℕ} {phase : Phase} (gone : pool.Gone connection) (found : pool.calls[call]? = some phase)
    (handed : Handed pool call phase next) : next.Gone connection := by
  have seen := handed.seen gone.seen
  have unowned := gone.unowned
  have free : phase.owns.count connection = 0 := by
    have := count_owns_le found connection
    omega
  cases handed with
  | keeps after calls idles resets length owns =>
    have traded := count_flatMap_set Phase.owns found after connection
    have fewer := owns.count_le connection
    refine ⟨seen, length ▸ gone.opened, ?_, ?_⟩
    · rw [calls]
      omega
    · rw [idles_hosts, idles, resets.1, resets.2, ← idles_hosts]
      exact gone.dropped
  | opens after calls idles resets length owns =>
    have traded := count_flatMap_set Phase.owns found after connection
    have other : after.owns.count connection = 0 := by
      rw [owns, count_singleton', if_neg gone.opened.ne']
    refine ⟨seen, length ▸ Nat.lt_succ_of_lt gone.opened, ?_, ?_⟩
    · rw [calls]
      omega
    · rw [idles_hosts, idles, resets.1, resets.2, ← idles_hosts]
      exact gone.dropped
  | locks after calls resets length owns =>
    have traded := count_flatMap_set Phase.owns found after connection
    have fewer := owns connection
    have dropped := gone.dropped
    refine ⟨seen, length ▸ gone.opened, ?_, ?_⟩
    · rw [calls]
      omega
    · rw [idles_hosts, if_pos (resets.2.trans resets.1.symm)]
      omega

theorem Gone.traded (gone : pool.Gone connection) (traded : Traded pool next) : next.Gone connection := by
  cases traded with
  | steps call phase found handed => exact gone.handed found handed
  | rests owned idles resets length =>
    have seen : next.resetsSeen ≤ next.resets := by
      rw [resets.2]
      exact gone.seen.trans resets.1
    refine ⟨seen, length ▸ gone.opened, owned ▸ gone.unowned, ?_⟩
    have dropped := gone.dropped
    rw [idles_hosts] at dropped ⊢
    split
    · next acted =>
      -- A pool that has acted on every reset had done so before.
      have before : pool.resetsSeen = pool.resets := by
        have := gone.seen
        have := resets.1
        have := resets.2
        omega
      rw [idles]
      rwa [if_pos before] at dropped
    · rfl
  | drops owned idles resets length =>
    refine ⟨(resets.2.trans resets.1.symm).le, length ▸ gone.opened, owned ▸ gone.unowned, ?_⟩
    rw [idles_hosts, if_pos (resets.2.trans resets.1.symm)]
    exact Nat.le_zero.mp ((idles connection).trans gone.dropped.le)

/-- What is idle at a reset is gone. -/
theorem gone_of_reset (exclusive : pool.Exclusive) (idle : connection ∈ pool.idles) :
    Gone connection { pool with resets := pool.resets + 1 } := by
  have here : 0 < pool.idles.count connection := count_pos_iff.mpr idle
  have once := exclusive.once connection
  have seen := exclusive.seen
  rw [places] at once
  refine ⟨Nat.le_succ_of_le seen, ?_, ?_, ?_⟩
  · exact exclusive.opened connection (Nat.lt_of_lt_of_le here (Nat.le_add_right ..))
  · change (pool.calls.flatMap Phase.owns).count connection = 0
    omega
  · rw [idles_hosts, if_neg]
    · rfl
    · change pool.resetsSeen ≠ pool.resets + 1
      omega

theorem gone_after {later earlier : List Event} (before : Pool.after options earlier = some pool)
    (idle : connection ∈ pool.idles) (ran : Pool.after options (later ++ .reset :: earlier) = some next) :
    next.Gone connection := by
  induction later generalizing next with
  | nil =>
    obtain ⟨there, found, stepped⟩ := Machine.run_cons.mp ran
    obtain rfl := Option.some.inj (before.symm.trans found)
    cases stepped
    exact gone_of_reset (exclusive_after before) idle
  | cons event later ih =>
    obtain ⟨there, found, stepped⟩ := Machine.run_cons.mp ran
    exact (ih found).traded (traded_of_step stepped)

/-- In every run, idle connections are listed once, no two requests have the same connection, and no
request has one that is idle. -/
theorem http1_connection_never_shared (options : PoolOptions) (history : List Event) (pool : Pool)
    (ran : Pool.after options history = some pool) :
    pool.idles.Nodup ∧
      (∀ first second connection : ℕ, ∀ before after : Phase, pool.calls[first]? = some before → pool.calls[second]? = some after →
        connection ∈ before.owns → connection ∈ after.owns → first = second) ∧
      ∀ phase ∈ pool.calls, ∀ connection ∈ phase.owns, connection ∉ pool.idles := by
  have once := (exclusive_after ran).once
  refine ⟨?_, ?_, ?_⟩
  · rw [nodup_iff_count_le_one]
    intro connection
    exact (Nat.le_add_right ..).trans (once connection)
  · intro first second connection before after found other owns also
    by_contra different
    -- Without the first request, the second one still has the connection.
    have traded := count_flatMap_set Phase.owns found .done connection
    have still : (pool.calls.set first .done)[second]? = some after := by
      rw [getElem?_set_ne different]
      exact other
    have left : after.owns.count connection ≤ ((pool.calls.set first .done).flatMap Phase.owns).count connection :=
      count_owns_le still connection
    have here : 0 < before.owns.count connection := count_pos_iff.mpr owns
    have there : 0 < after.owns.count connection := count_pos_iff.mpr also
    have once := once connection
    rw [places] at once
    rw [Phase.owns_done, count_nil] at traded
    omega
  · intro phase member connection owns idle
    have here : 0 < (pool.calls.flatMap Phase.owns).count connection :=
      count_pos_iff.mpr (mem_flatMap.mpr ⟨phase, member, owns⟩)
    have there : 0 < pool.idles.count connection := count_pos_iff.mpr idle
    have once := once connection
    rw [places] at once
    omega

/-- A request dials, gets its response over HTTP/1.1 and gives the connection back. -/
def dialed : List Event :=
  [.step 0 (.give 3), .step 0 .finished, .step 0 .responded, .step 0 .go, .step 0 .started, .step 0 .go,
    .step 0 (.negotiated .http1), .step 0 .go, .step 0 (.global true), .step 0 (.look 2 ⟨false, 0, []⟩),
    .step 0 .locked, .step 0 (.look 1 ⟨false, 0, []⟩), .send]

/-- Two more requests look at the pool while the connection is ready. -/
def arrivals : List Event :=
  [.step 2 (.look 4 ⟨false, 0, [0]⟩), .step 1 (.look 4 ⟨false, 0, [0]⟩), .send, .send]

/-- The first of the two has the connection. -/
theorem http1_connection_never_shared_sample :
    ∃ pool, Pool.after ⟨6, 60⟩ (arrivals ++ dialed) = some pool ∧
      pool.calls[1]? = some (.sending (.http1 0) true) ∧ 0 ∉ pool.idles := by
  obtain ⟨pool, ran, holds⟩ : ∃ pool, Pool.after ⟨6, 60⟩ (arrivals ++ dialed) = some pool ∧
      pool.calls[1]? = some (.sending (.http1 0) true) :=
    ⟨(Pool.after ⟨6, 60⟩ (arrivals ++ dialed)).getD .new, by decide⟩
  obtain ⟨-, -, apart⟩ := http1_connection_never_shared ⟨6, 60⟩ _ pool ran
  exact ⟨pool, ran, holds, apart _ (mem_of_getElem? holds) 0 mem_cons_self⟩

/-- In every run, no request after a reset has a connection that was idle at the reset. -/
theorem reset_drops_idle_connections (options : PoolOptions) (later earlier : List Event) (pool next : Pool)
    (connection : ℕ) (before : Pool.after options earlier = some pool) (idle : connection ∈ pool.idles)
    (ran : Pool.after options (later ++ .reset :: earlier) = some next) :
    ∀ phase ∈ next.calls, connection ∉ phase.owns := by
  intro phase member owns
  have none := (gone_after before idle ran).unowned
  exact count_eq_zero.mp none (mem_flatMap.mpr ⟨phase, member, owns⟩)

/-- After a reset neither of the two has it. -/
theorem reset_drops_idle_connections_sample :
    ∃ pool next, Pool.after ⟨6, 60⟩ dialed = some pool ∧ 0 ∈ pool.idles ∧
      Pool.after ⟨6, 60⟩ (arrivals ++ .reset :: dialed) = some next ∧ ∀ phase ∈ next.calls, 0 ∉ phase.owns := by
  obtain ⟨pool, before, idle⟩ : ∃ pool, Pool.after ⟨6, 60⟩ dialed = some pool ∧ 0 ∈ pool.idles :=
    ⟨(Pool.after ⟨6, 60⟩ dialed).getD .new, by decide⟩
  obtain ⟨next, ran⟩ : ∃ next, Pool.after ⟨6, 60⟩ (arrivals ++ .reset :: dialed) = some next :=
    ⟨(Pool.after ⟨6, 60⟩ (arrivals ++ .reset :: dialed)).getD .new, by decide⟩
  exact ⟨pool, next, before, idle, ran, reset_drops_idle_connections ⟨6, 60⟩ arrivals dialed pool next 0 before idle ran⟩

end Tollgate.Mitm.Pool
