import Tollgate.Proofs.Engine.Places

/-! # Local answers and the network they came from

A lookup begins on the network on which the resolver is called for it. As long as no query joins a
lookup from an earlier network than its own, every query that waits for a lookup arrived no later than
it began, so an answer that passes the handler's check of the generation comes from a lookup of the
current network.
-/

namespace Tollgate.Engine

open Dns List

/-- A lookup that is left after expiry is not one of those that expired. -/
theorem notMem_of_expire {jobs : LocalJobs} {ids : List ℕ} {id : ℕ} {lookup : LocalLookup}
    (left : (jobs.expire ids).2.waiting.lookup id = some lookup) : id ∉ ids := by
  induction ids generalizing jobs with
  | nil => exact not_mem_nil
  | cons first rest ih =>
    rw [LocalJobs.expire] at left
    split at left
    · next removed =>
      refine not_mem_cons_of_ne_of_not_mem ?_ (ih left)
      rintro rfl
      obtain ⟨-, rfl⟩ := remove_eq_some_iff.mp removed
      have stays := lookup_of_expire left
      rw [AList.lookup_erase] at stays
      cases stays
    · next unknown =>
      refine not_mem_cons_of_ne_of_not_mem ?_ (ih left)
      rintro rfl
      have waits := lookup_of_expire left
      have removed := remove_eq_some_iff.mpr ⟨waits, rfl⟩
      rw [unknown] at removed
      cases removed

/-- Queries wait only for lookups that began no earlier than they arrived. -/
def LocalJobs.Timely (jobs : LocalJobs) (started : ℕ → Option ℕ) : Prop :=
  ∀ id lookup, jobs.waiting.lookup id = some lookup → ∀ query ∈ lookup.jobs, ∀ began, started id = some began →
    query.job.network ≤ began

namespace Section

/-- What a section keeps while it adds queries to the lookups `base`. -/
structure Grown (base : LocalJobs) (started : ℕ → Option ℕ) (work : Section) : Prop where
  wf : work.jobs.Wf
  above : base.nextId ≤ work.jobs.nextId
  old : ∀ id lookup, work.jobs.waiting.lookup id = some lookup → id < base.nextId →
    ∃ before, base.waiting.lookup id = some before ∧ before.question = lookup.question
  timely : work.jobs.Timely started

variable {base : LocalJobs} {started : ℕ → Option ℕ} {resolver : Bool} {clock : ℕ} {work next : Section} {query : Query}

theorem Added.grown (added : Added clock work query next) (grown : Grown base started work)
    (unstarted : ∀ id, base.nextId ≤ id → started id = none)
    (joins : ∀ id lookup began, base.waiting.lookup id = some lookup → question query = some lookup.question →
      started id = some began → query.job.network ≤ began) : Grown base started next := by
  have wf := added.wf grown.wf
  cases added with
  | failed => exact ⟨wf, grown.above, grown.old, grown.timely⟩
  | @joined asked id lookup asks indexed found room =>
    refine ⟨wf, grown.above, fun other left stays small => ?_, fun other left stays waiter member began start => ?_⟩
    · rw [AList.lookup_insert_eq_ite] at stays
      split at stays
      · next same =>
        cases stays
        exact grown.old other lookup (same ▸ found) small
      · exact grown.old other left stays small
    · rw [AList.lookup_insert_eq_ite] at stays
      split at stays
      · next same =>
        subst same
        cases stays
        rcases mem_append.mp member with early | new
        · exact grown.timely other lookup found waiter early began start
        · obtain rfl := mem_singleton.mp new
          have small : other < base.nextId := by
            by_contra large
            rw [unstarted other (not_lt.mp large)] at start
            cases start
          obtain ⟨before, waits, same⟩ := grown.old other lookup found small
          obtain ⟨known, present, question⟩ := (grown.wf.inverse _ _).mp indexed
          cases found.symm.trans present
          exact joins other before began waits (by rw [asks, same, question]) start
      · exact grown.timely other left stays waiter member began start
  | @launched asked asks new room =>
    refine ⟨wf, Nat.le_succ_of_le grown.above, fun other left stays small => ?_,
      fun other left stays waiter member began start => ?_⟩
    · simp only [launch, AList.lookup_insert_eq_ite] at stays
      split at stays
      · next same =>
        have above := grown.above
        omega
      · exact grown.old other left stays small
    · simp only [launch, AList.lookup_insert_eq_ite] at stays
      split at stays
      · next same =>
        rw [same, unstarted _ grown.above] at start
        cases start
      · exact grown.timely other left stays waiter member began start

theorem fold_grown {queries : List Query} (grown : Grown base started work)
    (unstarted : ∀ id, base.nextId ≤ id → started id = none)
    (joins : ∀ query ∈ queries, ∀ id lookup began, base.waiting.lookup id = some lookup →
      question query = some lookup.question → started id = some began → query.job.network ≤ began)
    (ran : queries.foldlM (add resolver clock) work = some next) : Grown base started next := by
  induction queries generalizing work with
  | nil => exact Option.some.inj ran ▸ grown
  | cons query rest ih =>
    obtain ⟨here, later⟩ := forall_mem_cons.mp joins
    obtain ⟨between, added, ran⟩ := Option.bind_eq_some_iff.mp ran
    exact ih ((add_cases added).grown grown unstarted here) later ran

theorem run_timely {jobs : LocalJobs} {expired : List ℕ} {queries : List Query} (wf : jobs.Wf)
    (timely : jobs.Timely started) (unstarted : ∀ id, jobs.nextId ≤ id → started id = none)
    (joins : ∀ query ∈ queries, ∀ id lookup began, jobs.waiting.lookup id = some lookup → id ∉ expired →
      question query = some lookup.question → started id = some began → query.job.network ≤ began)
    (ran : run jobs resolver clock expired queries = some next) : next.jobs.Timely started := by
  have same := expire_nextId jobs expired
  have grown : Grown (jobs.expire expired).2 started ⟨(jobs.expire expired).2, (jobs.expire expired).1, []⟩ :=
    ⟨expire_wf wf expired, Nat.le_refl _, fun id lookup left small => ⟨lookup, left, rfl⟩,
      fun id lookup left => timely id lookup (lookup_of_expire left)⟩
  refine (fold_grown grown (same ▸ unstarted) (fun query member id lookup began left => ?_) ran).timely
  exact joins query member id lookup began (lookup_of_expire left) (notMem_of_expire left)

end Section

/-- What a call knows about lookups: those to begin were given an id, queries of a lookup arrived
before it began, and queries that failed get no records. -/
def Phase.Timely (nextId : ℕ) (started : ℕ → Option ℕ) : Phase → Prop
  | .resolving calls _ => ∀ call ∈ calls, call.id < nextId
  | .answering (some id) _ jobs => ∃ began, started id = some began ∧ ∀ query ∈ jobs, query.job.network ≤ began
  | .answering none records _ => records = none
  | .collecting _ | .queueing .. => True

theorem Phase.timely_resolve {nextId : ℕ} {calls : List ResolveCall} (given : ∀ call ∈ calls, call.id < nextId)
    (started : ℕ → Option ℕ) (failed : List Query) : (Phase.resolve calls failed).Timely nextId started := by
  unfold Phase.resolve
  split
  · rfl
  · exact given

namespace World

/-- Lookups, queries and cached answers belong to the networks they should. -/
structure Current (decoder : Decoder) (world : World) : Prop where
  arrived : ∀ query ∈ world.queries, query.job.network ≤ world.handler.localState.generation
  begun : ∀ id began, world.started id = some began →
    id < world.localJobs.nextId ∧ began ≤ world.handler.localState.generation
  waiting : world.localJobs.Timely world.started
  calls : ∀ phase ∈ world.calls, phase.Timely world.localJobs.nextId world.started
  cached : ∀ key entry, (key, entry) ∈ world.handler.localState.cache.entries.entries →
    world.OfNetwork decoder key entry.answer

theorem current_start (decoder : Decoder) (blocklist : Option DomainSet) : (start blocklist).Current decoder :=
  ⟨nofun, nofun, nofun, nofun, nofun⟩

variable {libraries : Libraries} {deadline : ℕ} {world next : World} {event : Event}

/-- A query arrives with the generation of its network. -/
theorem Stepped.arrived (stepped : Stepped libraries deadline world event next) (wf : world.localJobs.Wf)
    (current : world.Current libraries.decoder) :
    ∀ query ∈ next.queries, query.job.network ≤ next.handler.localState.generation := by
  intro query member
  obtain ⟨call, effect, -⟩ := stepped.effect
  have later := effect.generation_le
  cases stepped.moved wf with
  | stays same => exact (current.arrived query (same.mem_iff.mp member)).trans later
  | leaves gone fewer => exact (current.arrived query (fewer.mem_iff.mpr (mem_cons_of_mem _ member))).trans later
  | arrives new more _ _ _ handled =>
    rcases mem_cons.mp (more.mem_iff.mp member) with rfl | old
    · obtain ⟨bytes, now, handled⟩ := handled
      rw [(handlePacket_reads handled).2 _ rfl]
      exact later
    · exact (current.arrived query old).trans later

/-- Ids are never taken back. -/
theorem Stepped.nextId_le (stepped : Stepped libraries deadline world event next) :
    world.localJobs.nextId ≤ next.localJobs.nextId := by
  cases stepped with
  | resolveLocally found ran => exact (Section.run_numbered ran).1
  | completes removed =>
    obtain ⟨-, rfl⟩ := remove_eq_some_iff.mp removed
    exact Nat.le_refl _
  | begin | accepts | handles | readResolver | resolve | ignores | answer | setNetwork | setLocalResolver | dns | tick =>
    exact Nat.le_refl _

/-- A lookup that has begun stays begun, or begins again on the present network. -/
theorem Stepped.started (stepped : Stepped libraries deadline world event next)
    (current : world.Current libraries.decoder) (id : ℕ) :
    next.started id = world.started id ∨
      (id < world.localJobs.nextId ∧ next.started id = some world.handler.localState.generation ∧
        next.handler = world.handler) := by
  cases stepped with
  | @resolve call first calls failed found =>
    have given := current.calls _ (mem_of_getElem? found) first mem_cons_self
    by_cases same : id = first.id
    · subst same
      exact .inr ⟨given, Function.update_self .., rfl⟩
    · exact .inl (Function.update_of_ne same ..)
  | begin | accepts | handles | readResolver | resolveLocally | completes | ignores | answer | setNetwork
    | setLocalResolver | dns | tick => exact .inl rfl

theorem Stepped.begun (stepped : Stepped libraries deadline world event next)
    (current : world.Current libraries.decoder) (id began : ℕ) (start : next.started id = some began) :
    id < next.localJobs.nextId ∧ began ≤ next.handler.localState.generation := by
  have above := stepped.nextId_le
  obtain ⟨call, effect, -⟩ := stepped.effect
  have later := effect.generation_le
  rcases stepped.started current id with same | ⟨given, now, -⟩
  · rw [same] at start
    obtain ⟨small, before⟩ := current.begun id began start
    exact ⟨by omega, by omega⟩
  · obtain rfl := Option.some.inj (now.symm.trans start)
    exact ⟨by omega, later⟩

theorem Stepped.waiting (stepped : Stepped libraries deadline world event next) (wf : world.localJobs.Wf)
    (current : world.Current libraries.decoder) (joins : world.JoinsCurrent event) :
    next.localJobs.Timely next.started := by
  have unstarted (id : ℕ) (large : world.localJobs.nextId ≤ id) : world.started id = none := by
    cases start : world.started id with
    | none => rfl
    | some began => exact absurd (current.begun id began start).1 (not_lt.mpr large)
  have before : next.localJobs.Timely world.started := by
    cases stepped with
    | resolveLocally found ran => exact Section.run_timely wf current.waiting unstarted (joins _ _ found) ran
    | completes removed =>
      obtain ⟨-, rfl⟩ := remove_eq_some_iff.mp removed
      intro id lookup left
      rw [AList.lookup_erase_eq_ite] at left
      split at left
      · cases left
      · exact current.waiting id lookup left
    | begin | accepts | handles | readResolver | resolve | ignores | answer | setNetwork | setLocalResolver | dns | tick =>
      exact current.waiting
  intro id lookup waits query member began start
  rcases stepped.started current id with same | ⟨-, now, kept⟩
  · exact before id lookup waits query member began (same ▸ start)
  · obtain rfl := Option.some.inj (now.symm.trans start)
    have arrived := stepped.arrived wf current query (mem_queries_of_waiting waits member)
    rwa [kept] at arrived

/-- A call that a step leaves alone still knows what it knew. -/
theorem Stepped.phase (stepped : Stepped libraries deadline world event next)
    (current : world.Current libraries.decoder) {phase : Phase}
    (timely : phase.Timely world.localJobs.nextId world.started) :
    phase.Timely next.localJobs.nextId next.started := by
  cases phase with
  | collecting | queueing => trivial
  | resolving calls failed => exact fun call member => Nat.lt_of_lt_of_le (timely call member) stepped.nextId_le
  | answering source records jobs =>
    cases source with
    | none => exact timely
    | some id =>
      obtain ⟨began, start, early⟩ := timely
      rcases stepped.started current id with same | ⟨-, now, -⟩
      · exact ⟨began, same.trans start, early⟩
      · exact ⟨_, now, fun query member => (early query member).trans (current.begun id began start).2⟩

theorem Stepped.calls (stepped : Stepped libraries deadline world event next)
    (current : world.Current libraries.decoder) (completes : world.Completes event) :
    ∀ phase ∈ next.calls, phase.Timely next.localJobs.nextId next.started := by
  have old (phase : Phase) (member : phase ∈ world.calls) := stepped.phase current (current.calls phase member)
  -- A step changes one call at most; only what that call knows is new.
  have changed {call : ℕ} {new : Phase} (timely : new.Timely next.localJobs.nextId next.started) :
      ∀ phase ∈ world.calls.set call new, phase.Timely next.localJobs.nextId next.started := by
    intro phase member
    rcases mem_or_eq_of_mem_set member with kept | rfl
    · exact old phase kept
    · exact timely
  have added {new : Phase} (timely : new.Timely next.localJobs.nextId next.started) :
      ∀ phase ∈ world.calls ++ [new], phase.Timely next.localJobs.nextId next.started := by
    intro phase member
    rcases mem_append.mp member with kept | last
    · exact old phase kept
    · exact mem_singleton.mp last ▸ timely
  cases stepped with
  | begin => exact added trivial
  | accepts => exact changed trivial
  | readResolver => exact changed trivial
  | @resolveLocally call expired resolver jobs work found ran =>
    obtain ⟨above, numbered⟩ := Section.run_numbered ran
    refine changed (Phase.timely_resolve (fun started member => ?_) _ _)
    have given : started.id ∈ work.calls.map ResolveCall.id := mem_map_of_mem member
    rw [numbered, mem_range'_1] at given
    change _ < work.jobs.nextId
    omega
  | resolve found =>
    refine changed (Phase.timely_resolve (fun started member => ?_) _ _)
    exact current.calls _ (mem_of_getElem? found) started (mem_cons_of_mem _ member)
  | @completes id records lookup jobs removed =>
    obtain ⟨waits, -⟩ := remove_eq_some_iff.mp removed
    apply added
    rcases completes with gone | begun
    · cases gone.symm.trans waits
    · obtain ⟨began, start⟩ := Option.isSome_iff_exists.mp begun
      exact ⟨began, start, fun query member => current.waiting id lookup waits query member began start⟩
  | @answer call now source records query jobs handler packet found completed =>
    have knew := old _ (mem_of_getElem? found)
    apply changed
    cases source with
    | none => exact knew
    | some id =>
      obtain ⟨began, start, early⟩ := knew
      exact ⟨began, start, fun other member => early other (mem_cons_of_mem _ member)⟩
  | handles | ignores | setNetwork | setLocalResolver | dns | tick => exact old

/-- What a step leaves in the cache comes from where it came from before. -/
theorem Stepped.ofNetwork (stepped : Stepped libraries deadline world event next)
    (current : world.Current libraries.decoder) {key : Bytes} {answer : UpstreamAnswer}
    (origin : next.origin key = world.origin key)
    (generation : next.handler.localState.generation = world.handler.localState.generation)
    (of : world.OfNetwork libraries.decoder key answer) : next.OfNetwork libraries.decoder key answer := by
  obtain ⟨id, found, question, requester, source, start, same, checked⟩ := of
  refine ⟨id, found, question, requester, origin.trans source, ?_, same, checked⟩
  rw [generation]
  rcases stepped.started current id with kept | ⟨-, now, -⟩
  · exact kept.trans start
  · exact now

/-- Nothing is stored by a call that does not complete a local job. -/
theorem mem_localCache_of_effect {before after : DnsHandler} {call : Call} {decoder : Decoder}
    (effect : Effect decoder before call after) (other : call.checkedLocal decoder = none) {key : Bytes}
    {entry : CacheEntry} (member : (key, entry) ∈ after.localState.cache.entries.entries) :
    after.localState.generation = before.localState.generation ∧ (key, entry) ∈ before.localState.cache.entries.entries := by
  obtain ⟨same, old | ⟨job, stored, -⟩⟩ := effect.mem_localCache member
  · exact ⟨same, old⟩
  · cases other.symm.trans stored.checked

/-- The answer that a query leaves in the cache comes from the lookup it waited for. -/
theorem Stepped.cached (stepped : Stepped libraries deadline world event next)
    (current : world.Current libraries.decoder) :
    ∀ key entry, (key, entry) ∈ next.handler.localState.cache.entries.entries →
      next.OfNetwork libraries.decoder key entry.answer := by
  have whole := stepped
  intro key entry member
  cases stepped with
  | @accepts call bytes now jobs handler job found handled =>
    obtain ⟨reads, -⟩ := handlePacket_reads handled
    exact whole.ofNetwork current rfl reads.generation (current.cached key entry (reads.localCache.entries _ member))
  | @handles call bytes now handler outcome handled =>
    obtain ⟨reads, -⟩ := handlePacket_reads handled
    exact whole.ofNetwork current rfl reads.generation (current.cached key entry (reads.localCache.entries _ member))
  | setNetwork network =>
    obtain ⟨same, old⟩ :=
      mem_localCache_of_effect (call_effect libraries world.handler (.setNetwork network)) rfl member
    exact whole.ofNetwork current rfl same (current.cached key entry old)
  | @dns call upstream =>
    have other : call.checkedLocal libraries.decoder = none := by
      cases call with
      | completeLocal => cases upstream
      | handlePacket | complete | setNetwork | setBlocklist | setAllowlist | forget => rfl
    obtain ⟨same, old⟩ := mem_localCache_of_effect (call_effect libraries world.handler call) other member
    exact whole.ofNetwork current rfl same (current.cached key entry old)
  | @answer call now source records query jobs handler packet found completed =>
    obtain ⟨payload, finished⟩ := completeLocal_finishLocal completed
    rcases finishLocal_stores finished with ⟨dropped, rfl⟩ | ⟨kept, answer, cache, checked, same, inserted, rfl⟩
    · have origin : (world.replied libraries call source records query jobs world.handler).origin = world.origin := by
        simp only [replied, dropped, Bool.false_eq_true, if_false]
      exact whole.ofNetwork current (congrFun origin key) rfl (current.cached key entry member)
    · obtain ⟨-, ttl, -, entries⟩ := mem_insert inserted
      rcases entries _ member with new | ⟨old, different⟩
      · obtain ⟨rfl, rfl⟩ := Prod.mk.inj new
        have knew := current.calls _ (mem_of_getElem? found)
        cases records with
        | none => cases checked
        | some records =>
          cases source with
          | none => cases knew
          | some id =>
            obtain ⟨began, start, early⟩ := knew
            have arrived := early query mem_cons_self
            have past := (current.begun id began start).2
            refine ⟨id, records, query.job.key, query.job.requester, ?_, ?_, rfl, checked⟩
            · simp only [replied, kept, if_true, Function.update_self]
              rfl
            · obtain rfl : began = world.handler.localState.generation := by omega
              exact start
      · refine whole.ofNetwork current ?_ rfl (current.cached key entry old)
        simp only [replied, kept, if_true, Function.update_of_ne different]
  | begin | readResolver | resolveLocally | resolve | completes | ignores | setLocalResolver | tick =>
    exact whole.ofNetwork current rfl rfl (current.cached key entry member)

theorem Stepped.current (stepped : Stepped libraries deadline world event next) (wf : world.localJobs.Wf)
    (current : world.Current libraries.decoder) (completes : world.Completes event) (joins : world.JoinsCurrent event) :
    next.Current libraries.decoder :=
  ⟨stepped.arrived wf current, stepped.begun current, stepped.waiting wf current joins, stepped.calls current completes,
    stepped.cached current⟩

end World

end Tollgate.Engine
