import Tollgate.Proofs.Dns.Replies
import Tollgate.Proofs.Engine.Steps

/-! # Every local query is in one place

Tickets number the local queries, so the tickets that are incoming, waiting, held or answered are at
all times the numbers given out so far, each once. A step moves queries from one place to another and
never copies or drops one. The handler stays ready and every query is one it handed out, so no call
that has something to do panics.
-/

namespace Tollgate.Engine.World

open Dns List

variable {libraries : Libraries} {deadline : ℕ} {world next : World} {event : Event}

theorem Moved.places (moved : Moved libraries world next)
    (places : (world.queries.map Query.ticket ++ world.answered).Perm (range world.tickets)) :
    (next.queries.map Query.ticket ++ next.answered).Perm (range next.tickets) := by
  cases moved with
  | stays same tickets answered =>
    rw [tickets, answered]
    exact ((same.map _).append_right _).trans places
  | arrives query more ticket tickets answered =>
    rw [tickets, answered, range_succ]
    refine ((more.map _).append_right _).trans ?_
    rw [map_cons, ticket]
    exact (places.cons _).trans (perm_append_singleton _ _).symm
  | leaves query fewer tickets answered =>
    rw [tickets, answered]
    refine .trans ?_ (((fewer.map _).append_right _).symm.trans places)
    rw [← append_assoc]
    exact perm_append_singleton _ _

theorem Stepped.wf (stepped : Stepped libraries deadline world event next) (wf : world.localJobs.Wf) :
    next.localJobs.Wf := by
  cases stepped with
  | resolveLocally found ran => exact Section.run_wf wf ran
  | completes removed => exact remove_wf wf removed
  | begin | accepts | handles | readResolver | resolve | ignores | answer | setNetwork | setLocalResolver | dns | tick =>
    exact wf

/-- Only a section hands out ids, and it goes on where the last one stopped. -/
theorem Stepped.ids (stepped : Stepped libraries deadline world event next)
    (ids : world.ids = range world.localJobs.nextId) : next.ids = range next.localJobs.nextId := by
  cases stepped with
  | @resolveLocally call expired resolver jobs work found ran =>
    obtain ⟨above, numbered⟩ := Section.run_numbered ran
    have length : work.jobs.nextId = world.localJobs.nextId + (work.jobs.nextId - world.localJobs.nextId) := by omega
    simp only [queued, setCall, numbered, ids]
    rw [length, range_add, Nat.add_sub_cancel_left, range'_eq_map_range]
  | completes removed =>
    obtain ⟨-, rfl⟩ := remove_eq_some_iff.mp removed
    exact ids
  | begin | accepts | handles | readResolver | resolve | ignores | answer | setNetwork | setLocalResolver | dns | tick =>
    exact ids

theorem Stepped.placed (stepped : Stepped libraries deadline world event next) (placed : world.Placed) : next.Placed :=
  ⟨stepped.wf placed.wf, stepped.ids placed.ids, (stepped.moved placed.wf).places placed.places⟩

theorem placed_start (blocklist : Option DomainSet) : (start blocklist).Placed :=
  ⟨LocalJobs.wf_empty, rfl, .refl _⟩

/-- A step calls the handler at most once. -/
theorem Stepped.effect (stepped : Stepped libraries deadline world event next) :
    ∃ call, Effect libraries.decoder world.handler call next.handler ∧ ∀ set ∈ call.blocklist?, set ∈ event.blocklist? := by
  cases stepped with
  | @accepts call bytes now jobs handler job found handled =>
    have effect := call_effect libraries world.handler (.handlePacket bytes now)
    rw [DnsHandler.call, handled] at effect
    exact ⟨_, effect, nofun⟩
  | @handles call bytes now handler outcome handled =>
    have effect := call_effect libraries world.handler (.handlePacket bytes now)
    rw [DnsHandler.call, handled] at effect
    exact ⟨_, effect, nofun⟩
  | @answer call now source records query jobs handler packet found completed =>
    have effect := call_effect libraries world.handler (.completeLocal query.job records now)
    rw [DnsHandler.call, completed] at effect
    exact ⟨_, effect, nofun⟩
  | setNetwork network => exact ⟨_, call_effect libraries world.handler (.setNetwork network), nofun⟩
  | @dns call upstream => exact ⟨call, call_effect libraries world.handler call, fun set member => member⟩
  | begin | readResolver | resolveLocally | resolve | completes | ignores | setLocalResolver | tick =>
    exact ⟨.forget (fun _ => true) (fun _ => true), .reads (.refl _), nofun⟩

theorem mem_queries_of_incoming {call : ℕ} {phase : Phase} (found : world.calls[call]? = some phase) {query : Query}
    (member : query ∈ phase.incoming) : query ∈ world.queries :=
  mem_append_left _ (mem_append_left _ (mem_flatMap.mpr ⟨phase, mem_of_getElem? found, member⟩))

theorem mem_queries_of_held {call : ℕ} {phase : Phase} (found : world.calls[call]? = some phase) {query : Query}
    (member : query ∈ phase.held) : query ∈ world.queries :=
  mem_append_right _ (mem_flatMap.mpr ⟨phase, mem_of_getElem? found, member⟩)

theorem mem_queries_of_waiting {id : ℕ} {lookup : LocalLookup} (waits : world.localJobs.waiting.lookup id = some lookup)
    {query : Query} (member : query ∈ lookup.jobs) : query ∈ world.queries :=
  mem_append_left _ (mem_append_right _ (mem_flatMap.mpr ⟨⟨id, lookup⟩, AList.mem_lookup_iff.mp waits, member⟩))

/-- The handler is ready, and the queries are some that it handed out. -/
structure Usable (world : World) : Prop where
  ready : world.handler.Ready
  jobs : ∀ query ∈ world.queries, ∃ message, query.job.Of message

section Live

variable (faithful : libraries.decoder.Faithful) (writes : libraries.packets.Writes)
include faithful writes

theorem Stepped.usable (stepped : Stepped libraries deadline world event next)
    (loaded : ∀ set ∈ event.blocklist?, set.Loaded) (wf : world.localJobs.Wf) (usable : world.Usable) : next.Usable := by
  obtain ⟨call, effect, lists⟩ := stepped.effect
  refine ⟨effect.ready faithful (fun set member => loaded set (lists set member)) usable.ready, ?_⟩
  intro query member
  cases stepped.moved wf with
  | stays same => exact usable.jobs query (same.mem_iff.mp member)
  | leaves gone fewer => exact usable.jobs query (fewer.mem_iff.mpr (mem_cons_of_mem _ member))
  | arrives new more _ _ _ handled =>
    rcases mem_cons.mp (more.mem_iff.mp member) with rfl | old
    · obtain ⟨bytes, now, handled⟩ := handled
      obtain ⟨after, outcome, same, serves⟩ := handlePacket_serves faithful writes usable.ready bytes now
      cases handled.symm.trans same
      exact serves _ (.inr rfl)
    · exact usable.jobs query old

/-- Nothing that a call still has to do panics. -/
theorem Usable.live (usable : world.Usable) (wf : world.localJobs.Wf) : world.Live libraries deadline := by
  refine ⟨fun call jobs found bytes now => ?_, fun call resolver jobs found expired same => ?_,
    fun call source records query jobs found now => ?_⟩
  · obtain ⟨after, outcome, handled, -⟩ := handlePacket_serves faithful writes usable.ready bytes now
    simp only [packet, found, handled, Option.bind_eq_bind, Option.bind_some]
    split <;> rfl
  · have asks : ∀ query ∈ jobs, (Section.question query).isSome := by
      intro query member
      obtain ⟨message, of⟩ := usable.jobs query (mem_queries_of_incoming found member)
      rw [Section.question, Requester.qtypeAndClass, of.requester.question, typeAndClass_encode]
      rfl
    obtain ⟨work, ran⟩ := Option.isSome_iff_exists.mp (@Section.run_isSome resolver world.clock _ _ expired wf asks)
    simp only [resolveLocally, found, isPerm_iff.mpr same, if_true, ran, Option.bind_eq_bind, Option.bind_some]
    rfl
  · obtain ⟨message, of⟩ := usable.jobs query (mem_queries_of_held found mem_cons_self)
    obtain ⟨after, -, -, packet, -, -, -, completed⟩ :=
      completeLocal_serves faithful writes of world.handler records now
    simp only [answer, found, completed, Option.bind_eq_bind, Option.bind_some]
    rfl

end Live

end Tollgate.Engine.World
