import Tollgate.Model.Dns.Reference
import Tollgate.Proofs.Engine.Networks

/-! # Local lookups over whole runs

However the calls into the engine interleave, no local query is lost or answered twice, the two maps of
the lookups agree, and no call panics. Local answers stay on their network as long as no query joins a
lookup that began before the query's network; a run in which one does shows that the condition is
needed.
-/

namespace Tollgate.Engine

open Dns List

namespace World

variable {libraries : Libraries} {deadline : ℕ} {blocklist : Option DomainSet} {history : List Event} {world : World}

theorem placed_after (ran : after libraries deadline blocklist history = some world) : world.Placed := by
  refine Machine.run_invariant Placed (placed_start blocklist) (fun before event next placed _ stepped => ?_)
    (Machine.along_of_forall_mem fun _ _ _ => trivial) ran
  exact (stepped_of_step stepped).placed placed

theorem usable_after (faithful : libraries.decoder.Faithful) (writes : libraries.packets.Writes)
    (loaded : ∀ set ∈ blocklist, set.Loaded) (lists : ∀ event ∈ history, ∀ set ∈ event.blocklist?, set.Loaded)
    (ran : after libraries deadline blocklist history = some world) : world.Usable := by
  have both : world.Placed ∧ world.Usable := by
    refine Machine.run_invariant (fun world => world.Placed ∧ world.Usable)
      ⟨placed_start blocklist, ready_new loaded, nofun⟩ (fun before event next holds given stepped => ?_)
      (Machine.along_of_forall_mem fun event member _ => lists event member) ran
    have moved := stepped_of_step stepped
    exact ⟨moved.placed holds.1, moved.usable faithful writes given holds.1.wf holds.2⟩
  exact both.2

theorem current_after
    (along : Machine.Along (step libraries deadline) (start blocklist)
      (fun world event => world.Completes event ∧ world.JoinsCurrent event) history)
    (ran : after libraries deadline blocklist history = some world) : world.Current libraries.decoder := by
  have both : world.Placed ∧ world.Current libraries.decoder := by
    refine Machine.run_invariant (fun world => world.Placed ∧ world.Current libraries.decoder)
      ⟨placed_start blocklist, current_start _ blocklist⟩ (fun before event next holds given stepped => ?_) along ran
    have moved := stepped_of_step stepped
    exact ⟨moved.placed holds.1, moved.current holds.1.wf holds.2 given.1 given.2⟩
  exact both.2

end World

/-- After every run the lookups are in order, ids were never reused, every local query is in exactly one
place, the lookup of an indexed question is there, and no call that has something to do panics. -/
theorem local_queries_in_one_place (libraries : Libraries) (deadline : ℕ) (blocklist : Option DomainSet)
    (history : List Event) (world : World) (ran : World.after libraries deadline blocklist history = some world) :
    world.Placed ∧
      (∀ question id, world.localJobs.byQuestion.lookup question = some id →
        (world.localJobs.waiting.lookup id).isSome) ∧
      (libraries.decoder.Faithful → libraries.packets.Writes → (∀ set ∈ blocklist, set.Loaded) →
        (∀ event ∈ history, ∀ set ∈ event.blocklist?, set.Loaded) → world.Live libraries deadline) := by
  have placed := World.placed_after ran
  refine ⟨placed, fun question id indexed => ?_, fun faithful writes loaded lists => ?_⟩
  · obtain ⟨lookup, waits, -⟩ := (placed.wf.inverse question id).mp indexed
    exact Option.isSome_of_eq_some waits
  · exact (World.usable_after faithful writes loaded lists ran).live faithful writes placed.wf

/-- The question `nas.lan`, type A. -/
def localQuestion : Question where
  labels := nasLan
  short := nasLan_short
  qtype := 1
  qclass := 1

def localQuery (id : UInt16) : Message where
  id := id
  flags := 1
  codes := 0
  question := localQuestion
  answers := []
  authorities := []
  additionals := []
  few := Message.few_nil

/-- An address of the local network, for 30 seconds. -/
def localAddress : LocalRecord := ⟨1, 1, 30, [192, 168, 1, 20]⟩

/-- The message that the address becomes. -/
def localReply : Message where
  id := 0
  flags := 0x81
  codes := 0x80
  question := localQuestion
  answers := [⟨⟨[], .pointer 0xc0 0x0c NameEnd.marked_question, encodeLabels_nil_short⟩, 1, 1, 30,
    [192, 168, 1, 20], by decide⟩]
  authorities := []
  additionals := []
  few := by decide

def localLibraries : Libraries := .knowing [localQuery 7, localQuery 8, localQuery 9, localReply]

def localPacket (id : UInt16) : Bytes := (writeIpv4 0xc6120002 tunnelDnsV4 64 5000 53 (localQuery id).encode).getD []

/-- A local query is handed to the resolver. -/
def asks (call : ℕ) (id : UInt16) : List Event :=
  [.resolveLocally call [], .readResolver call, .packet call (localPacket id) 10, .begin]

/-- On one network a query starts a lookup, which is then completed. -/
def oneNetwork : List Event :=
  [.answer 1 20, .completeLocal 0 (some [localAddress]), .resolve 0] ++ asks 0 7 ++
    [.setLocalResolver true, .setNetwork "home".toList]

theorem local_queries_in_one_place_sample :
    ∃ world, World.after localLibraries 5 none oneNetwork = some world ∧ world.Placed ∧ world.Live localLibraries 5 := by
  obtain ⟨world, ran⟩ := Option.isSome_iff_exists.mp
    (by decide : (World.after localLibraries 5 none oneNetwork).isSome = true)
  obtain ⟨placed, -, live⟩ := local_queries_in_one_place localLibraries 5 none oneNetwork world ran
  refine ⟨world, ran, placed, live (Decoder.knowing_faithful _) PacketLibrary.plain_writes nofun ?_⟩
  simp [oneNetwork, asks, Event.blocklist?]

/-- As long as no query joins a lookup from before its network, every answer that a local query is served
from the cache was made from the records of a lookup that began after the last change of network. -/
theorem local_answers_stay_on_network (libraries : Libraries) (deadline : ℕ) (blocklist : Option DomainSet)
    (history : List Event) (world : World) (ran : World.after libraries deadline blocklist history = some world)
    (along : Machine.Along (World.step libraries deadline) (World.start blocklist)
      (fun world event => world.Completes event ∧ world.JoinsCurrent event) history)
    (query : Bytes) (read : QueryRead) (nearby : isLocalName read.question.name = true) (now : UInt64)
    (cached : UpstreamAnswer) (elapsed : UInt32) (hit : world.handler.hit query read now = some (cached, elapsed)) :
    ∃ key, questionKey query read.stop = some key ∧
      world.OfNetwork libraries.decoder (cacheKey key read.requester) cached := by
  have current := World.current_after along ran
  unfold DnsHandler.hit at hit
  split at hit
  · cases hit
  · obtain ⟨key, keyed, hit⟩ := Option.bind_eq_some_iff.mp hit
    obtain ⟨entry, member, rfl, -, -⟩ := get_eq_some hit
    exact ⟨key, keyed, current.cached _ entry member⟩

/-- What is read of the sample query. -/
def localRead (id : UInt16) : QueryRead where
  requester := ⟨id, true, localQuestion.encode, none⟩
  question := ⟨"nas.lan.".toList, 1⟩
  stop := 25

/-- The key of the sample question, from a requester without the DO bit. -/
def localKey : Bytes := localQuestion.encode ++ [0]

/-- A second query joins the lookup of the first; then the network changes and a third one starts another. -/
def movedNetwork : List Event :=
  [.answer 4 20, .completeLocal 1 (some [localAddress]), .resolve 3] ++ asks 3 9 ++ [.setNetwork "office".toList] ++
    [.answer 2 20, .answer 2 20, .completeLocal 0 (some [localAddress])] ++ asks 1 8 ++ [.resolve 0] ++ asks 0 7 ++
    [.setLocalResolver true, .setNetwork "home".toList]

/-- Two queries wait for the first lookup, which began on the first network; what is served later is of the
second lookup, which began on the second. -/
theorem local_answers_stay_on_network_sample : ∃ joined world cached elapsed,
    World.after localLibraries 5 none (movedNetwork.drop 11) = some joined ∧
      joined.localJobs.waiting.entries.map (fun waiting => (waiting.1, waiting.2.jobs.length)) = [(0, 2)] ∧
      World.after localLibraries 5 none movedNetwork = some world ∧
      world.started 0 = some 1 ∧ world.started 1 = some 2 ∧
      world.handler.hit (localQuery 9).encode (localRead 9) 25 = some (cached, elapsed) ∧
      ∃ key, questionKey (localQuery 9).encode 25 = some key ∧
        world.OfNetwork localLibraries.decoder (cacheKey key (localRead 9).requester) cached := by
  have joins : (World.after localLibraries 5 none (movedNetwork.drop 11)).map (fun world =>
      world.localJobs.waiting.entries.map fun waiting => (waiting.1, waiting.2.jobs.length)) = some [(0, 2)] := by
    decide +kernel
  have state : (World.after localLibraries 5 none movedNetwork).map (fun world =>
      ((world.handler.hit (localQuery 9).encode (localRead 9) 25).isSome, world.started 0, world.started 1)) =
        some (true, some 1, some 2) := by decide +kernel
  obtain ⟨joined, reached, waiting⟩ := Option.map_eq_some_iff.mp joins
  obtain ⟨world, ran, facts⟩ := Option.map_eq_some_iff.mp state
  obtain ⟨served, first, second⟩ : _ ∧ _ ∧ _ := by simpa only [Prod.mk.injEq] using facts
  obtain ⟨⟨cached, elapsed⟩, hit⟩ := Option.isSome_iff_exists.mp served
  exact ⟨joined, world, cached, elapsed, reached, waiting, ran, first, second, hit,
    local_answers_stay_on_network localLibraries 5 none movedNetwork world ran (by decide +kernel) _ (localRead 9)
      (by decide) 25 cached elapsed hit⟩

/-- A query that arrives after a change of network joins the lookup that began before it. -/
def twoNetworks : List Event :=
  [.answer 2 20, .answer 2 20, .completeLocal 0 (some [localAddress])] ++ asks 1 8 ++ [.setNetwork "office".toList, .resolve 0] ++
    asks 0 7 ++ [.setLocalResolver true, .setNetwork "home".toList]

/-- The lookup began in the first network, the second one is current, and a query is served the records
of the first. -/
theorem local_answers_cross_networks :
    Machine.Along (World.step localLibraries 5) (World.start none) World.Completes twoNetworks ∧
      ∃ world cached elapsed, World.after localLibraries 5 none twoNetworks = some world ∧
        isLocalName (localRead 9).question.name = true ∧
        world.handler.hit (localQuery 9).encode (localRead 9) 25 = some (cached, elapsed) ∧
        world.origin localKey = some (0, [localAddress]) ∧ world.started 0 = some 1 ∧
        world.handler.localState.generation = 2 ∧
        ¬ world.OfNetwork localLibraries.decoder (cacheKey localQuestion.encode (localRead 9).requester) cached := by
  have state : (World.after localLibraries 5 none twoNetworks).map (fun world =>
      ((world.handler.hit (localQuery 9).encode (localRead 9) 25).isSome, world.origin localKey, world.started 0,
        world.handler.localState.generation)) = some (true, some (0, [localAddress]), some 1, 2) := by decide
  refine ⟨by decide, ?_⟩
  obtain ⟨world, ran, facts⟩ := Option.map_eq_some_iff.mp state
  obtain ⟨served, origin, start, generation⟩ : _ ∧ _ ∧ _ ∧ _ := by simpa only [Prod.mk.injEq] using facts
  obtain ⟨⟨cached, elapsed⟩, hit⟩ := Option.isSome_iff_exists.mp served
  refine ⟨world, cached, elapsed, ran, by decide, hit, origin, start, generation, ?_⟩
  rintro ⟨id, found, question, requester, source, begins, -⟩
  obtain ⟨rfl, -⟩ := Prod.mk.inj (Option.some.inj (source.symm.trans origin))
  rw [start, generation] at begins
  cases begins

end Tollgate.Engine
