import Tollgate.Model.Dns.Reference
import Tollgate.Proofs.Engine.Delivery

/-! # Every forwarded query gets one reply

However calls of `handle_packets`, the loops and tasks of runtimes, and starting and stopping interleave, a
forwarded query is in one place: on its way, answered, and that once, or dropped by a runtime that was told
to end. Queues and tasks stay within their limits. What goes back for a query is a reply to that query, and
nothing on the way panics.
-/

namespace Tollgate.Delivery

open Dns Engine Forwarding List

namespace World

variable {libraries : Libraries} {options : Options} {blocklist : Option DomainSet} {history : List Event} {world : World}

theorem placed_start (blocklist : Option DomainSet) : (start blocklist).Placed := .refl _

theorem lostByStop_start (blocklist : Option DomainSet) : (start blocklist).LostByStop := nofun

theorem counted_start (blocklist : Option DomainSet) :
    ∀ runtime ∈ (start blocklist).runtimes, Runtime.Counted options runtime := nofun

theorem placed_after (ran : after libraries options blocklist history = some world) : world.Placed :=
  Machine.run_invariant Placed (placed_start blocklist)
    (fun _ _ _ placed _ stepped => (stepped_of_step stepped).moved.placed placed)
    (Machine.along_of_forall_mem fun _ _ _ => trivial) ran

theorem lostByStop_after (ran : after libraries options blocklist history = some world) : world.LostByStop :=
  Machine.run_invariant LostByStop (lostByStop_start blocklist)
    (fun _ _ _ lost _ stepped => (stepped_of_step stepped).lostByStop lost)
    (Machine.along_of_forall_mem fun _ _ _ => trivial) ran

theorem bounded_after (ran : after libraries options blocklist history = some world) : world.Bounded options := by
  intro runtime member
  have counted := Machine.run_invariant (fun world : World => ∀ runtime ∈ world.runtimes, Runtime.Counted options runtime)
    (counted_start blocklist) (fun _ _ _ counted _ stepped => (stepped_of_step stepped).counted counted)
    (Machine.along_of_forall_mem fun _ _ _ => trivial) ran runtime member
  have permits := counted.permits
  exact ⟨counted.queue, by omega⟩

theorem usable_after (faithful : libraries.decoder.Faithful) (writes : libraries.packets.Writes)
    (loaded : ∀ set ∈ blocklist, set.Loaded) (lists : ∀ event ∈ history, ∀ set ∈ event.blocklist?, set.Loaded)
    (ran : after libraries options blocklist history = some world) : world.Usable libraries :=
  have along : Machine.Along (step libraries options) (start blocklist)
      (fun _ event => ∀ set ∈ event.blocklist?, set.Loaded) history :=
    Machine.along_of_forall_mem fun event member _ => lists event member
  Machine.run_invariant (Usable libraries) (usable_start loaded)
    (fun _ _ _ usable loaded stepped => (stepped_of_step stepped).usable faithful writes loaded usable) along ran

end World

/-- After every run each forwarded query is in exactly one place, only runtimes that were told to end dropped
any, and queues and tasks are within their limits. -/
theorem forwarded_queries_in_one_place (libraries : Libraries) (options : Options) (blocklist : Option DomainSet)
    (history : List Event) (world : World) (ran : World.after libraries options blocklist history = some world) :
    world.Placed ∧ world.LostByStop ∧ world.Bounded options :=
  ⟨World.placed_after ran, World.lostByStop_after ran, World.bounded_after ran⟩

theorem testTest_short : (encodeLabels [testLabel, testLabel]).length < 255 := by decide

/-- A query for `test.test`, type A. -/
def testQuery (id : UInt16) : Message where
  id := id
  flags := 1
  codes := 0
  question := ⟨[testLabel, testLabel], testTest_short, 1, 1⟩
  answers := []
  authorities := []
  additionals := []
  few := Message.few_nil

def testLibraries : Libraries := .knowing [testQuery 1, testQuery 2]

def testPacket (id : UInt16) : Bytes := (writeIpv4 0xc6120002 tunnelDnsV4 64 5000 53 (testQuery id).encode).getD []

/-- Two queries come in. The first is resolved and answered, and the second is dropped with the queue. -/
def twoQueries : List Event :=
  [.task 0 0 .deliver, .forward 0 .aborted, .stop, .task 0 0 (.complete 11), .task 0 0 (.resolved (.error "timeout")),
    .forward 0 .go, .forward 0 .go, .trySend 0, .packet 0 (testPacket 2) 10, .trySend 0, .packet 0 (testPacket 1) 10,
    .begin, .start]

theorem twoQueries_run : (World.after testLibraries ⟨256, 96⟩ none twoQueries).map
    (fun world => (world.answered.map Prod.fst, world.lost)) = some ([0], [(1, 0)]) := by decide

theorem forwarded_queries_in_one_place_sample :
    ∃ world, World.after testLibraries ⟨256, 96⟩ none twoQueries = some world ∧ world.answered.map Prod.fst = [0] ∧
      world.lost = [(1, 0)] ∧ world.Placed ∧ world.LostByStop := by
  obtain ⟨world, ran, holds⟩ := Option.map_eq_some_iff.mp twoQueries_run
  obtain ⟨answered, lost⟩ := Prod.mk.inj holds
  obtain ⟨placed, stopped, -⟩ := forwarded_queries_in_one_place testLibraries ⟨256, 96⟩ none twoQueries world ran
  exact ⟨world, ran, answered, lost, placed, stopped⟩

/-- After every run each packet that went back is a reply to the query with its ticket, and nothing that a
call or a task still has to do panics. -/
theorem forwarded_replies_match_queries (libraries : Libraries) (options : Options) (blocklist : Option DomainSet)
    (history : List Event) (world : World) (faithful : libraries.decoder.Faithful) (writes : libraries.packets.Writes)
    (loaded : ∀ set ∈ blocklist, set.Loaded) (lists : ∀ event ∈ history, ∀ set ∈ event.blocklist?, set.Loaded)
    (ran : World.after libraries options blocklist history = some world) :
    world.Answered libraries ∧ world.Live libraries := by
  have usable := World.usable_after faithful writes loaded lists ran
  exact ⟨usable.answered, usable.live faithful writes⟩

theorem forwarded_replies_match_queries_sample :
    ∃ world, World.after testLibraries ⟨256, 96⟩ none twoQueries = some world ∧ world.answered.map Prod.fst = [0] ∧
      world.Answered testLibraries := by
  obtain ⟨world, ran, holds⟩ := Option.map_eq_some_iff.mp twoQueries_run
  obtain ⟨answered, -⟩ := Prod.mk.inj holds
  have lists : ∀ event ∈ twoQueries, ∀ set ∈ event.blocklist?, set.Loaded := by simp [twoQueries, Event.blocklist?]
  obtain ⟨replies, -⟩ := forwarded_replies_match_queries testLibraries ⟨256, 96⟩ none twoQueries world
    (Decoder.knowing_faithful _) PacketLibrary.plain_writes nofun lists ran
  exact ⟨world, ran, answered, replies⟩

end Tollgate.Delivery
