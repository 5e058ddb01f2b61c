import Tollgate.Proofs.Dns.HandlerSteps

/-! # What the caches hold along a run

Every entry of a cache was stored by a completion in the history, under the key of its job, with the
answer that was checked for it, and is kept for its smallest TTL within the limits of that cache. The
jobs that come back are those of queries that were read.
-/

namespace Tollgate.Dns

open List

variable {libraries : Libraries} {handler : DnsHandler}

/-- The state after a call that may panic is the old one or the one it returned. -/
theorem same_or_returned {α : Type} {result : Option (DnsHandler × α)} {next : DnsHandler}
    (is : (result.map Prod.fst).getD handler = next) : handler = next ∨ ∃ value, result = some (next, value) := by
  cases result with
  | none => exact .inl is
  | some pair => exact .inr ⟨pair.2, congrArg (fun after => some (after, pair.2)) is⟩

/-- How long a cache with this limit keeps an answer. -/
structure CacheEntry.Kept (entry : CacheEntry) (limit : ℕ) : Prop where
  lifetime : ∃ ttl, entry.answer.minTtl = some ttl ∧ entry.lifetime.toNat = max 10 (min ttl.toNat limit)

theorem toNat_lifetime (cache : AnswerCache) (ttl : UInt32) :
    (cache.lifetime ttl).toNat = max 10 (min ttl.toNat cache.maxTtl.toNat) := by
  have least : minCacheTtl.toNat = 10 := rfl
  rw [AnswerCache.lifetime, UInt32.toNat_max, UInt32.toNat_min, least]

/-- What a call may add to a cache: the answer it has checked. -/
structure Stored (checked : Option (ForwardJob × UpstreamAnswer × UInt64)) (limit : ℕ) (key : Bytes)
    (entry : CacheEntry) (job : ForwardJob) : Prop where
  checked : checked = some (job, entry.answer, entry.storedAt)
  key : key = cacheKey job.key job.requester
  kept : entry.Kept limit

/-- What one call does to the handler, as far as the caches are concerned: it reads them, changes
the lists, changes the network, or stores one checked answer. -/
inductive Effect (decoder : Decoder) (before : DnsHandler) : Call → DnsHandler → Prop where
  | reads {call : Call} {after : DnsHandler} (reads : before.Reads after) : Effect decoder before call after
  | lists {call : Call} (blocklist : Option DomainSet) (allowlist : List HostPattern)
      (loaded : ∀ set ∈ blocklist, set ∈ before.blocklist ∨ set ∈ call.blocklist?) :
      Effect decoder before call { before with blocklist := blocklist, allowlist := allowlist }
  | network (network : Text) (new : before.localState.network ≠ network) :
      Effect decoder before (.setNetwork network)
        { before with localState := ⟨network, before.localState.generation + 1, DnsHandler.emptyLocalCache⟩ }
  | stores {job : ForwardJob} {wire : Bytes} {answer : UpstreamAnswer} {now : UInt64} {cache : AnswerCache}
      (checked : UpstreamAnswer.parse decoder wire job.key = some (.ok answer))
      (inserted : before.cache.insert (cacheKey job.key job.requester) answer now = some cache) :
      Effect decoder before (.complete job (.ok wire) now) { before with cache := cache }
  | storesLocal {job : ForwardJob} {records : Option (List LocalRecord)} {answer : UpstreamAnswer} {now : UInt64}
      {cache : AnswerCache} (checked : DnsHandler.checkLocal decoder job.key records = some (.ok answer))
      (same : before.localState.generation = job.network)
      (inserted : before.localState.cache.insert (cacheKey job.key job.requester) answer now = some cache) :
      Effect decoder before (.completeLocal job records now)
        { before with localState := { before.localState with cache := cache } }

theorem complete_finish {job : ForwardJob} {answer : Except String Bytes} {now : UInt64} {next : DnsHandler}
    {packet : Bytes} (completed : handler.complete libraries job answer now = some (next, packet)) :
    ∃ payload, handler.finish libraries.decoder job answer now = some (next, payload) := by
  unfold DnsHandler.complete at completed
  obtain ⟨⟨after, payload⟩, finished, completed⟩ := Option.bind_eq_some_iff.mp completed
  obtain ⟨written, -, completed⟩ := Option.bind_eq_some_iff.mp completed
  obtain ⟨rfl, -⟩ := Prod.mk.inj (Option.some.inj completed)
  exact ⟨payload, finished⟩

theorem completeLocal_finishLocal {job : ForwardJob} {records : Option (List LocalRecord)} {now : UInt64}
    {next : DnsHandler} {packet : Bytes}
    (completed : handler.completeLocal libraries job records now = some (next, packet)) :
    ∃ payload, handler.finishLocal libraries.decoder job records now = some (next, payload) := by
  unfold DnsHandler.completeLocal at completed
  obtain ⟨⟨after, payload⟩, finished, completed⟩ := Option.bind_eq_some_iff.mp completed
  obtain ⟨written, -, completed⟩ := Option.bind_eq_some_iff.mp completed
  obtain ⟨rfl, -⟩ := Prod.mk.inj (Option.some.inj completed)
  exact ⟨payload, finished⟩

/-- Every call has one of the effects. -/
theorem call_effect (libraries : Libraries) (handler : DnsHandler) (call : Call) :
    Effect libraries.decoder handler call (handler.call libraries call) := by
  generalize is : handler.call libraries call = next
  cases call with
  | handlePacket packet now =>
    rcases same_or_returned is with rfl | ⟨outcome, handled⟩
    · exact .reads (.refl handler)
    · exact .reads (handlePacket_reads handled).1
  | complete job answer now =>
    rcases same_or_returned is with rfl | ⟨packet, completed⟩
    · exact .reads (.refl handler)
    · obtain ⟨payload, finished⟩ := complete_finish completed
      rcases finish_stores finished with rfl | ⟨wire, upstream, cache, rfl, checked, inserted, rfl⟩
      · exact .reads (.refl _)
      · exact .stores checked inserted
  | completeLocal job records now =>
    rcases same_or_returned is with rfl | ⟨packet, completed⟩
    · exact .reads (.refl handler)
    · obtain ⟨payload, finished⟩ := completeLocal_finishLocal completed
      rcases finishLocal_stores finished with ⟨-, rfl⟩ | ⟨-, answer, cache, checked, network, inserted, rfl⟩
      · exact .reads (.refl _)
      · exact .storesLocal checked network inserted
  | setNetwork network =>
    have state : handler.setNetwork network = next := is
    unfold DnsHandler.setNetwork at state
    split at state
    · exact .reads (state ▸ .refl handler)
    · next new => exact state ▸ .network network new
  | setBlocklist blocklist => exact is ▸ .lists blocklist handler.allowlist fun set member => .inr member
  | setAllowlist patterns => exact is ▸ .lists handler.blocklist patterns fun set member => .inl member
  | forget kept keptLocal => exact .reads (is ▸ ⟨rfl, rfl, keep_shrinks .., rfl, rfl, keep_shrinks ..⟩)

variable {decoder : Decoder} {before after : DnsHandler} {call : Call} {key : Bytes} {entry : CacheEntry}

/-- An entry of the public cache was there before the call or was stored by it. -/
theorem Effect.mem_cache (effect : Effect decoder before call after) (member : (key, entry) ∈ after.cache.entries.entries) :
    (key, entry) ∈ before.cache.entries.entries ∨
      ∃ job, Stored (call.checked decoder) before.cache.maxTtl.toNat key entry job := by
  cases effect with
  | reads reads => exact .inl (reads.cache.entries _ member)
  | lists => exact .inl member
  | network => exact .inl member
  | storesLocal => exact .inl member
  | @stores job wire answer now cache checked inserted =>
    obtain ⟨-, ttl, least, entries⟩ := mem_insert inserted
    rcases entries _ member with new | ⟨old, -⟩
    · obtain ⟨rfl, rfl⟩ := Prod.mk.inj new
      have found : Call.checked decoder (.complete job (.ok wire) now) = some (job, answer, now) := by
        simp only [Call.checked, DnsHandler.checkUpstream, checked]
      exact .inr ⟨job, found, rfl, ttl, least, toNat_lifetime ..⟩
    · exact .inl old

/-- An entry of the local cache was there before the call or was stored by it, on the network of its
query; after a change of network there is none. -/
theorem Effect.mem_localCache (effect : Effect decoder before call after)
    (member : (key, entry) ∈ after.localState.cache.entries.entries) :
    after.localState.generation = before.localState.generation ∧
      ((key, entry) ∈ before.localState.cache.entries.entries ∨
        ∃ job, Stored (call.checkedLocal decoder) before.localState.cache.maxTtl.toNat key entry job ∧
          job.network = before.localState.generation) := by
  cases effect with
  | reads reads => exact ⟨reads.generation, .inl (reads.localCache.entries _ member)⟩
  | lists => exact ⟨rfl, .inl member⟩
  | network => contradiction
  | stores => exact ⟨rfl, .inl member⟩
  | @storesLocal job records answer now cache checked same inserted =>
    obtain ⟨-, ttl, least, entries⟩ := mem_insert inserted
    rcases entries _ member with new | ⟨old, -⟩
    · obtain ⟨rfl, rfl⟩ := Prod.mk.inj new
      have found : Call.checkedLocal decoder (.completeLocal job records now) = some (job, answer, now) := by
        simp only [Call.checkedLocal, checked]
      exact ⟨rfl, .inr ⟨job, ⟨found, rfl, ttl, least, toNat_lifetime ..⟩, same.symm⟩⟩
    · exact ⟨rfl, .inl old⟩

theorem Effect.maxTtl (effect : Effect decoder before call after) : after.cache.maxTtl = before.cache.maxTtl := by
  cases effect with
  | reads reads => exact reads.cache.maxTtl
  | stores _ inserted => exact (mem_insert inserted).1
  | lists | network | storesLocal => rfl

theorem Effect.localMaxTtl (effect : Effect decoder before call after)
    (limit : before.localState.cache.maxTtl = maxLocalTtl) : after.localState.cache.maxTtl = maxLocalTtl := by
  cases effect with
  | reads reads => exact reads.localCache.maxTtl.trans limit
  | storesLocal _ _ inserted => exact (mem_insert inserted).1.trans limit
  | lists | stores => exact limit
  | network => rfl

/-- The network generation never goes back. -/
theorem Effect.generation_le (effect : Effect decoder before call after) :
    before.localState.generation ≤ after.localState.generation := by
  cases effect with
  | reads reads => exact Nat.le_of_eq reads.generation.symm
  | network => exact Nat.le_succ _
  | lists | stores | storesLocal => exact Nat.le_refl _

section Runs

variable (libraries : Libraries) (blocklist : Option DomainSet) {history past : List Call}

theorem after_effect (call : Call) (past : List Call) :
    Effect libraries.decoder (DnsHandler.after libraries blocklist past) call
      (DnsHandler.after libraries blocklist (call :: past)) :=
  call_effect ..

theorem maxTtl_after (history : List Call) : (DnsHandler.after libraries blocklist history).cache.maxTtl = maxCacheTtl := by
  induction history with
  | nil => rfl
  | cons call past ih => exact (after_effect libraries blocklist call past).maxTtl.trans ih

theorem localMaxTtl_after (history : List Call) :
    (DnsHandler.after libraries blocklist history).localState.cache.maxTtl = maxLocalTtl := by
  induction history with
  | nil => rfl
  | cons call past ih => exact (after_effect libraries blocklist call past).localMaxTtl ih

/-- Every answer in the public cache was stored by a completion of the history. -/
theorem stored_of_mem (member : (key, entry) ∈ (DnsHandler.after libraries blocklist history).cache.entries.entries) :
    ∃ call ∈ history, ∃ job, Stored (call.checked libraries.decoder) 3600 key entry job := by
  induction history with
  | nil => contradiction
  | cons call past ih =>
    have limit := maxTtl_after libraries blocklist past
    rcases (after_effect libraries blocklist call past).mem_cache member with old | ⟨job, stored⟩
    · obtain ⟨earlier, found, rest⟩ := ih old
      exact ⟨earlier, mem_cons_of_mem _ found, rest⟩
    · rw [limit] at stored
      exact ⟨call, mem_cons_self, job, stored⟩

/-- Every answer in the local cache was stored by a completion of the history. -/
theorem localStored_of_mem
    (member : (key, entry) ∈ (DnsHandler.after libraries blocklist history).localState.cache.entries.entries) :
    ∃ call ∈ history, ∃ job, Stored (call.checkedLocal libraries.decoder) 60 key entry job := by
  induction history with
  | nil => contradiction
  | cons call past ih =>
    have limit := localMaxTtl_after libraries blocklist past
    rcases ((after_effect libraries blocklist call past).mem_localCache member).2 with old | ⟨job, stored, -⟩
    · obtain ⟨earlier, found, rest⟩ := ih old
      exact ⟨earlier, mem_cons_of_mem _ found, rest⟩
    · rw [limit] at stored
      exact ⟨call, mem_cons_self, job, stored⟩

end Runs

/-- Two addresses of one family. -/
def SocketAddr.SameFamily (left right : SocketAddr) : Prop :=
  match left.ip, right.ip with
  | .v4 _, .v4 _ | .v6 _, .v6 _ => True
  | _, _ => False

/-- What a job keeps of the query it was made from. -/
structure ForwardJob.Of (job : ForwardJob) (query : Message) : Prop where
  prefixed : HasAt job.query 0 query.encode
  requester : job.requester.OfQuery query
  key : job.key = query.question.lower.encode
  family : job.server.SameFamily job.client

theorem parseUdp_family {library : PacketLibrary} {packet : Bytes} {datagram : UdpDatagram}
    (parsed : parseUdp library packet = some datagram) : datagram.destination.SameFamily datagram.source := by
  unfold parseUdp at parsed
  obtain ⟨sliced, -, parsed⟩ := Option.bind_eq_some_iff.mp parsed
  obtain ⟨net, -, parsed⟩ := Option.bind_eq_some_iff.mp parsed
  obtain ⟨⟨source, destination⟩, addresses, parsed⟩ := Option.bind_eq_some_iff.mp parsed
  dsimp only at parsed
  split at parsed
  · obtain rfl := Option.some.inj parsed
    cases net with
    | other => contradiction
    | ipv4 | ipv6 =>
      simp only [NetSlice.addresses] at addresses
      split at addresses
      · contradiction
      · obtain ⟨rfl, rfl⟩ := Prod.mk.inj (Option.some.inj addresses)
        trivial
  · contradiction

theorem replyPacket_isSome {library : PacketLibrary} (writes : library.Writes) {server client : SocketAddr}
    (family : server.SameFamily client) {payload : Bytes} (short : payload.length ≤ 1232) :
    (replyPacket library server client payload).isSome := by
  obtain ⟨sender, port⟩ := server
  obtain ⟨receiver, port'⟩ := client
  unfold replyPacket buildUdp
  cases sender with
  | v4 =>
    cases receiver with
    | v4 => exact writes.v4 _ _ _ _ _ _ short
    | v6 => exact family.elim
  | v6 =>
    cases receiver with
    | v4 => exact family.elim
    | v6 => exact writes.v6 _ _ _ _ _ _ short

end Tollgate.Dns
