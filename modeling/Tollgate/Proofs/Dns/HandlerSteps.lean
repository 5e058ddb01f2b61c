import Tollgate.Proofs.Dns.Queries

/-! # What a call does to the caches

Answering a query only reads a cache, which may drop an expired answer; completing a job stores at
most one answer, checked against the question of the job. Every entry of a cache was therefore stored
by one completion in the history, and nothing else about the handler matters for it.
-/

namespace Tollgate.Dns

open List

/-- The cache has lost entries at most. -/
structure AnswerCache.Shrinks (before after : AnswerCache) : Prop where
  maxTtl : after.maxTtl = before.maxTtl
  entries : ∀ entry ∈ after.entries.entries, entry ∈ before.entries.entries

theorem AnswerCache.Shrinks.refl (cache : AnswerCache) : cache.Shrinks cache := ⟨rfl, fun _ member => member⟩

theorem get_shrinks (cache : AnswerCache) (key : Bytes) (now : UInt64) : cache.Shrinks (cache.get key now).2 := by
  unfold AnswerCache.get
  split
  · exact .refl cache
  · dsimp only
    split
    · exact ⟨rfl, fun _ member => Lru.mem_of_mem_pop member⟩
    · exact ⟨rfl, fun _ member => Lru.mem_of_mem_get member⟩

theorem keep_shrinks (cache : AnswerCache) (kept : Bytes → Bool) : cache.Shrinks (cache.keep kept) :=
  ⟨rfl, fun _ member => (Lru.mem_keep.mp member).1⟩

/-- A found answer is a live entry, and the seconds since it was stored are below its lifetime. -/
theorem get_eq_some {cache : AnswerCache} {key : Bytes} {now : UInt64} {answer : UpstreamAnswer} {elapsed : UInt32}
    (found : (cache.get key now).1 = some (answer, elapsed)) :
    ∃ entry, (key, entry) ∈ cache.entries.entries ∧ entry.answer = answer ∧
      now.toNat - entry.storedAt.toNat < entry.lifetime.toNat ∧
      elapsed.toNat = now.toNat - entry.storedAt.toNat := by
  unfold AnswerCache.get at found
  split at found
  · cases found
  · next entry stored =>
    dsimp only at found
    split at found
    · cases found
    · next live =>
      obtain ⟨rfl, rfl⟩ := Prod.mk.inj (Option.some.inj found)
      have bound := entry.lifetime.toNat_lt
      have size : UInt32.size = 2 ^ 32 := rfl
      refine ⟨entry, Lru.mem_of_peek stored, rfl, by omega, ?_⟩
      exact UInt32.toNat_ofNat_of_lt' (by omega)

/-- An entry of a cache after an insertion is the one inserted or was there before, under another key. -/
theorem mem_insert {cache after : AnswerCache} {key : Bytes} {answer : UpstreamAnswer} {now : UInt64}
    (inserted : cache.insert key answer now = some after) : after.maxTtl = cache.maxTtl ∧
      ∃ ttl, answer.minTtl = some ttl ∧ ∀ entry ∈ after.entries.entries,
        entry = (key, ⟨answer, now, cache.lifetime ttl⟩) ∨ (entry ∈ cache.entries.entries ∧ entry.1 ≠ key) := by
  obtain ⟨ttl, least, rfl⟩ := by
    simpa only [AnswerCache.insert, Option.bind_eq_bind, Option.bind_eq_some_iff, Option.some.injEq] using inserted
  exact ⟨rfl, ttl, least, fun entry member => Lru.mem_of_mem_put member⟩

/-- Everything of two handlers but their caches is the same, and these have lost entries at most. -/
structure DnsHandler.Reads (before after : DnsHandler) : Prop where
  blocklist : after.blocklist = before.blocklist
  allowlist : after.allowlist = before.allowlist
  cache : before.cache.Shrinks after.cache
  network : after.localState.network = before.localState.network
  generation : after.localState.generation = before.localState.generation
  localCache : before.localState.cache.Shrinks after.localState.cache

theorem DnsHandler.Reads.refl (handler : DnsHandler) : handler.Reads handler :=
  ⟨rfl, rfl, .refl _, rfl, rfl, .refl _⟩

variable {decoder : Decoder} {handler next : DnsHandler}

/-- A local job is given the network generation of its arrival. -/
def Reaction.Dated (reaction : Reaction) (generation : ℕ) : Prop :=
  ∀ job, reaction = .localJob job → job.network = generation

theorem answer_reads {client server : SocketAddr} {query : Bytes} {read : QueryRead} {now : UInt64}
    {reaction : Reaction} (answered : handler.answer client server query read now = some (next, reaction)) :
    handler.Reads next ∧ reaction.Dated handler.localState.generation := by
  unfold DnsHandler.answer at answered
  dsimp only at answered
  split at answered
  · obtain ⟨rfl, rfl⟩ := Prod.mk.inj (Option.some.inj answered)
    exact ⟨.refl _, nofun⟩
  · split at answered
    · obtain ⟨key, -, answered⟩ := Option.bind_eq_some_iff.mp answered
      have shrinks := get_shrinks handler.localState.cache (cacheKey key read.requester) now
      split at answered
      · obtain ⟨payload, -, answered⟩ := Option.bind_eq_some_iff.mp answered
        obtain ⟨rfl, rfl⟩ := Prod.mk.inj (Option.some.inj answered)
        exact ⟨⟨rfl, rfl, .refl _, rfl, rfl, shrinks⟩, nofun⟩
      · obtain ⟨rfl, rfl⟩ := Prod.mk.inj (Option.some.inj answered)
        refine ⟨⟨rfl, rfl, .refl _, rfl, rfl, shrinks⟩, fun job same => ?_⟩
        cases same
        rfl
    · obtain ⟨blocked, -, answered⟩ := Option.bind_eq_some_iff.mp answered
      split at answered
      · obtain ⟨payload, -, answered⟩ := Option.bind_eq_some_iff.mp answered
        obtain ⟨rfl, rfl⟩ := Prod.mk.inj (Option.some.inj answered)
        exact ⟨.refl _, nofun⟩
      · obtain ⟨key, -, answered⟩ := Option.bind_eq_some_iff.mp answered
        have shrinks := get_shrinks handler.cache (cacheKey key read.requester) now
        split at answered
        · obtain ⟨payload, -, answered⟩ := Option.bind_eq_some_iff.mp answered
          obtain ⟨rfl, rfl⟩ := Prod.mk.inj (Option.some.inj answered)
          exact ⟨⟨rfl, rfl, shrinks, rfl, rfl, .refl _⟩, nofun⟩
        · obtain ⟨rfl, rfl⟩ := Prod.mk.inj (Option.some.inj answered)
          exact ⟨⟨rfl, rfl, shrinks, rfl, rfl, .refl _⟩, nofun⟩

theorem respond_reads {client server : SocketAddr} {query : Bytes} {now : UInt64} {reaction : Reaction}
    (responded : handler.respond decoder client server query now = some (next, reaction)) :
    handler.Reads next ∧ reaction.Dated handler.localState.generation := by
  unfold DnsHandler.respond at responded
  obtain ⟨read, -, responded⟩ := Option.bind_eq_some_iff.mp responded
  cases read with
  | error rcode =>
    obtain ⟨payload, -, responded⟩ := Option.bind_eq_some_iff.mp responded
    obtain ⟨rfl, rfl⟩ := Prod.mk.inj (Option.some.inj responded)
    exact ⟨.refl _, nofun⟩
  | ok read => exact answer_reads responded

theorem handlePacket_reads {libraries : Libraries} {packet : Bytes} {now : UInt64} {outcome : Outcome}
    (handled : handler.handlePacket libraries packet now = some (next, outcome)) :
    handler.Reads next ∧ ∀ job, outcome = .localJob job → job.network = handler.localState.generation := by
  unfold DnsHandler.handlePacket at handled
  split at handled
  · obtain ⟨rfl, rfl⟩ := Prod.mk.inj (Option.some.inj handled)
    exact ⟨.refl _, nofun⟩
  · obtain ⟨isQuery, -, handled⟩ := Option.bind_eq_some_iff.mp handled
    split at handled
    · obtain ⟨⟨after, reaction⟩, responded, handled⟩ := Option.bind_eq_some_iff.mp handled
      obtain ⟨reads, dated⟩ := respond_reads responded
      cases reaction with
      | reply payload =>
        obtain ⟨written, -, handled⟩ := Option.bind_eq_some_iff.mp handled
        obtain ⟨rfl, rfl⟩ := Prod.mk.inj (Option.some.inj handled)
        exact ⟨reads, nofun⟩
      | forward job =>
        obtain ⟨rfl, rfl⟩ := Prod.mk.inj (Option.some.inj handled)
        exact ⟨reads, nofun⟩
      | localJob job =>
        obtain ⟨rfl, rfl⟩ := Prod.mk.inj (Option.some.inj handled)
        refine ⟨reads, fun other same => ?_⟩
        cases same
        exact dated job rfl
    · obtain ⟨rfl, rfl⟩ := Prod.mk.inj (Option.some.inj handled)
      exact ⟨.refl _, nofun⟩

/-- Completing a job stores at most the answer that was checked for it. -/
theorem finish_stores {job : ForwardJob} {answer : Except String Bytes} {now : UInt64} {payload : Bytes}
    (finished : handler.finish decoder job answer now = some (next, payload)) :
    next = handler ∨ ∃ wire upstream cache, answer = .ok wire ∧
      UpstreamAnswer.parse decoder wire job.key = some (.ok upstream) ∧
      handler.cache.insert (cacheKey job.key job.requester) upstream now = some cache ∧
      next = { handler with cache := cache } := by
  unfold DnsHandler.finish at finished
  obtain ⟨checked, checks, finished⟩ := Option.bind_eq_some_iff.mp finished
  cases checked with
  | error reason =>
    obtain ⟨rfl, -⟩ := Prod.mk.inj (Option.some.inj finished)
    exact .inl rfl
  | ok upstream =>
    obtain ⟨rendered, -, finished⟩ := Option.bind_eq_some_iff.mp finished
    obtain ⟨cacheable, -, finished⟩ := Option.bind_eq_some_iff.mp finished
    split at finished
    · obtain ⟨cache, inserted, finished⟩ := Option.bind_eq_some_iff.mp finished
      obtain ⟨rfl, -⟩ := Prod.mk.inj (Option.some.inj finished)
      cases answer with
      | error reason => cases checks
      | ok wire => exact .inr ⟨wire, upstream, cache, rfl, checks, inserted, rfl⟩
    · obtain ⟨rfl, -⟩ := Prod.mk.inj (Option.some.inj finished)
      exact .inl rfl

/-- Completing a local job stores the answer that was checked for it, on its network, if it is one to
keep, and nothing else. -/
theorem finishLocal_stores {job : ForwardJob} {records : Option (List LocalRecord)} {now : UInt64} {payload : Bytes}
    (finished : handler.finishLocal decoder job records now = some (next, payload)) :
    (handler.keepsAnswer decoder job records = false ∧ next = handler) ∨
      (handler.keepsAnswer decoder job records = true ∧ ∃ answer cache,
        DnsHandler.checkLocal decoder job.key records = some (.ok answer) ∧
        handler.localState.generation = job.network ∧
        handler.localState.cache.insert (cacheKey job.key job.requester) answer now = some cache ∧
        next = { handler with localState := { handler.localState with cache := cache } }) := by
  unfold DnsHandler.finishLocal at finished
  obtain ⟨checked, checks, finished⟩ := Option.bind_eq_some_iff.mp finished
  cases checked with
  | error reason =>
    obtain ⟨rfl, -⟩ := Prod.mk.inj (Option.some.inj finished)
    exact .inl ⟨by rw [DnsHandler.keepsAnswer, checks], rfl⟩
  | ok answer =>
    obtain ⟨rendered, -, finished⟩ := Option.bind_eq_some_iff.mp finished
    obtain ⟨found, has, finished⟩ := Option.bind_eq_some_iff.mp finished
    obtain ⟨cacheable, may, finished⟩ := Option.bind_eq_some_iff.mp finished
    split at finished
    · next kept =>
      obtain ⟨cache, inserted, finished⟩ := Option.bind_eq_some_iff.mp finished
      obtain ⟨rfl, -⟩ := Prod.mk.inj (Option.some.inj finished)
      refine .inr ⟨?_, answer, cache, checks, kept.2.2, inserted, rfl⟩
      simp only [DnsHandler.keepsAnswer, checks, has, may, kept, beq_self_eq_true, Bool.and_self]
    · next dropped =>
      obtain ⟨rfl, -⟩ := Prod.mk.inj (Option.some.inj finished)
      refine .inl ⟨Bool.not_eq_true _ ▸ fun kept => dropped ?_, rfl⟩
      simpa only [DnsHandler.keepsAnswer, checks, has, may, Bool.and_eq_true, beq_iff_eq, Option.some.injEq, and_assoc]
        using kept

end Tollgate.Dns
