import Tollgate.Proofs.Dns.Replies

/-! # What a cache hit serves

A hit goes back to the completion that stored its entry. The key of the entry determines question and
DO bit, its lifetime comes from the smallest stored TTL, and rendering ages every record by the time
since then.
-/

namespace Tollgate.Dns

open List

theorem toNat_min? (ttls : List UInt32) : ttls.min?.map UInt32.toNat = (ttls.map UInt32.toNat).min? := by
  cases ttls with
  | nil => rfl
  | cons first rest =>
    have least : (rest.foldl min first).toNat = (rest.map UInt32.toNat).foldl min first.toNat := by
      induction rest generalizing first with
      | nil => rfl
      | cons ttl rest ih =>
        rw [foldl_cons, ih, UInt32.toNat_min, map_cons, foldl_cons]
    rw [min?_cons', map_cons, min?_cons', Option.map_some, least]

theorem UpstreamAnswer.Represents.leastTtl {answer : UpstreamAnswer} {message : Message}
    (represents : answer.Represents message) {ttl : UInt32} (least : answer.minTtl = some ttl) :
    ttl.toNat = message.leastTtl := by
  have same := Option.some.inj (least.symm.trans represents.minTtl_eq)
  have numbers := toNat_min? (message.records.map Record.ttl)
  rw [map_map] at numbers
  rw [same, Message.leastTtl]
  change _ = ((message.records.map (UInt32.toNat ∘ Record.ttl)).min?).getD 0
  rw [← numbers]
  cases (message.records.map Record.ttl).min? <;> rfl

/-- Serving from a cache renders the stored answer. -/
theorem answer_hit {handler : DnsHandler} {query : Bytes} {read : QueryRead} {now : UInt64} {cached : UpstreamAnswer}
    {elapsed : UInt32} (hit : handler.hit query read now = some (cached, elapsed)) (client server : SocketAddr)
    {payload : Bytes} (rendered : cached.render read.requester elapsed = some payload) :
    ∃ next, handler.answer client server query read now = some (next, .reply payload) := by
  unfold DnsHandler.hit at hit
  unfold DnsHandler.answer
  split at hit
  · cases hit
  · next other =>
    obtain ⟨key, keyed, hit⟩ := Option.bind_eq_some_iff.mp hit
    dsimp only
    rw [if_neg other, keyed]
    split at hit
    · next nearby =>
      rw [if_pos nearby]
      simp only [Option.bind_eq_bind, Option.bind_some, hit, rendered]
      exact ⟨_, rfl⟩
    · next distant =>
      rw [if_neg distant]
      split at hit
      · next unblocked =>
        simp only [unblocked, Option.bind_eq_bind, Option.bind_some, hit, rendered]
        exact ⟨_, rfl⟩
      · cases hit

/-- The lookup behind a hit. -/
theorem hit_eq_some {handler : DnsHandler} {query : Bytes} {read : QueryRead} {message : Message}
    (of : read.Of query message) {now : UInt64} {found : UpstreamAnswer × UInt32}
    (hit : handler.hit query read now = some found) :
    (isLocalName read.question.name = true ∧
      (handler.localState.cache.get (cacheKey message.question.lower.encode read.requester) now).1 = some found) ∨
    (isLocalName read.question.name = false ∧ handler.isBlocked read.question.name = some false ∧
      (handler.cache.get (cacheKey message.question.lower.encode read.requester) now).1 = some found) := by
  unfold DnsHandler.hit at hit
  rw [of.key] at hit
  split at hit
  · cases hit
  · simp only [Option.bind_eq_bind, Option.bind_some] at hit
    split at hit
    · next nearby => exact .inl ⟨nearby, hit⟩
    · next distant =>
      split at hit
      · next unblocked => exact .inr ⟨Bool.not_eq_true _ ▸ distant, unblocked, hit⟩
      · cases hit

/-- An entry that was stored for a job is served to a query with the same key. -/
theorem served_of_stored {requester : Requester} {asked stored : Message} (asks : requester.OfQuery asked)
    {job : ForwardJob} (of : job.Of stored) {entry : CacheEntry} {answer : Message}
    (represents : entry.answer.Represents answer) (checked : job.key = answer.question.lower.encode)
    (key : cacheKey asked.question.lower.encode requester = cacheKey job.key job.requester) {limit : ℕ}
    (kept : entry.Kept limit) {now : UInt64} {elapsed : UInt32}
    (live : now.toNat - entry.storedAt.toNat < entry.lifetime.toNat)
    (age : elapsed.toNat = now.toNat - entry.storedAt.toNat) :
    ∃ whole, Served asked stored limit requester entry.answer entry.storedAt now elapsed answer whole := by
  have question := asks.question
  rw [of.key] at key checked
  obtain ⟨same, bits⟩ := cacheKey_eq_iff.mp key
  have width : answer.question.encode.length = asked.question.encode.length := by
    rw [← answer.question.length_lower, ← checked, ← Question.lower_eq_iff.mpr same, Question.length_lower]
  obtain ⟨ttl, least, lifetime⟩ := kept
  rw [lifetime, represents.leastTtl least] at live
  refine ⟨represents.whole requester asked.question elapsed.toNat,
    ⟨same, by rw [← asks.any_dnssecOk, ← of.requester.any_dnssecOk, bits]⟩, represents.bytes, live, age,
    by rw [width, question], represents.untrimmed_eq question width elapsed, rfl, rfl,
    requester.optRecord.toList, rfl, ?_⟩
  intro record member
  obtain ⟨edns, -, rfl⟩ := Option.map_eq_some_iff.mp (Option.mem_toList.mp member)
  rfl

section Runs

variable {libraries : Libraries} (faithful : libraries.decoder.Faithful) (writes : libraries.packets.Writes)
  {blocklist : Option DomainSet} {history : List Call} (genuine : Genuine libraries blocklist history)
include faithful writes genuine

/-- A job that comes back belongs to a query. -/
theorem completed_of {call : Call} (member : call ∈ history) {job : ForwardJob} (back : job ∈ call.job?) :
    ∃ message, job.Of message := by
  induction history with
  | nil => contradiction
  | cons newest past ih =>
    rcases mem_cons.mp member with rfl | earlier
    · exact issued_of faithful writes genuine.2.2 (genuine.1 job back)
    · exact ih genuine.2.2 earlier

/-- A hit in the public cache goes back to a completion of the history. -/
theorem public_hit {requester : Requester} {asked : Message} (asks : requester.OfQuery asked) {now : UInt64}
    {cached : UpstreamAnswer} {elapsed : UInt32}
    (hit : ((DnsHandler.after libraries blocklist history).cache.get
      (cacheKey asked.question.lower.encode requester) now).1 = some (cached, elapsed)) :
    ∃ call ∈ history, ∃ job storedAt stored answer whole,
      call.checked libraries.decoder = some (job, cached, storedAt) ∧ HasAt job.query 0 stored.encode ∧
        Served asked stored 3600 requester cached storedAt now elapsed answer whole := by
  obtain ⟨entry, found, rfl, live, age⟩ := get_eq_some hit
  obtain ⟨call, member, job, stored⟩ := stored_of_mem libraries blocklist found
  obtain ⟨result, rfl, accepted⟩ := checked_eq_some stored.checked
  obtain ⟨original, of⟩ := completed_of faithful writes genuine member (Option.mem_some_self job)
  obtain ⟨message, represents, is⟩ := checkUpstream_ok faithful accepted
  obtain ⟨whole, served⟩ := served_of_stored asks of represents is stored.key stored.kept live age
  exact ⟨_, member, job, _, original, message, whole, stored.checked, of.prefixed, served⟩

/-- A hit in the local cache goes back to a completion of the history. -/
theorem local_hit {requester : Requester} {asked : Message} (asks : requester.OfQuery asked) {now : UInt64}
    {cached : UpstreamAnswer} {elapsed : UInt32}
    (hit : ((DnsHandler.after libraries blocklist history).localState.cache.get
      (cacheKey asked.question.lower.encode requester) now).1 = some (cached, elapsed)) :
    ∃ call ∈ history, ∃ job storedAt stored answer whole,
      call.checkedLocal libraries.decoder = some (job, cached, storedAt) ∧ HasAt job.query 0 stored.encode ∧
        Served asked stored 60 requester cached storedAt now elapsed answer whole := by
  obtain ⟨entry, found, rfl, live, age⟩ := get_eq_some hit
  obtain ⟨call, member, job, stored⟩ := localStored_of_mem libraries blocklist found
  obtain ⟨records, rfl, accepted⟩ := checkedLocal_eq_some stored.checked
  obtain ⟨original, of⟩ := completed_of faithful writes genuine member (Option.mem_some_self job)
  obtain ⟨message, represents, is⟩ := checkLocal_ok faithful accepted
  obtain ⟨whole, served⟩ := served_of_stored asks of represents is stored.key stored.kept live age
  exact ⟨_, member, job, _, original, message, whole, stored.checked, of.prefixed, served⟩

end Runs

end Tollgate.Dns
