import Tollgate.Proofs.Dns.HandlerRuns
import Tollgate.Proofs.Filter.AnyFile

/-! # Every call returns a reply that suits its query

No call of the handler panics: stored answers render for every query that finds them, because a key
determines the length of its question, and completions work on checked answers only. What is sent
back suits the requester in every case.
-/

namespace Tollgate

theorem DomainSet.Loaded.isBlocked_isSome {set : DomainSet} (loaded : set.Loaded) (host : Text) :
    (set.isBlocked host).isSome := by
  obtain ⟨bytes, new⟩ := loaded
  rcases DomainSet.new_spec bytes with ⟨reason, refused⟩ | ⟨other, contents, same, -, reads⟩
  · cases refused.symm.trans new
  · cases same.symm.trans new
    exact reads.isBlocked_isSome rfl

namespace Dns

open List

/-- The TTL fields of a checked answer hold the TTLs of its records. -/
theorem mapM_ttlAt {answer : UpstreamAnswer} {stored : Bytes} {records : List Record}
    (plain : ∀ record ∈ records, record.isOpt = false) (bytes : answer.bytes = stored ++ encodeRecords records) :
    (ttlFields stored.length records).mapM answer.ttlAt = some (records.map Record.ttl) := by
  induction records generalizing stored with
  | nil => rfl
  | cons record records ih =>
    obtain ⟨here, later⟩ := forall_mem_cons.mp plain
    obtain ⟨front, back, width, encode⟩ := record.encode_split
    have own : record.encode = front ++ (be32 record.ttl ++ back) := encode record.ttl
    have read : answer.ttlAt (stored.length + record.owner.encode.length + 4) = some record.ttl := by
      apply ttlAt_of_hasAt
      have field : stored.length + record.owner.encode.length + 4 = (stored ++ front).length := by
        rw [length_append, width, Nat.add_assoc]
      rw [bytes, encodeRecords_cons, own, field]
      simpa only [append_assoc] using hasAt_middle (stored ++ front) (be32 record.ttl) (back ++ encodeRecords records)
    have moved : answer.bytes = (stored ++ record.encode) ++ encodeRecords records := by
      rw [bytes, encodeRecords_cons, append_assoc]
    have rest := ih later moved
    rw [length_append] at rest
    rw [ttlFields, if_neg (by simp [here]), singleton_append, mapM_cons, read, rest]
    rfl

namespace UpstreamAnswer.Represents

variable {answer : UpstreamAnswer} {message : Message}

theorem minTtl_eq (represents : answer.Represents message) :
    answer.minTtl = some ((message.records.map Record.ttl).min?.getD 0) := by
  have bytes : answer.bytes = (message.header ++ message.question.encode) ++ encodeRecords message.records :=
    represents.bytes
  have ttls := mapM_ttlAt represents.plain bytes
  rw [length_append, Message.length_header] at ttls
  rw [UpstreamAnswer.minTtl, represents.ttlOffsets, ttls]
  rfl

theorem cacheable_isSome (represents : answer.Represents message) : answer.cacheable.isSome := by
  rw [UpstreamAnswer.cacheable, represents.bytes, message.flags_at, message.codes_at]
  rfl

theorem hasAnswers_isSome (represents : answer.Represents message) : answer.hasAnswers.isSome := by
  have count := (Message.hasAt_encode_iff.mp message.hasAt_self).2.2.2.2.1
  have read := slice_of_hasAt count (count.length_le (ne_nil_of_length_eq_add_one (length_be16 _)))
  rw [length_be16] at read
  rw [UpstreamAnswer.hasAnswers, represents.bytes, read]
  rfl

theorem insert_isSome (represents : answer.Represents message) (cache : AnswerCache) (key : Bytes) (now : UInt64) :
    (cache.insert key answer now).isSome := by
  rw [AnswerCache.insert, represents.minTtl_eq]
  rfl

end UpstreamAnswer.Represents

/-- Every entry holds the answer to a question that its key starts with. -/
def AnswerCache.Good (cache : AnswerCache) : Prop :=
  ∀ key entry, (key, entry) ∈ cache.entries.entries →
    ∃ message requester, entry.answer.Represents message ∧ key = cacheKey message.question.lower.encode requester

theorem parse_ok {decoder : Decoder} (faithful : decoder.Faithful) {wire key : Bytes} {answer : UpstreamAnswer}
    (checked : UpstreamAnswer.parse decoder wire key = some (.ok answer)) :
    ∃ message, answer.Represents message ∧ key = message.question.lower.encode := by
  rcases parse_spec faithful.header wire key with ⟨reason, refused⟩ | ⟨other, message, accepted, spec⟩
  · cases refused.symm.trans checked
  · cases accepted.symm.trans checked
    exact ⟨message, spec.1, spec.2.1⟩

/-- A stored answer has the response codes that came from upstream. -/
theorem parse_codes {decoder : Decoder} (faithful : decoder.Faithful) {wire key : Bytes} {answer : UpstreamAnswer}
    (checked : UpstreamAnswer.parse decoder wire key = some (.ok answer)) : answer.bytes[3]? = wire[3]? := by
  rcases parse_spec faithful.header wire key with ⟨reason, refused⟩ | ⟨other, message, accepted, represents, -, codes⟩
  · cases refused.symm.trans checked
  · cases accepted.symm.trans checked
    rw [represents.bytes, message.codes_at, codes]

theorem checkUpstream_ok {decoder : Decoder} (faithful : decoder.Faithful) {key : Bytes} {answer : Except String Bytes}
    {upstream : UpstreamAnswer} (checked : DnsHandler.checkUpstream decoder key answer = some (.ok upstream)) :
    ∃ message, upstream.Represents message ∧ key = message.question.lower.encode := by
  cases answer with
  | error reason => cases checked
  | ok wire => exact parse_ok faithful checked

theorem checkLocal_ok {decoder : Decoder} (faithful : decoder.Faithful) {key : Bytes}
    {records : Option (List LocalRecord)} {answer : UpstreamAnswer}
    (checked : DnsHandler.checkLocal decoder key records = some (.ok answer)) :
    ∃ message, answer.Represents message ∧ key = message.question.lower.encode := by
  cases records with
  | none => cases checked
  | some records =>
    obtain ⟨wire, -, checked⟩ := Option.bind_eq_some_iff.mp checked
    exact parse_ok faithful checked

theorem checkUpstream_isSome {decoder : Decoder} (faithful : decoder.Faithful) (key : Bytes)
    (answer : Except String Bytes) : (DnsHandler.checkUpstream decoder key answer).isSome := by
  cases answer with
  | error reason => rfl
  | ok wire =>
    rcases parse_spec faithful.header wire key with ⟨reason, checked⟩ | ⟨_, _, checked, -⟩ <;>
      exact Option.isSome_of_eq_some checked

/-- Appending records keeps what was there. -/
theorem length_addLocalRecords (qtype qclass : UInt16) (records : List LocalRecord) (out : Bytes) (count : ℕ) :
    out.length ≤ (addLocalRecords qtype qclass records out count).1.length := by
  induction records generalizing out count with
  | nil => exact Nat.le_refl _
  | cons record records ih =>
    rw [addLocalRecords]
    dsimp only
    split
    · exact ih ..
    · split
      · exact ih ..
      · split
        · simp only [length_append]
          omega
        · refine Nat.le_trans ?_ (ih ..)
          simp only [length_append]
          omega

theorem localAnswer_isSome (question : Question) (records : List LocalRecord) :
    (localAnswer question.encode records).isSome := by
  rw [localAnswer, typeAndClass_encode, Option.bind_eq_bind, Option.bind_some]
  have longer := length_addLocalRecords question.qtype question.qclass records
    ([0, 0, 0x81, 0x80, 0, 1, 0, 0, 0, 0, 0, 0] ++ question.encode) 0
  rw [length_append] at longer
  simp only [length_cons, length_nil] at longer
  dsimp only
  rw [setU16, writeAt, if_pos (by rw [length_be16]; omega)]
  rfl

theorem checkLocal_isSome {decoder : Decoder} (faithful : decoder.Faithful) (question : Question)
    (records : Option (List LocalRecord)) : (DnsHandler.checkLocal decoder question.encode records).isSome := by
  cases records with
  | none => rfl
  | some records =>
    obtain ⟨wire, written⟩ := Option.isSome_iff_exists.mp (localAnswer_isSome question records)
    simp only [DnsHandler.checkLocal, written, Option.bind_eq_bind, Option.bind_some]
    rcases parse_spec faithful.header wire question.encode with ⟨reason, checked⟩ | ⟨_, _, checked, -⟩ <;>
      exact Option.isSome_of_eq_some checked

/-- A stored answer renders for every query that finds it. -/
theorem AnswerCache.Good.render {cache : AnswerCache} (good : cache.Good) {requester : Requester} {question : Question}
    (asked : requester.question = question.encode) {now : UInt64} {answer : UpstreamAnswer} {elapsed : UInt32}
    (hit : (cache.get (cacheKey question.lower.encode requester) now).1 = some (answer, elapsed)) :
    ∃ payload reply, answer.render requester elapsed = some payload ∧ requester.Suits question payload reply := by
  obtain ⟨entry, member, rfl, -⟩ := get_eq_some hit
  obtain ⟨message, other, represents, key⟩ := good _ entry member
  have same := Question.lower_eq_iff.mpr (cacheKey_eq_iff.mp key).1
  apply render_suits represents asked
  rw [← Question.length_lower, ← same, Question.length_lower]

/-- A handler whose lists were loaded and whose caches hold answers under the keys of their questions. -/
structure DnsHandler.Ready (handler : DnsHandler) : Prop where
  blocklist : ∀ set ∈ handler.blocklist, set.Loaded
  cache : handler.cache.Good
  localCache : handler.localState.cache.Good

theorem DnsHandler.isBlocked_isSome {handler : DnsHandler} (loaded : ∀ set ∈ handler.blocklist, set.Loaded)
    (name : Text) : (handler.isBlocked name).isSome := by
  unfold DnsHandler.isBlocked
  cases list : handler.blocklist with
  | none => rfl
  | some set =>
    obtain ⟨blocked, found⟩ := Option.isSome_iff_exists.mp ((loaded set list).isBlocked_isSome name)
    simp only [found, Option.bind_eq_bind, Option.bind_some]
    rfl

/-- What a reaction owes the query: a reply fits it, and a job keeps what its replies depend on. -/
def Reaction.Serves (reaction : Reaction) (query : Bytes) (message : Message) : Prop :=
  match reaction with
  | .reply payload => ∃ reply, message.Answers payload reply
  | .forward job | .localJob job => job.Of message ∧ job.query = query

/-- A query that was read is answered or becomes a job. -/
theorem answer_serves {handler : DnsHandler} (ready : handler.Ready) {client server : SocketAddr}
    (family : server.SameFamily client) {query : Bytes} {read : QueryRead} {message : Message}
    (of : read.Of query message) (now : UInt64) :
    ∃ next reaction, handler.answer client server query read now = some (next, reaction) ∧
      reaction.Serves query message := by
  have asked := of.requester.question
  have job (key : Bytes) (is : key = message.question.lower.encode) (name : Text) (network : ℕ) :
      ForwardJob.Of ⟨query, client, server, read.requester, key, name, network⟩ message :=
    ⟨of.prefixed, of.requester, is, family⟩
  unfold DnsHandler.answer
  dsimp only
  split
  · obtain ⟨reply, suits⟩ := Requester.empty_suits asked noError
    exact ⟨_, _, rfl, reply, of.requester.answers suits⟩
  · rw [of.key]
    split
    · simp only [Option.bind_eq_bind, Option.bind_some]
      split
      · next cached elapsed hit =>
        obtain ⟨payload, reply, rendered, suits⟩ := ready.localCache.render asked hit
        simp only [rendered, Option.bind_some]
        exact ⟨_, _, rfl, reply, of.requester.answers suits⟩
      · exact ⟨_, _, rfl, job _ rfl _ _, rfl⟩
    · obtain ⟨blocked, found⟩ := Option.isSome_iff_exists.mp (DnsHandler.isBlocked_isSome ready.blocklist read.question.name)
      simp only [found, Option.bind_eq_bind, Option.bind_some]
      split
      · obtain ⟨payload, reply, written, suits⟩ := Requester.blocked_suits asked
        simp only [written, Option.bind_some]
        exact ⟨_, _, rfl, reply, of.requester.answers suits⟩
      · split
        · next cached elapsed hit =>
          obtain ⟨payload, reply, rendered, suits⟩ := ready.cache.render asked hit
          simp only [rendered, Option.bind_some]
          exact ⟨_, _, rfl, reply, of.requester.answers suits⟩
        · exact ⟨_, _, rfl, job _ rfl _ _, rfl⟩

section Completions

variable {decoder : Decoder} {job : ForwardJob} {query : Message}

/-- A checked answer renders for the job it was checked for. -/
theorem ForwardJob.Of.render (of : job.Of query) {answer : UpstreamAnswer} {message : Message}
    (represents : answer.Represents message) (key : job.key = message.question.lower.encode) (elapsed : UInt32) :
    ∃ payload reply, answer.render job.requester elapsed = some payload ∧ query.Answers payload reply := by
  have width : message.question.encode.length = query.question.encode.length := by
    rw [← Question.length_lower, ← key, of.key, Question.length_lower]
  obtain ⟨payload, reply, rendered, suits⟩ := render_suits represents of.requester.question width elapsed
  exact ⟨payload, reply, rendered, of.requester.answers suits⟩

/-- Every job is answered, whatever came from upstream. -/
theorem finish_serves (faithful : decoder.Faithful) (of : job.Of query) (handler : DnsHandler)
    (answer : Except String Bytes) (now : UInt64) :
    ∃ next payload reply, handler.finish decoder job answer now = some (next, payload) ∧
      query.Answers payload reply := by
  obtain ⟨checked, checks⟩ := Option.isSome_iff_exists.mp (checkUpstream_isSome faithful job.key answer)
  unfold DnsHandler.finish
  simp only [checks, Option.bind_eq_bind, Option.bind_some]
  cases checked with
  | error reason =>
    obtain ⟨reply, suits⟩ := Requester.empty_suits of.requester.question servFail
    exact ⟨_, _, reply, rfl, of.requester.answers suits⟩
  | ok upstream =>
    obtain ⟨message, represents, key⟩ := checkUpstream_ok faithful checks
    obtain ⟨payload, reply, rendered, answers⟩ := of.render represents key 0
    obtain ⟨cacheable, kind⟩ := Option.isSome_iff_exists.mp represents.cacheable_isSome
    simp only [rendered, kind, Option.bind_some]
    split
    · obtain ⟨cache, inserted⟩ := Option.isSome_iff_exists.mp
        (represents.insert_isSome handler.cache (cacheKey job.key job.requester) now)
      simp only [inserted, Option.bind_some]
      exact ⟨_, _, reply, rfl, answers⟩
    · exact ⟨_, _, reply, rfl, answers⟩

/-- Every local job is answered, whatever the local resolver found. -/
theorem finishLocal_serves (faithful : decoder.Faithful) (of : job.Of query) (handler : DnsHandler)
    (records : Option (List LocalRecord)) (now : UInt64) :
    ∃ next payload reply, handler.finishLocal decoder job records now = some (next, payload) ∧
      query.Answers payload reply := by
  obtain ⟨checked, checks⟩ := Option.isSome_iff_exists.mp (checkLocal_isSome faithful query.question.lower records)
  rw [← of.key] at checks
  unfold DnsHandler.finishLocal
  simp only [checks, Option.bind_eq_bind, Option.bind_some]
  cases checked with
  | error reason =>
    obtain ⟨reply, suits⟩ := Requester.empty_suits of.requester.question servFail
    exact ⟨_, _, reply, rfl, of.requester.answers suits⟩
  | ok answer =>
    obtain ⟨message, represents, key⟩ := checkLocal_ok faithful checks
    obtain ⟨payload, reply, rendered, answers⟩ := of.render represents key 0
    obtain ⟨cacheable, kind⟩ := Option.isSome_iff_exists.mp represents.cacheable_isSome
    obtain ⟨found, any⟩ := Option.isSome_iff_exists.mp represents.hasAnswers_isSome
    simp only [rendered, kind, any, Option.bind_some]
    split
    · obtain ⟨cache, inserted⟩ := Option.isSome_iff_exists.mp
        (represents.insert_isSome handler.localState.cache (cacheKey job.key job.requester) now)
      simp only [inserted, Option.bind_some]
      exact ⟨_, _, reply, rfl, answers⟩
    · exact ⟨_, _, reply, rfl, answers⟩

end Completions

theorem Message.replyLimit_le (query : Message) : query.replyLimit ≤ 1232 := by
  unfold Message.replyLimit
  split <;> omega

/-- A reply that fits its query can be put into a packet. -/
theorem Message.Answers.packet {library : PacketLibrary} (writes : library.Writes) {query reply : Message}
    {payload : Bytes} (answers : query.Answers payload reply) {server client : SocketAddr}
    (family : server.SameFamily client) : ∃ packet, replyPacket library server client payload = some packet :=
  Option.isSome_iff_exists.mp (replyPacket_isSome writes family (answers.short.trans query.replyLimit_le))

theorem headerOnly_spec {query : Bytes} (long : headerLen ≤ query.length) (rcode : UInt8) :
    ∃ payload, headerOnly query rcode = some payload ∧ payload.length = 12 := by
  have twelve : headerLen = 12 := rfl
  have flags : query[2]? = some query[2] := getElem?_eq_getElem (by omega)
  rw [headerOnly, slice_isSome (by omega) (by omega), flags]
  refine ⟨_, rfl, ?_⟩
  simp only [length_append, length_drop, length_take, length_cons, length_nil, length_replicate]
  omega

theorem isQuery_isSome (datagram : UdpDatagram) : (DnsHandler.isQuery datagram).isSome := by
  unfold DnsHandler.isQuery
  split
  · rfl
  · next query =>
    have twelve : headerLen = 12 := rfl
    rw [not_or, not_lt] at query
    have flags : datagram.payload[2]? = some datagram.payload[2] := getElem?_eq_getElem (by omega)
    rw [isResponse, flags]
    rfl

theorem isQuery_long {datagram : UdpDatagram} (is : DnsHandler.isQuery datagram = some true) :
    headerLen ≤ datagram.payload.length := by
  unfold DnsHandler.isQuery at is
  split at is
  · cases is
  · next query => exact not_lt.mp (not_or.mp query).2

section Packets

variable {libraries : Libraries} (faithful : libraries.decoder.Faithful) (writes : libraries.packets.Writes)
include faithful writes

theorem complete_serves {job : ForwardJob} {query : Message} (of : job.Of query) (handler : DnsHandler)
    (answer : Except String Bytes) (now : UInt64) :
    ∃ next payload reply packet, handler.finish libraries.decoder job answer now = some (next, payload) ∧
      query.Answers payload reply ∧ replyPacket libraries.packets job.server job.client payload = some packet ∧
      handler.complete libraries job answer now = some (next, packet) := by
  obtain ⟨next, payload, reply, finished, answers⟩ := finish_serves faithful of handler answer now
  obtain ⟨packet, written⟩ := Message.Answers.packet writes answers of.family
  refine ⟨next, payload, reply, packet, finished, answers, written, ?_⟩
  simp only [DnsHandler.complete, finished, written, Option.bind_eq_bind, Option.bind_some]

theorem completeLocal_serves {job : ForwardJob} {query : Message} (of : job.Of query) (handler : DnsHandler)
    (records : Option (List LocalRecord)) (now : UInt64) :
    ∃ next payload reply packet, handler.finishLocal libraries.decoder job records now = some (next, payload) ∧
      query.Answers payload reply ∧ replyPacket libraries.packets job.server job.client payload = some packet ∧
      handler.completeLocal libraries job records now = some (next, packet) := by
  obtain ⟨next, payload, reply, finished, answers⟩ := finishLocal_serves faithful of handler records now
  obtain ⟨packet, written⟩ := Message.Answers.packet writes answers of.family
  refine ⟨next, payload, reply, packet, finished, answers, written, ?_⟩
  simp only [DnsHandler.completeLocal, finished, written, Option.bind_eq_bind, Option.bind_some]

omit writes in
/-- A query for the tunnel is answered or becomes a job; what cannot be read gets a header only. -/
theorem respond_serves {handler : DnsHandler} (ready : handler.Ready) {client server : SocketAddr}
    (family : server.SameFamily client) {query : Bytes} (long : headerLen ≤ query.length) (now : UInt64) :
    ∃ next reaction, handler.respond libraries.decoder client server query now = some (next, reaction) ∧
      ((∃ payload, reaction = .reply payload ∧ payload.length ≤ 1232) ∨
        ∃ message, HasAt query 0 message.encode ∧ reaction.Serves query message) := by
  unfold DnsHandler.respond
  rcases readQuery_spec faithful query with ⟨rcode, refused⟩ | ⟨read, message, accepted, of⟩
  · obtain ⟨payload, written, width⟩ := headerOnly_spec long rcode
    simp only [refused, written, Option.bind_eq_bind, Option.bind_some]
    exact ⟨_, _, rfl, .inl ⟨payload, rfl, by omega⟩⟩
  · obtain ⟨next, reaction, answered, serves⟩ := answer_serves ready family of now
    simp only [accepted, Option.bind_eq_bind, Option.bind_some]
    exact ⟨next, reaction, answered, .inr ⟨message, of.prefixed, serves⟩⟩

/-- Every packet is handled: it is dropped, answered or becomes a job. -/
theorem handlePacket_serves {handler : DnsHandler} (ready : handler.Ready) (packet : Bytes) (now : UInt64) :
    ∃ next outcome, handler.handlePacket libraries packet now = some (next, outcome) ∧
      ∀ job, outcome = .forward job ∨ outcome = .localJob job → ∃ message, job.Of message := by
  unfold DnsHandler.handlePacket
  split
  · exact ⟨_, _, rfl, by simp⟩
  · next datagram parsed =>
    have family := parseUdp_family parsed
    obtain ⟨asks, is⟩ := Option.isSome_iff_exists.mp (isQuery_isSome datagram)
    simp only [is, Option.bind_eq_bind, Option.bind_some]
    split
    · next query =>
      rw [query] at is
      obtain ⟨next, reaction, responded, serves⟩ := respond_serves faithful ready family (isQuery_long is) now
      simp only [responded, Option.bind_some]
      cases reaction with
      | reply payload =>
        have short : payload.length ≤ 1232 := by
          rcases serves with ⟨_, same, short⟩ | ⟨message, -, reply, answers⟩
          · cases same
            exact short
          · exact answers.short.trans message.replyLimit_le
        obtain ⟨written, packet⟩ := Option.isSome_iff_exists.mp (replyPacket_isSome writes family short)
        simp only [packet, Option.bind_some]
        exact ⟨_, _, rfl, by simp⟩
      | forward job =>
        rcases serves with ⟨_, other, -⟩ | ⟨message, -, of, -⟩
        · cases other
        · refine ⟨_, _, rfl, fun job same => ?_⟩
          rcases same with same | same <;> cases same
          exact ⟨message, of⟩
      | localJob job =>
        rcases serves with ⟨_, other, -⟩ | ⟨message, -, of, -⟩
        · cases other
        · refine ⟨_, _, rfl, fun job same => ?_⟩
          rcases same with same | same <;> cases same
          exact ⟨message, of⟩
    · exact ⟨_, _, rfl, by simp⟩

theorem handsOut_of {handler : DnsHandler} (ready : handler.Ready) {call : Call} {job : ForwardJob}
    (handed : handler.handsOut libraries call = some job) : ∃ message, job.Of message := by
  cases call with
  | handlePacket packet now =>
    obtain ⟨next, outcome, handled, serves⟩ := handlePacket_serves faithful writes ready packet now
    simp only [DnsHandler.handsOut, handled] at handed
    split at handed
    · next same =>
      cases same
      cases handed
      exact serves _ (.inl rfl)
    · next same =>
      cases same
      cases handed
      exact serves _ (.inr rfl)
    · cases handed
  | complete | completeLocal | setNetwork | setBlocklist | setAllowlist | forget => cases handed

end Packets

theorem checked_eq_some {decoder : Decoder} {call : Call} {job : ForwardJob} {answer : UpstreamAnswer} {now : UInt64}
    (checked : call.checked decoder = some (job, answer, now)) :
    ∃ result, call = .complete job result now ∧
      DnsHandler.checkUpstream decoder job.key result = some (.ok answer) := by
  unfold Call.checked at checked
  split at checked
  · split at checked
    · next accepted =>
      cases checked
      exact ⟨_, rfl, accepted⟩
    · cases checked
  · cases checked

theorem checkedLocal_eq_some {decoder : Decoder} {call : Call} {job : ForwardJob} {answer : UpstreamAnswer}
    {now : UInt64} (checked : call.checkedLocal decoder = some (job, answer, now)) :
    ∃ records, call = .completeLocal job records now ∧
      DnsHandler.checkLocal decoder job.key records = some (.ok answer) := by
  unfold Call.checkedLocal at checked
  split at checked
  · split at checked
    · next accepted =>
      cases checked
      exact ⟨_, rfl, accepted⟩
    · cases checked
  · cases checked

theorem Effect.mem_blocklist {decoder : Decoder} {before after : DnsHandler} {call : Call}
    (effect : Effect decoder before call after) {set : DomainSet} (member : set ∈ after.blocklist) :
    set ∈ before.blocklist ∨ set ∈ call.blocklist? := by
  cases effect with
  | reads reads => exact .inl (reads.blocklist ▸ member)
  | lists _ _ loaded => exact loaded set member
  | network | stores | storesLocal => exact .inl member

/-- A call keeps the handler ready, unless it brings in a blocklist that was not loaded. -/
theorem Effect.ready {decoder : Decoder} (faithful : decoder.Faithful) {before after : DnsHandler} {call : Call}
    (effect : Effect decoder before call after) (loaded : ∀ set ∈ call.blocklist?, set.Loaded)
    (ready : before.Ready) : after.Ready := by
  refine ⟨fun set member => ?_, fun key entry member => ?_, fun key entry member => ?_⟩
  · exact (effect.mem_blocklist member).elim (ready.blocklist set) (loaded set)
  · rcases effect.mem_cache member with old | ⟨job, stored⟩
    · exact ready.cache key entry old
    · obtain ⟨result, -, accepted⟩ := checked_eq_some stored.checked
      obtain ⟨message, represents, is⟩ := checkUpstream_ok faithful accepted
      exact ⟨message, _, represents, by rw [stored.key, is]⟩
  · rcases (effect.mem_localCache member).2 with old | ⟨job, stored, -⟩
    · exact ready.localCache key entry old
    · obtain ⟨records, -, accepted⟩ := checkedLocal_eq_some stored.checked
      obtain ⟨message, represents, is⟩ := checkLocal_ok faithful accepted
      exact ⟨message, _, represents, by rw [stored.key, is]⟩

theorem ready_new {blocklist : Option DomainSet} (loaded : ∀ set ∈ blocklist, set.Loaded) :
    (DnsHandler.new blocklist).Ready :=
  ⟨loaded, nofun, nofun⟩

section Runs

variable {libraries : Libraries} (faithful : libraries.decoder.Faithful) {blocklist : Option DomainSet}
  {history : List Call}

include faithful in
theorem ready_after (genuine : Genuine libraries blocklist history) :
    (DnsHandler.after libraries blocklist history).Ready := by
  induction history with
  | nil => exact ready_new genuine
  | cons call past ih =>
    exact (after_effect libraries blocklist call past).ready faithful genuine.2.1 (ih genuine.2.2)

include faithful in
/-- Every job that was handed out belongs to a query. -/
theorem issued_of (writes : libraries.packets.Writes) (genuine : Genuine libraries blocklist history)
    {job : ForwardJob} (issued : job ∈ DnsHandler.issued libraries blocklist history) : ∃ message, job.Of message := by
  induction history with
  | nil => contradiction
  | cons call past ih =>
    rcases mem_append.mp issued with new | old
    · exact handsOut_of faithful writes (ready_after faithful genuine.2.2) (Option.mem_toList.mp new)
    · exact ih genuine.2.2 old

end Runs

end Dns

end Tollgate
