import Tollgate.Model.Dns.Reference
import Tollgate.Proofs.Dns.CacheHits

/-! # Replies of the DNS responder, over every run

In every state that calls of the handler can bring about, each packet is handled without a panic, and
what is sent back for a query with one readable question is a well-formed message that fits the query,
whichever path made it and whatever came from upstream. What is served from a cache was stored for a
query with the same question and DO bit, and is served only while it lives, with its TTLs counted down.
-/

namespace Tollgate.Dns

open List

/-- Every reply to a query with one readable question fits the query and its packet can be built, in
every state of the handler and for every result of a resolver; and no packet makes it panic. -/
theorem replies_fit_queries (libraries : Libraries) (faithful : libraries.decoder.Faithful)
    (writes : libraries.packets.Writes) (blocklist : Option DomainSet) (history : List Call)
    (genuine : Genuine libraries blocklist history) :
    let handler := DnsHandler.after libraries blocklist history
    (∀ packet now datagram decoded stop, parseUdp libraries.packets packet = some datagram →
      DnsHandler.isQuery datagram = some true → libraries.decoder datagram.payload = some decoded →
      decoded.opCode = 0 → questionEnd datagram.payload = some stop →
      ∃ query : Message, HasAt datagram.payload 0 query.encode ∧
        ((∃ payload reply next written, query.Answers payload reply ∧
            handler.respond libraries.decoder datagram.source datagram.destination datagram.payload now =
              some (next, .reply payload) ∧
            replyPacket libraries.packets datagram.destination datagram.source payload = some written ∧
            handler.handlePacket libraries packet now = some (next, .reply written)) ∨
          ∃ next job, job.query = datagram.payload ∧
            (handler.handlePacket libraries packet now = some (next, .forward job) ∨
              handler.handlePacket libraries packet now = some (next, .localJob job)))) ∧
    (∀ job ∈ DnsHandler.issued libraries blocklist history, ∃ query : Message, HasAt job.query 0 query.encode ∧
      (∀ answer now, ∃ next payload reply written, query.Answers payload reply ∧
        handler.finish libraries.decoder job answer now = some (next, payload) ∧
        replyPacket libraries.packets job.server job.client payload = some written ∧
        handler.complete libraries job answer now = some (next, written)) ∧
      ∀ records now, ∃ next payload reply written, query.Answers payload reply ∧
        handler.finishLocal libraries.decoder job records now = some (next, payload) ∧
        replyPacket libraries.packets job.server job.client payload = some written ∧
        handler.completeLocal libraries job records now = some (next, written)) ∧
    ∀ packet now, (handler.handlePacket libraries packet now).isSome := by
  intro handler
  have ready : handler.Ready := ready_after faithful genuine
  refine ⟨?_, ?_, ?_⟩
  · intro packet now datagram decoded stop parsed asks accepted standard ends
    obtain ⟨read, query, readable, of⟩ := readQuery_of_decoded faithful accepted standard ends
    have family := parseUdp_family parsed
    obtain ⟨next, reaction, answered, serves⟩ := answer_serves ready family of now
    have responded : handler.respond libraries.decoder datagram.source datagram.destination datagram.payload now =
        some (next, reaction) := by
      simp only [DnsHandler.respond, readable, Option.bind_eq_bind, Option.bind_some, answered]
    refine ⟨query, of.prefixed, ?_⟩
    simp only [DnsHandler.handlePacket, parsed, asks, responded, Option.bind_eq_bind, Option.bind_some, if_true]
    cases reaction with
    | reply payload =>
      obtain ⟨reply, answers⟩ := serves
      obtain ⟨written, packed⟩ := Message.Answers.packet writes answers family
      exact .inl ⟨payload, reply, next, written, answers, rfl, packed, by simp only [packed, Option.bind_some]⟩
    | forward job => exact .inr ⟨next, job, serves.2, .inl rfl⟩
    | localJob job => exact .inr ⟨next, job, serves.2, .inr rfl⟩
  · intro job issued
    obtain ⟨query, of⟩ := issued_of faithful writes genuine issued
    refine ⟨query, of.prefixed, fun answer now => ?_, fun records now => ?_⟩
    · obtain ⟨next, payload, reply, written, finished, answers, packed, completed⟩ :=
        complete_serves faithful writes of handler answer now
      exact ⟨next, payload, reply, written, answers, finished, packed, completed⟩
    · obtain ⟨next, payload, reply, written, finished, answers, packed, completed⟩ :=
        completeLocal_serves faithful writes of handler records now
      exact ⟨next, payload, reply, written, answers, finished, packed, completed⟩
  · intro packet now
    obtain ⟨next, outcome, handled, -⟩ := handlePacket_serves faithful writes ready packet now
    exact Option.isSome_of_eq_some handled

/-- The message at the start of an encoded one is that message. -/
theorem Message.eq_of_hasAt (message : Message) {other : Message} (stands : HasAt message.encode 0 other.encode) :
    other = message := by
  obtain ⟨rest, same⟩ := stands
  exact (readable_message (same.trans (append_nil _).symm)).1

/-- The question `A.test`, type A. -/
def sampleQuestion : Question where
  labels := [⟨[65], by decide, by decide⟩, testLabel]
  short := by decide
  qtype := 1
  qclass := 1

/-- A query with OPT and the DO bit; `codes` holds the CD bit. -/
def sampleQuery (id : UInt16) (codes : UInt8) : Message where
  id := id
  flags := 1
  codes := codes
  question := sampleQuestion
  answers := []
  authorities := []
  additionals := [⟨⟨[], .root, encodeLabels_nil_short⟩, typeOpt, 1232, 0x8000, [], Record.fits_nil⟩]
  few := by decide

/-- One address for the question, for 300 seconds; `codes` holds the CD bit. -/
def sampleAnswer (codes : UInt8) : Message where
  id := 7
  flags := 0x81
  codes := codes
  question := sampleQuestion
  answers := [⟨⟨[], .pointer 0xc0 0x0c NameEnd.marked_question, encodeLabels_nil_short⟩, 1, 1, 300,
    [192, 0, 2, 1], by decide⟩]
  authorities := []
  additionals := []
  few := by decide

/-- The packet of a query to the tunnel's resolver, from port 5000 of 198.18.0.2. -/
def samplePacket (query : Message) : Bytes := (writeIpv4 0xc6120002 tunnelDnsV4 64 5000 53 query.encode).getD []

def sampleLibraries : Libraries :=
  .knowing [sampleQuery 7 0x10, sampleQuery 8 0x10, sampleQuery 9 0, sampleAnswer 0x80, sampleAnswer 0x90]

theorem sampleLibraries_faithful : sampleLibraries.decoder.Faithful := Decoder.knowing_faithful _

theorem sampleLibraries_writes : sampleLibraries.packets.Writes := PacketLibrary.plain_writes

/-- The job of a sample query. -/
def sampleJob (id : UInt16) (codes : UInt8) : ForwardJob where
  query := (sampleQuery id codes).encode
  client := ⟨.v4 0xc6120002, 5000⟩
  server := ⟨.v4 tunnelDnsV4, 53⟩
  requester := ⟨id, true, sampleQuestion.encode, some ⟨1232, true⟩⟩
  key := [1, 97, 4, 116, 101, 115, 116, 0, 0, 1, 0, 1]
  name := "A.test.".toList
  network := 0

/-- A query that was forwarded and then answered. -/
def sampleHistory (codes : UInt8) : List Call :=
  [.complete (sampleJob 7 codes) (.ok (sampleAnswer (0x80 ||| codes)).encode) 100,
    .handlePacket (samplePacket (sampleQuery 7 codes)) 100]

theorem sampleHistory_genuine : Genuine sampleLibraries none (sampleHistory 0x10) := by
  refine ⟨?_, by simp [Call.blocklist?], by simp [Call.job?], by simp [Call.blocklist?], ?_⟩
  · intro job same
    cases same
    decide
  · intro set member
    cases member

/-- The next query is answered from the cache, and an answer that does not parse becomes SERVFAIL. -/
theorem replies_fit_queries_sample :
    let handler := DnsHandler.after sampleLibraries none (sampleHistory 0x10)
    (∃ payload reply, (sampleQuery 8 0x10).Answers payload reply ∧
      (handler.respond sampleLibraries.decoder ⟨.v4 0xc6120002, 5000⟩ ⟨.v4 tunnelDnsV4, 53⟩
        (sampleQuery 8 0x10).encode 130).map Prod.snd = some (.reply payload)) ∧
    ∃ payload reply, (sampleQuery 7 0x10).Answers payload reply ∧
      (handler.finish sampleLibraries.decoder (sampleJob 7 0x10) (.ok []) 100).map Prod.snd = some payload := by
  intro handler
  obtain ⟨packets, jobs, -⟩ := replies_fit_queries sampleLibraries sampleLibraries_faithful sampleLibraries_writes
    none (sampleHistory 0x10) sampleHistory_genuine
  constructor
  · have parsed : parseUdp sampleLibraries.packets (samplePacket (sampleQuery 8 0x10)) =
        some ⟨⟨.v4 0xc6120002, 5000⟩, ⟨.v4 tunnelDnsV4, 53⟩, (sampleQuery 8 0x10).encode⟩ := by decide
    have replied : (handler.handlePacket sampleLibraries (samplePacket (sampleQuery 8 0x10)) 130).map
        (fun result => match result.2 with | .reply _ => true | _ => false) = some true := by decide
    obtain ⟨query, prefixed, answered | ⟨next, job, -, forwarded | forwarded⟩⟩ := packets _ 130 _
      (Decoded.of (sampleQuery 8 0x10)) 24 parsed (by decide) (by decide) rfl (by decide)
    · obtain ⟨payload, reply, next, written, answers, responded, -⟩ := answered
      obtain rfl := (sampleQuery 8 0x10).eq_of_hasAt prefixed
      exact ⟨payload, reply, answers, by rw [responded]; rfl⟩
    · rw [forwarded] at replied
      cases replied
    · rw [forwarded] at replied
      cases replied
  · obtain ⟨query, prefixed, completed, -⟩ := jobs (sampleJob 7 0x10) (by decide)
    obtain rfl := (sampleQuery 7 0x10).eq_of_hasAt prefixed
    obtain ⟨next, payload, reply, written, answers, finished, -⟩ := completed (.ok []) 100
    exact ⟨payload, reply, answers, by rw [finished]; rfl⟩

/-- What is served from a cache was stored for a query with the same question and DO bit, in a
completion of the history, and is served only while it lives, with its records aged. -/
theorem cache_hits_match_and_live (libraries : Libraries) (faithful : libraries.decoder.Faithful)
    (writes : libraries.packets.Writes) (blocklist : Option DomainSet) (history : List Call)
    (genuine : Genuine libraries blocklist history) (query : Bytes) (read : QueryRead)
    (readable : readQuery libraries.decoder query = some (.ok read)) (now : UInt64) (cached : UpstreamAnswer)
    (elapsed : UInt32)
    (hit : (DnsHandler.after libraries blocklist history).hit query read now = some (cached, elapsed)) :
    ∃ asked : Message, HasAt query 0 asked.encode ∧
      (∃ call ∈ history, ∃ job storedAt stored answer whole,
        (if isLocalName read.question.name then call.checkedLocal libraries.decoder
          else call.checked libraries.decoder) = some (job, cached, storedAt) ∧ HasAt job.query 0 stored.encode ∧
        Served asked stored (if isLocalName read.question.name then 60 else 3600) read.requester cached storedAt now
          elapsed answer whole) ∧
      ∀ client server, ∃ next payload, cached.render read.requester elapsed = some payload ∧
        (DnsHandler.after libraries blocklist history).respond libraries.decoder client server query now =
          some (next, .reply payload) := by
  obtain ⟨asked, of⟩ := readQuery_of faithful readable
  have ready := ready_after faithful genuine
  obtain ⟨payload, rendered⟩ : ∃ payload, cached.render read.requester elapsed = some payload := by
    rcases hit_eq_some of hit with ⟨-, found⟩ | ⟨-, -, found⟩
    · obtain ⟨payload, reply, rendered, -⟩ := ready.localCache.render of.requester.question found
      exact ⟨payload, rendered⟩
    · obtain ⟨payload, reply, rendered, -⟩ := ready.cache.render of.requester.question found
      exact ⟨payload, rendered⟩
  refine ⟨asked, of.prefixed, ?_, ?_⟩
  · rcases hit_eq_some of hit with ⟨nearby, found⟩ | ⟨distant, -, found⟩
    · simp only [nearby, if_true]
      exact local_hit faithful writes genuine of.requester found
    · simp only [distant, Bool.false_eq_true, if_false]
      exact public_hit faithful writes genuine of.requester found
  · intro client server
    obtain ⟨next, answered⟩ := answer_hit hit client server rendered
    refine ⟨next, payload, rendered, ?_⟩
    simp only [DnsHandler.respond, readable, Option.bind_eq_bind, Option.bind_some, answered]

/-- What is read of a sample query. -/
def sampleRead (id : UInt16) : QueryRead where
  requester := ⟨id, true, sampleQuestion.encode, some ⟨1232, true⟩⟩
  question := ⟨"A.test.".toList, 1⟩
  stop := 24

theorem sampleRead_distant (id : UInt16) : isLocalName (sampleRead id).question.name = false :=
  (by decide : isLocalName "A.test.".toList = false)

theorem sampleHistory_hit : (DnsHandler.after sampleLibraries none (sampleHistory 0x10)).hit (sampleQuery 8 0x10).encode
    (sampleRead 8) 130 = some (⟨(sampleAnswer 0x90).encode, [30], 24⟩, 30) := by decide

/-- An answer for 300 seconds is served 30 seconds later with 270 seconds left. -/
theorem cache_hits_match_and_live_sample :
    let cached : UpstreamAnswer := ⟨(sampleAnswer 0x90).encode, [30], 24⟩
    (DnsHandler.after sampleLibraries none (sampleHistory 0x10)).hit (sampleQuery 8 0x10).encode (sampleRead 8) 130 =
      some (cached, 30) ∧
    ∃ storedAt stored answer whole, (sampleQuery 8 0x10).Alike stored ∧
      Served (sampleQuery 8 0x10) stored 3600 (sampleRead 8).requester cached storedAt 130 30 answer whole := by
  intro cached
  obtain ⟨asked, prefixed, ⟨call, member, job, storedAt, stored, answer, whole, -, -, served⟩, -⟩ :=
    cache_hits_match_and_live sampleLibraries sampleLibraries_faithful sampleLibraries_writes none (sampleHistory 0x10)
      sampleHistory_genuine _ (sampleRead 8) rfl 130 cached 30 sampleHistory_hit
  obtain rfl := (sampleQuery 8 0x10).eq_of_hasAt prefixed
  simp only [sampleRead_distant, Bool.false_eq_true, if_false] at served
  exact ⟨sampleHistory_hit, storedAt, stored, answer, whole, served.alike, served⟩

/-- What a query for a public name is served from the cache was stored for a forwarded query with the same
question and DO bit. The CD bit is no part of the key, and the reply has the response codes, CD among
them, of the upstream answer that was stored. -/
theorem cached_replies_keep_upstream_codes (libraries : Libraries) (faithful : libraries.decoder.Faithful)
    (writes : libraries.packets.Writes) (blocklist : Option DomainSet) (history : List Call)
    (genuine : Genuine libraries blocklist history) (query : Bytes) (read : QueryRead)
    (readable : readQuery libraries.decoder query = some (.ok read)) (distant : isLocalName read.question.name = false)
    (now : UInt64) (cached : UpstreamAnswer) (elapsed : UInt32)
    (hit : (DnsHandler.after libraries blocklist history).hit query read now = some (cached, elapsed)) :
    ∃ (asked forwarded : Message) (job : ForwardJob) (wire : Bytes) (storedAt : UInt64),
      HasAt query 0 asked.encode ∧ HasAt job.query 0 forwarded.encode ∧ .complete job (.ok wire) storedAt ∈ history ∧
      UpstreamAnswer.parse libraries.decoder wire job.key = some (.ok cached) ∧ asked.Alike forwarded ∧
      ∀ client server, ∃ next payload,
        (DnsHandler.after libraries blocklist history).respond libraries.decoder client server query now =
          some (next, .reply payload) ∧ payload[3]? = wire[3]? := by
  obtain ⟨asked, of⟩ := readQuery_of faithful readable
  obtain ⟨-, -, found⟩ : _ ∧ _ ∧ _ := (hit_eq_some of hit).resolve_left fun both => by simp [both.1] at distant
  obtain ⟨call, member, job, storedAt, forwarded, answer, whole, checked, prefixed, served⟩ :=
    public_hit faithful writes genuine of.requester found
  obtain ⟨result, rfl, accepted⟩ := checked_eq_some checked
  cases result with
  | error reason => cases accepted
  | ok wire =>
    refine ⟨asked, forwarded, job, wire, storedAt, of.prefixed, prefixed, member, accepted, served.alike, ?_⟩
    intro client server
    obtain ⟨payload, reply, rendered, -⟩ := (ready_after faithful genuine).cache.render of.requester.question found
    obtain ⟨next, answered⟩ := answer_hit hit client server rendered
    obtain ⟨message, represents, is⟩ := checkUpstream_ok faithful accepted
    refine ⟨next, payload, ?_, ?_⟩
    · simp only [DnsHandler.respond, readable, Option.bind_eq_bind, Option.bind_some, answered]
    · have same : message = answer := by
        have bytes := represents.bytes.symm.trans served.encodes
        exact (readable_message (congrArg (· ++ []) bytes)).1
      have width : message.question.encode.length = asked.question.encode.length := by
        rw [same, served.width, of.requester.question]
      rw [render_codes represents of.requester.question width rendered]
      exact parse_codes faithful accepted

/-- An answer that was fetched with CD set is served, with CD set, to a query without CD. -/
theorem cached_replies_ignore_checking_disabled :
    let handler := DnsHandler.after sampleLibraries none (sampleHistory 0x10)
    Genuine sampleLibraries none (sampleHistory 0x10) ∧ (sampleJob 7 0x10).query = (sampleQuery 7 0x10).encode ∧
      (sampleQuery 7 0x10).checkingDisabled = true ∧ (sampleQuery 9 0).checkingDisabled = false ∧
      handler.hit (sampleQuery 9 0).encode (sampleRead 9) 130 = some (⟨(sampleAnswer 0x90).encode, [30], 24⟩, 30) ∧
      (handler.respond sampleLibraries.decoder ⟨.v4 0xc6120002, 5000⟩ ⟨.v4 tunnelDnsV4, 53⟩ (sampleQuery 9 0).encode 130).map
        (fun result => match result.2 with
          | .reply payload => (payload[3]?).map fun codes => codes &&& 0x10 != 0
          | _ => none) = some (some true) := by
  intro handler
  refine ⟨sampleHistory_genuine, rfl, by decide, by decide, ?_, ?_⟩ <;> decide

theorem cached_replies_keep_upstream_codes_sample :
    let cached : UpstreamAnswer := ⟨(sampleAnswer 0x90).encode, [30], 24⟩
    isLocalName (sampleRead 8).question.name = false ∧
    ∃ (forwarded : Message) (wire : Bytes), (sampleQuery 8 0x10).Alike forwarded ∧
      UpstreamAnswer.parse sampleLibraries.decoder wire (sampleJob 7 0x10).key = some (.ok cached) := by
  intro cached
  obtain ⟨asked, forwarded, job, wire, storedAt, prefixed, -, completed, parsed, alike, -⟩ :=
    cached_replies_keep_upstream_codes sampleLibraries sampleLibraries_faithful sampleLibraries_writes none
      (sampleHistory 0x10) sampleHistory_genuine (sampleQuery 8 0x10).encode (sampleRead 8) rfl (sampleRead_distant 8)
      130 cached 30 sampleHistory_hit
  obtain rfl := (sampleQuery 8 0x10).eq_of_hasAt prefixed
  obtain rfl : job = sampleJob 7 0x10 := by
    rcases mem_cons.mp completed with same | other
    · cases same
      rfl
    · cases mem_singleton.mp other
  exact ⟨sampleRead_distant 8, forwarded, wire, alike, parsed⟩

end Tollgate.Dns
