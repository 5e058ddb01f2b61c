import Tollgate.Machine.History
import Tollgate.Model.Dns.Handler

/-! # Runs of the handler

A history lists the calls of a handler from the newest one back. The caches may also forget entries
at any time. A job is private to the handler, so only jobs that earlier calls handed out come back,
and a blocklist is always one that was loaded from a file. `Answers` says what a reply owes its
query.
-/

namespace Tollgate

/-- A set that was loaded from some file. -/
def DomainSet.Loaded (set : DomainSet) : Prop := ∃ bytes, DomainSet.new bytes = some (.ok set)

namespace Dns

/-- One call of the handler, or its caches forgetting entries. -/
inductive Call where
  | handlePacket (packet : Bytes) (now : UInt64)
  | complete (job : ForwardJob) (answer : Except String Bytes) (now : UInt64)
  | completeLocal (job : ForwardJob) (records : Option (List LocalRecord)) (now : UInt64)
  | setNetwork (network : Text)
  | setBlocklist (blocklist : Option DomainSet)
  | setAllowlist (patterns : List HostPattern)
  | forget (kept keptLocal : Bytes → Bool)

def AnswerCache.keep (cache : AnswerCache) (kept : Bytes → Bool) : AnswerCache :=
  { cache with entries := cache.entries.keep kept }

namespace DnsHandler

def forget (handler : DnsHandler) (kept keptLocal : Bytes → Bool) : DnsHandler :=
  { handler with
    cache := handler.cache.keep kept
    localState := { handler.localState with cache := handler.localState.cache.keep keptLocal } }

/-- The handler after a call. No call panics; one that did would leave the handler as it was. -/
def call (libraries : Libraries) (handler : DnsHandler) : Call → DnsHandler
  | .handlePacket packet now => ((handler.handlePacket libraries packet now).map Prod.fst).getD handler
  | .complete job answer now => ((handler.complete libraries job answer now).map Prod.fst).getD handler
  | .completeLocal job records now => ((handler.completeLocal libraries job records now).map Prod.fst).getD handler
  | .setNetwork network => handler.setNetwork network
  | .setBlocklist blocklist => handler.setBlocklist blocklist
  | .setAllowlist patterns => handler.setAllowlist patterns
  | .forget kept keptLocal => handler.forget kept keptLocal

/-- The job a call hands out. -/
def handsOut (libraries : Libraries) (handler : DnsHandler) : Call → Option ForwardJob
  | .handlePacket packet now =>
      match handler.handlePacket libraries packet now with
      | some (_, .forward job) | some (_, .localJob job) => some job
      | _ => none
  | _ => none

/-- The handler after a history of calls. -/
def after (libraries : Libraries) (blocklist : Option DomainSet) (history : List Call) : DnsHandler :=
  Machine.after (call libraries) (new blocklist) history

/-- The jobs handed out in a history. -/
def issued (libraries : Libraries) (blocklist : Option DomainSet) : List Call → List ForwardJob
  | [] => []
  | call :: past => (handsOut libraries (after libraries blocklist past) call).toList ++ issued libraries blocklist past

/-- The stored answer that a query is served from, with its age: from the local cache for a local
name, and else from the public one when the name is not blocked. -/
def hit (handler : DnsHandler) (query : Bytes) (read : QueryRead) (now : UInt64) : Option (UpstreamAnswer × UInt32) :=
  if read.question.queryType = typeSvcb ∨ read.question.queryType = typeHttps then none
  else do
    let key ← questionKey query read.stop
    if isLocalName read.question.name then (handler.localState.cache.get (cacheKey key read.requester) now).1
    else if handler.isBlocked read.question.name = some false then
      (handler.cache.get (cacheKey key read.requester) now).1
    else none

/-- Whether a completed local job leaves its answer in the cache. -/
def keepsAnswer (decoder : Decoder) (handler : DnsHandler) (job : ForwardJob) (records : Option (List LocalRecord)) :
    Bool :=
  match checkLocal decoder job.key records with
  | some (.ok answer) => answer.hasAnswers == some true && answer.cacheable == some true &&
      handler.localState.generation == job.network
  | _ => false

end DnsHandler

/-- The job that a call gives back. -/
def Call.job? : Call → Option ForwardJob
  | .complete job _ _ | .completeLocal job _ _ => some job
  | _ => none

/-- The blocklist that a call brings in. -/
def Call.blocklist? : Call → Option DomainSet
  | .setBlocklist blocklist => blocklist
  | _ => none

/-- The job, answer and time of a completion whose upstream answer is accepted. -/
def Call.checked (decoder : Decoder) : Call → Option (ForwardJob × UpstreamAnswer × UInt64)
  | .complete job answer now =>
      match DnsHandler.checkUpstream decoder job.key answer with
      | some (.ok upstream) => some (job, upstream, now)
      | _ => none
  | _ => none

/-- The job, answer and time of a completion whose local answer is accepted. -/
def Call.checkedLocal (decoder : Decoder) : Call → Option (ForwardJob × UpstreamAnswer × UInt64)
  | .completeLocal job records now =>
      match DnsHandler.checkLocal decoder job.key records with
      | some (.ok answer) => some (job, answer, now)
      | _ => none
  | _ => none

/-- A history that callers of the handler can bring about. -/
def Genuine (libraries : Libraries) (blocklist : Option DomainSet) : List Call → Prop
  | [] => ∀ set ∈ blocklist, set.Loaded
  | call :: past =>
      (∀ job ∈ call.job?, job ∈ DnsHandler.issued libraries blocklist past) ∧ (∀ set ∈ call.blocklist?, set.Loaded) ∧
        Genuine libraries blocklist past

/-- The largest reply a query allows: 512 bytes without OPT, else its size clamped to 512..1232. -/
def Message.replyLimit (query : Message) : ℕ :=
  match query.opt? with
  | none => 512
  | some opt => max 512 (min opt.rclass.toNat 1232)

/-- OPT exactly when the query has one, then as the last record and with the DO bit of the query. -/
def Message.EchoesOpt (query reply : Message) : Prop :=
  match query.opt? with
  | none => ∀ record ∈ reply.records, record.isOpt = false
  | some opt => ∃ others own, reply.additionals = others ++ [own] ∧ own.isOpt = true ∧ own.dnssecOk = opt.dnssecOk ∧
      ∀ record ∈ reply.answers ++ reply.authorities ++ others, record.isOpt = false

/-- The payload is a well-formed reply that fits its query. -/
structure Message.Answers (query : Message) (payload : Bytes) (reply : Message) : Prop where
  encodes : payload = reply.encode
  id : reply.id = query.id
  response : reply.isResponse = true
  recursionDesired : reply.recursionDesired = query.recursionDesired
  question : reply.question = query.question
  opt : query.EchoesOpt reply
  short : payload.length ≤ query.replyLimit

/-- The query's DO bit, false without OPT. -/
def Message.dnssecOk (query : Message) : Bool := query.opt?.any Record.dnssecOk

/-- The CD bit of a query. -/
def Message.checkingDisabled (query : Message) : Bool := query.codes &&& 0x10 != 0

/-- Two queries that may share an answer: the same question and DO bit. -/
def Message.Alike (first second : Message) : Prop :=
  first.question.Same second.question ∧ first.dnssecOk = second.dnssecOk

/-- The smallest TTL of a message's records, 0 without records. -/
def Message.leastTtl (message : Message) : ℕ := (message.records.map fun record => record.ttl.toNat).min?.getD 0

/-- An answer that was stored for `stored` is served to `asked` while it lives, with its records
aged: `limit` is the longest time that its cache keeps an answer. -/
structure Served (asked stored : Message) (limit : ℕ) (requester : Requester) (cached : UpstreamAnswer)
    (storedAt now : UInt64) (elapsed : UInt32) (answer whole : Message) : Prop where
  alike : asked.Alike stored
  encodes : cached.bytes = answer.encode
  live : now.toNat - storedAt.toNat < max 10 (min answer.leastTtl limit)
  age : elapsed.toNat = now.toNat - storedAt.toNat
  width : answer.question.encode.length = requester.question.length
  untrimmed : cached.untrimmed requester elapsed = some whole.encode
  answers : whole.answers = answer.answers.map (Record.aged elapsed.toNat)
  authorities : whole.authorities = answer.authorities.map (Record.aged elapsed.toNat)
  additionals : ∃ own, whole.additionals = answer.additionals.map (Record.aged elapsed.toNat) ++ own ∧
    ∀ record ∈ own, record.isOpt = true

end Dns

end Tollgate
