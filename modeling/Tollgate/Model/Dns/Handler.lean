import Tollgate.Model.Dns.Cache
import Tollgate.Model.Dns.LocalName
import Tollgate.Model.Dns.Packet
import Tollgate.Model.Filter.DomainSet
import Tollgate.Model.Policy.HostPattern

/-! # Turning query packets into reply packets or forwarding jobs

Each method holds the lock of at most one cache, once, so a call is one step on the handler's state.
`respond`, `finish` and `finishLocal` give the payload of a reply; `handlePacket`, `complete` and
`completeLocal` put it into a packet. The counters and the event log are written but never read by
these functions and are left out. The network generation is a 64 bit counter that no run brings to overflow.
-/

namespace Tollgate.Dns

def typeSvcb : UInt16 := 64
def typeHttps : UInt16 := 65

/-- Answers from the local network's resolver kept at most. -/
def localCacheCapacity : ℕ := 128

/-- Longest time an answer from the local network's resolver is kept, and the highest TTL its
records are given, in seconds. -/
def maxLocalTtl : UInt32 := 60

def tunnelDnsV4 : BitVec 32 := 0xc6120001
def tunnelDnsV6 : BitVec 128 := 0xfd007467000000000000000000000001

/-- The libraries the handler is built on. -/
structure Libraries where
  decoder : Decoder
  packets : PacketLibrary

/-- A query that needs a resolver, with what is needed to answer it. -/
structure ForwardJob where
  query : Bytes
  client : SocketAddr
  server : SocketAddr
  requester : Requester
  key : Bytes
  name : Text
  /-- For local jobs, the network generation when the query arrived. -/
  network : ℕ
deriving DecidableEq, Repr

/-- What to do with one packet from the tunnel. -/
inductive Outcome where
  | reply (packet : Bytes)
  | forward (job : ForwardJob)
  | localJob (job : ForwardJob)
  | drop
deriving DecidableEq, Repr

/-- What to do with one query: a payload to send back, or a job. -/
inductive Reaction where
  | reply (payload : Bytes)
  | forward (job : ForwardJob)
  | localJob (job : ForwardJob)
deriving DecidableEq, Repr

/-- One record from the local network's resolver. -/
structure LocalRecord where
  rtype : UInt16
  rclass : UInt16
  ttl : UInt32
  data : Bytes
deriving DecidableEq, Repr

/-- The answers of the local network's resolver, for the network they came from. -/
structure LocalState where
  network : Text
  generation : ℕ
  cache : AnswerCache

/-- The cache key for a question: the question followed by the requester's DO bit. -/
def cacheKey (key : Bytes) (requester : Requester) : Bytes :=
  key ++ [if requester.edns.any ClientEdns.dnssecOk then 1 else 0]

/-- The loop of `local_answer`: appends the records of the queried type and class that fit. -/
def addLocalRecords (qtype qclass : UInt16) : List LocalRecord → Bytes → ℕ → Bytes × ℕ
  | [], out, count => (out, count)
  | record :: rest, out, count =>
      let wanted := (record.rtype == qtype || qtype == typeAny) && record.rclass == qclass
      if record.data.length ≥ 2 ^ 16 then addLocalRecords qtype qclass rest out count
      else if !wanted ∨ out.length + 12 + record.data.length > 65535 then
        addLocalRecords qtype qclass rest out count
      else
        let out := out ++ [0xc0, 0x0c] ++ be16 record.rtype ++ be16 record.rclass ++
          be32 (min record.ttl maxLocalTtl) ++ be16 (UInt16.ofNat record.data.length) ++ record.data
        if count + 1 = 65535 then (out, count + 1) else addLocalRecords qtype qclass rest out (count + 1)

/-- An answer message for the question `key` holding the records of the queried type and class. -/
def localAnswer (key : Bytes) (records : List LocalRecord) : Option Bytes := do
  let (qtype, qclass) ← typeAndClass key
  let (out, count) :=
    addLocalRecords qtype qclass records ([0, 0, 0x81, 0x80, 0, 1, 0, 0, 0, 0, 0, 0] ++ key) 0
  setU16 out 6 (UInt16.ofNat count)

structure DnsHandler where
  blocklist : Option DomainSet
  /-- Names matching one of these are never blocked. -/
  allowlist : List HostPattern
  cache : AnswerCache
  localState : LocalState

def isTunnelDns (destination : SocketAddr) : Bool :=
  destination.port == 53 &&
    match destination.ip with
    | .v4 address => address == tunnelDnsV4
    | .v6 address => address == tunnelDnsV6

def replyPacket (library : PacketLibrary) (server client : SocketAddr) (payload : Bytes) : Option Bytes :=
  buildUdp library server client payload

/-- A query that could be read: what its replies must match, its question, and where that ends. -/
structure QueryRead where
  requester : Requester
  question : DecodedQuery
  stop : ℕ

/-- Reads a query, or gives the code of the header that answers it. -/
def readQuery (decoder : Decoder) (query : Bytes) : Option (Except UInt8 QueryRead) :=
  match decoder query with
  | none => some (.error formErr)
  | some message =>
      if message.opCode ≠ 0 then some (.error notImp)
      else
        match questionEnd query with
        | none => some (.error formErr)
        | some stop => do
            let requester ← Requester.fromQuery query message stop
            let question ← message.queries[0]?
            some (.ok ⟨requester, question, stop⟩)

namespace DnsHandler

def emptyLocalCache : AnswerCache := .withLimits localCacheCapacity maxLocalTtl

def new (blocklist : Option DomainSet) : DnsHandler := ⟨blocklist, [], .new, ⟨[], 0, emptyLocalCache⟩⟩

def setBlocklist (handler : DnsHandler) (blocklist : Option DomainSet) : DnsHandler :=
  { handler with blocklist := blocklist }

def setAllowlist (handler : DnsHandler) (patterns : List HostPattern) : DnsHandler :=
  { handler with allowlist := patterns }

def isBlocked (handler : DnsHandler) (name : Text) : Option Bool :=
  match handler.blocklist with
  | none => some false
  | some set => do
      let blocked ← set.isBlocked name
      some (blocked && !handler.allowlist.any fun pattern => pattern.matches name)

/-- Names the network the local resolver answers for; a new name drops the local answers. -/
def setNetwork (handler : DnsHandler) (network : Text) : DnsHandler :=
  if handler.localState.network = network then handler
  else { handler with localState := ⟨network, handler.localState.generation + 1, emptyLocalCache⟩ }

/-- The reply to a query that could be read, or the job it becomes. -/
def answer (handler : DnsHandler) (client server : SocketAddr) (query : Bytes) (read : QueryRead) (now : UInt64) :
    Option (DnsHandler × Reaction) :=
  let requester := read.requester
  let name := read.question.name
  if read.question.queryType = typeSvcb ∨ read.question.queryType = typeHttps then
    some (handler, .reply (requester.empty noError))
  else if isLocalName name then do
    let key ← questionKey query read.stop
    let (hit, cache) := handler.localState.cache.get (cacheKey key requester) now
    let handler := { handler with localState := { handler.localState with cache := cache } }
    match hit with
    | some (cached, elapsed) => do
        let payload ← cached.render requester elapsed
        some (handler, .reply payload)
    | none =>
        some (handler, .localJob ⟨query, client, server, requester, key, name, handler.localState.generation⟩)
  else do
    let blocked ← handler.isBlocked name
    if blocked then do
      let payload ← requester.blocked
      some (handler, .reply payload)
    else do
      let key ← questionKey query read.stop
      let (hit, cache) := handler.cache.get (cacheKey key requester) now
      let handler := { handler with cache := cache }
      match hit with
      | some (cached, elapsed) => do
          let payload ← cached.render requester elapsed
          some (handler, .reply payload)
      | none => some (handler, .forward ⟨query, client, server, requester, key, name, 0⟩)

/-- The reply to a query for the tunnel, or the job it becomes. -/
def respond (decoder : Decoder) (handler : DnsHandler) (client server : SocketAddr) (query : Bytes) (now : UInt64) :
    Option (DnsHandler × Reaction) := do
  let read ← readQuery decoder query
  match read with
  | .error rcode => do
      let payload ← headerOnly query rcode
      some (handler, .reply payload)
  | .ok read => handler.answer client server query read now

/-- Whether a datagram holds a query for the tunnel. -/
def isQuery (datagram : UdpDatagram) : Option Bool :=
  if !isTunnelDns datagram.destination ∨ datagram.payload.length < headerLen then some false
  else (isResponse datagram.payload).map (!·)

/-- Handles one raw IP packet from the tunnel. -/
def handlePacket (libraries : Libraries) (handler : DnsHandler) (packet : Bytes) (now : UInt64) :
    Option (DnsHandler × Outcome) :=
  match parseUdp libraries.packets packet with
  | none => some (handler, .drop)
  | some datagram => do
      let query ← isQuery datagram
      if query then do
        let (client, server) := (datagram.source, datagram.destination)
        let (handler, reaction) ← handler.respond libraries.decoder client server datagram.payload now
        match reaction with
        | .reply payload => do
            let packet ← replyPacket libraries.packets server client payload
            some (handler, .reply packet)
        | .forward job => some (handler, .forward job)
        | .localJob job => some (handler, .localJob job)
      else some (handler, .drop)

/-- The upstream result, checked against the question; an error of the resolver is passed on. -/
def checkUpstream (decoder : Decoder) (key : Bytes) (answer : Except String Bytes) :
    Option (Except String UpstreamAnswer) :=
  match answer with
  | .error reason => some (.error reason)
  | .ok wire => UpstreamAnswer.parse decoder wire key

/-- The payload for a forwarded query. A usable answer is adapted to the client and, if it is
NOERROR or NXDOMAIN, cached; anything else becomes SERVFAIL. -/
def finish (decoder : Decoder) (handler : DnsHandler) (job : ForwardJob) (answer : Except String Bytes)
    (now : UInt64) : Option (DnsHandler × Bytes) := do
  let checked ← checkUpstream decoder job.key answer
  match checked with
  | .error _ => some (handler, job.requester.empty servFail)
  | .ok upstream => do
      let payload ← upstream.render job.requester 0
      let cacheable ← upstream.cacheable
      if cacheable then do
        let cache ← handler.cache.insert (cacheKey job.key job.requester) upstream now
        some ({ handler with cache := cache }, payload)
      else some (handler, payload)

/-- Builds the reply packet for a forwarded query from the upstream result. -/
def complete (libraries : Libraries) (handler : DnsHandler) (job : ForwardJob) (answer : Except String Bytes)
    (now : UInt64) : Option (DnsHandler × Bytes) := do
  let (handler, payload) ← handler.finish libraries.decoder job answer now
  let packet ← replyPacket libraries.packets job.server job.client payload
  some (handler, packet)

/-- The answer of the local network's resolver, checked like one from upstream. -/
def checkLocal (decoder : Decoder) (key : Bytes) (records : Option (List LocalRecord)) :
    Option (Except String UpstreamAnswer) :=
  match records with
  | none => some (.error "the local resolver gave no answer")
  | some records => do
      let wire ← localAnswer key records
      UpstreamAnswer.parse decoder wire key

/-- The payload for a local job. Answers with records are kept, unless the network changed since
the query arrived. -/
def finishLocal (decoder : Decoder) (handler : DnsHandler) (job : ForwardJob) (records : Option (List LocalRecord))
    (now : UInt64) : Option (DnsHandler × Bytes) := do
  let checked ← checkLocal decoder job.key records
  match checked with
  | .error _ => some (handler, job.requester.empty servFail)
  | .ok answer => do
      let payload ← answer.render job.requester 0
      let found ← answer.hasAnswers
      let cacheable ← answer.cacheable
      if found ∧ cacheable ∧ handler.localState.generation = job.network then do
        let cache ← handler.localState.cache.insert (cacheKey job.key job.requester) answer now
        some ({ handler with localState := { handler.localState with cache := cache } }, payload)
      else some (handler, payload)

/-- Builds the reply packet for a local job from the local resolver's records. -/
def completeLocal (libraries : Libraries) (handler : DnsHandler) (job : ForwardJob)
    (records : Option (List LocalRecord)) (now : UInt64) : Option (DnsHandler × Bytes) := do
  let (handler, payload) ← handler.finishLocal libraries.decoder job records now
  let packet ← replyPacket libraries.packets job.server job.client payload
  some (handler, packet)

end DnsHandler

end Tollgate.Dns
