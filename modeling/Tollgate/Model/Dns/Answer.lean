import Tollgate.Model.Dns.Decoder
import Tollgate.Model.Dns.Wire

/-! # Writing replies

Local answers are built from the requester's own question bytes and upstream answers are adapted to
the requester, so both keep its id, letter case and EDNS, and both are cut to its UDP size. Replies
that are too big are trimmed at a record boundary; only when no record of the queried type fits is
the reply truncated.
-/

namespace Tollgate.Dns

/-- TTL of the answers for blocked names, in seconds. -/
def blockTtl : UInt32 := 60

/-- UDP payload size advertised in our OPT records and the most any reply uses. -/
def maxUdpPayload : UInt16 := 1232

/-- Largest reply to a requester without EDNS. -/
def classicUdpPayload : UInt16 := 512

def noError : UInt8 := 0
def formErr : UInt8 := 1
def servFail : UInt8 := 2
def nxDomain : UInt8 := 3
def notImp : UInt8 := 4

def typeA : UInt16 := 1
def typeAaaa : UInt16 := 28
def typeAny : UInt16 := 255
def classIn : UInt16 := 1

def optLen : ℕ := 11

/-- A reply with only a header, for queries that could not be read. -/
def headerOnly (query : Bytes) (rcode : UInt8) : Option Bytes := do
  let id ← slice query 0 2
  let flags ← query[2]?
  some (id ++ [0x80 ||| (flags &&& 0x79), 0x80 ||| rcode] ++ List.replicate 8 0)

/-- EDNS from the requester's OPT record. -/
structure ClientEdns where
  udpPayload : UInt16
  dnssecOk : Bool
deriving DecidableEq, Repr

/-- What every reply to one query must match; the question is kept exactly as sent. -/
structure Requester where
  id : UInt16
  recursionDesired : Bool
  question : Bytes
  edns : Option ClientEdns
deriving DecidableEq, Repr

namespace Requester

def fromQuery (query : Bytes) (message : Decoded) (questionEnd : ℕ) : Option Requester := do
  let question ← slice query headerLen questionEnd
  some
    { id := message.id
      recursionDesired := message.recursionDesired
      question := question
      edns := message.edns.map fun edns => ⟨edns.maxPayload, edns.dnssecOk⟩ }

def qtypeAndClass (requester : Requester) : Option (UInt16 × UInt16) := typeAndClass requester.question

/-- Largest reply this requester accepts: 512 without EDNS, otherwise its advertised size clamped
to 512..=1232. -/
def udpLimit (requester : Requester) : ℕ :=
  match requester.edns with
  | none => classicUdpPayload.toNat
  | some edns => max classicUdpPayload.toNat (min edns.udpPayload.toNat maxUdpPayload.toNat)

/-- Our OPT record, echoing the DO bit, if the requester sent OPT. -/
def opt (requester : Requester) : Option Bytes :=
  requester.edns.map fun edns =>
    [0, 0, 41] ++ be16 maxUdpPayload ++ [0, 0, if edns.dnssecOk then 0x80 else 0, 0, 0, 0]

/-- Header, question, `count` encoded records in the answer section, and OPT. -/
def build (requester : Requester) (flags codes : UInt8) (records : Bytes) (count : UInt16) : Bytes :=
  be16 requester.id ++ [flags, codes] ++ be16 1 ++ be16 count ++ be16 0 ++
    be16 (if requester.opt.isSome then 1 else 0) ++ requester.question ++ records ++ requester.opt.getD []

def rdBit (requester : Requester) : UInt8 := if requester.recursionDesired then 1 else 0

/-- A reply with no records. -/
def empty (requester : Requester) (rcode : UInt8) : Bytes :=
  requester.build (0x80 ||| requester.rdBit) (0x80 ||| rcode) [] 0

/-- The reply for a blocked name: the unspecified address for A and AAAA, no records for any other
type. -/
def blocked (requester : Requester) : Option Bytes := do
  let (qtype, qclass) ← requester.qtypeAndClass
  if qclass = classIn ∧ (qtype = typeA ∨ qtype = typeAaaa) then
    let rdataLen : ℕ := if qtype = typeA then 4 else 16
    let record := [0xc0, 0x0c] ++ be16 qtype ++ be16 classIn ++ be32 blockTtl ++
      be16 (UInt16.ofNat rdataLen) ++ List.replicate rdataLen 0
    some (requester.build (0x80 ||| requester.rdBit) (0x80 ||| noError) record 1)
  else some (requester.empty noError)

/-- The reply with TC set, the question and OPT, and no records. -/
def truncated (requester : Requester) (reply : Bytes) : Option Bytes := do
  let flags ← reply[2]?
  let codes ← reply[3]?
  some (requester.build (flags ||| 0x02) codes [] 0)

/-- The reply if it fits the requester's UDP size. Otherwise the authority and additional records
go, then answer records from the end; only when no record of the queried type fits is it truncated. -/
def fit (requester : Requester) (reply : Bytes) : Option Bytes :=
  let limit := requester.udpLimit
  if reply.length ≤ limit then some reply
  else
    let questionEnd := headerLen + requester.question.length
    let budget := limit - (if requester.opt.isSome then optLen else 0)
    match answerRecords reply questionEnd with
    | none => requester.truncated reply
    | some answers => do
        let (qtype, _) ← requester.qtypeAndClass
        let kept := answers.takeWhile fun record => record.stop ≤ budget
        if answers.isEmpty ∨ kept.any (fun record => record.rtype == qtype || qtype == typeAny) then
          let stop := (kept.getLast?.map AnswerRecord.stop).getD questionEnd
          let flags ← reply[2]?
          let codes ← reply[3]?
          let records ← slice reply questionEnd stop
          some (requester.build (flags &&& 0xfd) codes records (UInt16.ofNat kept.length))
        else requester.truncated reply

end Requester

/-- An upstream answer checked against its query, stored as wire bytes without OPT. -/
structure UpstreamAnswer where
  bytes : Bytes
  ttlOffsets : List ℕ
  questionEnd : ℕ
deriving DecidableEq, Repr

namespace UpstreamAnswer

/-- The checked answer of a message whose records are known, or why it is rejected. -/
def ofRecords (wire : Bytes) (questionEnd : ℕ) (found : Records) : Option (Except String UpstreamAnswer) :=
  if found.extendedRcode ≠ 0 then some (.error "extended RCODE")
  else
    match found.opt with
    | none => do
        let bytes ← slice wire 0 found.stop
        some (.ok ⟨bytes, found.ttlOffsets, questionEnd % 2 ^ 16⟩)
    | some (start, stop) =>
        if stop ≠ found.stop then some (.error "OPT is not the last record")
        else do
          let bytes ← slice wire 0 found.stop
          let bytes := bytes.take start
          let additionals ← u16At bytes 10
          let bytes ← setU16 bytes 10 (additionals - 1)
          some (.ok ⟨bytes, found.ttlOffsets, questionEnd % 2 ^ 16⟩)

/-- Accepts the message if it decodes, is a response to a standard query with the same question as
`key`, carries OPT only as its last record and has no extended RCODE. -/
def parse (decoder : Decoder) (wire key : Bytes) : Option (Except String UpstreamAnswer) :=
  match decoder wire with
  | none => some (.error "answer does not decode")
  | some _ => do
      let response ← isResponse wire
      let flags : UInt8 ← wire[2]?
      if response = false ∨ (flags >>> 3) &&& 0x0f ≠ 0 then
        some (.error "not a response to a standard query")
      else
        match Dns.questionEnd wire with
        | none => some (.error "answer has no single question")
        | some stop => do
            let own ← questionKey wire stop
            if own ≠ key then some (.error "answer is for another question")
            else
              let walked ← Dns.records wire stop
              match walked with
              | none => some (.error "malformed records")
              | some found => ofRecords wire stop found

/-- NOERROR or NXDOMAIN, not truncated, and small enough that some requester gets it whole. -/
def cacheable (answer : UpstreamAnswer) : Option Bool := do
  let flags ← answer.bytes[2]?
  let codes ← answer.bytes[3]?
  some ((codes &&& 0x0f == noError || codes &&& 0x0f == nxDomain) && flags &&& 0x02 == 0 &&
    answer.bytes.length + optLen ≤ maxUdpPayload.toNat)

/-- Whether the answer section holds any record. -/
def hasAnswers (answer : UpstreamAnswer) : Option Bool := do
  let count ← slice answer.bytes 6 8
  some (count != [0, 0])

def ttlAt (answer : UpstreamAnswer) (start : ℕ) : Option UInt32 := do
  let field ← slice answer.bytes start (start + 4)
  some (UInt32.ofNat (Endian.ofBe field))

/-- Smallest TTL of any record, or 0 without records. -/
def minTtl (answer : UpstreamAnswer) : Option UInt32 := do
  let ttls ← answer.ttlOffsets.mapM answer.ttlAt
  some (ttls.min?.getD 0)

/-- Lowers the TTL field at every offset by `elapsed`, down to zero. -/
def ageTtls (answer : UpstreamAnswer) (elapsed : UInt32) (out : Bytes) : Option Bytes :=
  answer.ttlOffsets.foldlM
    (fun out start => do
      let ttl ← answer.ttlAt start
      writeAt out start (be32 (UInt32.ofNat (ttl.toNat - elapsed.toNat)))) out

/-- Appends the requester's OPT, if it sent one, and counts it. -/
def addOpt (requester : Requester) (out : Bytes) : Option Bytes :=
  match requester.opt with
  | none => some out
  | some opt => do
      let additionals ← u16At (out ++ opt) 10
      setU16 (out ++ opt) 10 (additionals + 1)

/-- The answer for the requester before it is cut to its UDP size. -/
def untrimmed (answer : UpstreamAnswer) (requester : Requester) (elapsed : UInt32) : Option Bytes := do
  let out ← setU16 answer.bytes 0 requester.id
  let flags ← out[2]?
  let out ← writeAt out 2 [(flags &&& 0xfe) ||| requester.rdBit]
  -- The copy panics unless both sides have the same length.
  if headerLen + requester.question.length ≠ answer.questionEnd then none
  else
    let out ← writeAt out headerLen requester.question
    let out ← answer.ageTtls elapsed out
    addOpt requester out

/-- The answer for the requester, `elapsed` seconds after it arrived. -/
def render (answer : UpstreamAnswer) (requester : Requester) (elapsed : UInt32) : Option Bytes := do
  let out ← answer.untrimmed requester elapsed
  requester.fit out

end UpstreamAnswer

end Tollgate.Dns
