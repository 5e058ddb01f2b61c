import Tollgate.Model.Dns.Format
import Tollgate.Model.Filter.Decision

/-! # The message decoder

Queries and answers are decoded by a library; the responder reads only the parts of a decoded
message listed here. `Decoder.Faithful` is what is assumed of the library: it accepts only messages
with a whole header, and of a message with one question it reports the header bits, the question
type and the OPT record that are in the bytes. Sizes below 512 in OPT may be reported as 512.
-/

namespace Tollgate.Dns

/-- EDNS as the decoder reports it. -/
structure Edns where
  maxPayload : UInt16
  dnssecOk : Bool
deriving DecidableEq, Repr

/-- A question as the decoder reports it: the name in presentation form with the final dot. -/
structure DecodedQuery where
  name : Text
  queryType : UInt16
deriving DecidableEq, Repr

/-- What is read of a decoded message. -/
structure Decoded where
  id : UInt16
  recursionDesired : Bool
  opCode : UInt8
  queries : List DecodedQuery
  edns : Option Edns
deriving DecidableEq, Repr

/-- `Message::from_vec`. -/
abbrev Decoder := Bytes → Option Decoded

/-- The decoded message reports what the message holds. -/
structure Decoded.Reports (decoded : Decoded) (message : Message) : Prop where
  id : decoded.id = message.id
  recursionDesired : decoded.recursionDesired = message.recursionDesired
  opCode : decoded.opCode = message.opcode
  queries : decoded.queries.map DecodedQuery.queryType = [message.question.qtype]
  dnssecOk : decoded.edns.map Edns.dnssecOk = message.opt?.map Record.dnssecOk
  maxPayload : decoded.edns.map (fun edns => max 512 edns.maxPayload.toNat) =
    message.opt?.map fun opt => max 512 opt.rclass.toNat

/-- What is assumed of the decoder. `questions` is the question count of the header. -/
structure Decoder.Faithful (decoder : Decoder) : Prop where
  header : ∀ {msg decoded}, decoder msg = some decoded → 12 ≤ msg.length
  reports : ∀ {msg decoded}, decoder msg = some decoded → ∀ {question rest},
    (msg.drop 4).take 2 = be16 1 → msg.drop 12 = Question.encode question ++ rest →
      ∃ message trailing, msg = Message.encode message ++ trailing ∧ decoded.Reports message

/-- The characters of a label. -/
def Label.text (label : Label) : Text := label.bytes.map fun byte => Char.ofNat byte.toNat

/-- The labels of the question are those of the host, with the host's letter case. -/
def Question.Asks (question : Question) (host : Text) : Prop :=
  question.labels.map Label.text = host.stripDot.splitOn '.'

instance (question : Question) (host : Text) : Decidable (question.Asks host) := inferInstanceAs (Decidable (_ = _))

/-- No label of the host begins with `-`, which the decoder prints behind a backslash there. -/
def startsPlainly (host : Text) : Bool := (host.stripDot.splitOn '.').all fun label => label.head? != some '-'

/-- The decoder prints the name of such a host as its labels joined by dots, with a final dot. -/
def Decoder.Prints (decoder : Decoder) : Prop :=
  ∀ {msg decoded}, decoder msg = some decoded → ∀ {message : Message} {trailing host},
    msg = message.encode ++ trailing → isDnsName host = true → startsPlainly host = true →
      message.question.Asks host → decoded.queries.map DecodedQuery.name = [host.stripDot ++ ['.']]

end Tollgate.Dns
