import Mathlib.Data.UInt
import Tollgate.Model.Core.Text
import Tollgate.ToMathlib.Endian

/-! # DNS messages as values

A message with one question, as the records it is made of and not as offsets into bytes: RFC 1035
section 4.1. A name is a list of labels that ends in the root or in a compression pointer, and a
message writes its counts from the lists it holds, so an encoded message has exactly the records
its header announces and nothing after them. What the responder sends is compared with these.
-/

namespace Tollgate.Dns

/-- `value.to_be_bytes()` of a `u16`. -/
def be16 (value : UInt16) : Bytes := Endian.beBytes 2 value.toNat

/-- `value.to_be_bytes()` of a `u32`. -/
def be32 (value : UInt32) : Bytes := Endian.beBytes 4 value.toNat

structure Label where
  bytes : Bytes
  nonempty : bytes ≠ []
  short : bytes.length < 64
deriving DecidableEq

def Label.encode (label : Label) : Bytes := UInt8.ofNat label.bytes.length :: label.bytes

/-- A name ends in the root, or points to the rest of it earlier in the message. -/
inductive NameEnd where
  | root
  | pointer (high low : UInt8) (marked : high &&& 0xc0 = 0xc0)
deriving DecidableEq

/-- The mark of a pointer to the question of the message. -/
theorem NameEnd.marked_question : (0xc0 : UInt8) &&& 0xc0 = 0xc0 := rfl

def NameEnd.encode : NameEnd → Bytes
  | .root => [0]
  | .pointer high low _ => [high, low]

/-- The bytes of the labels of a name. -/
def encodeLabels (labels : List Label) : Bytes := labels.flatMap Label.encode

theorem encodeLabels_nil_short : (encodeLabels []).length < 255 := by decide

/-- A name whose labels take less than 255 bytes. -/
structure Name where
  labels : List Label
  stop : NameEnd
  short : (encodeLabels labels).length < 255
deriving DecidableEq

def Name.encode (name : Name) : Bytes := encodeLabels name.labels ++ name.stop.encode

/-- The question of a message; its name is never compressed. -/
structure Question where
  labels : List Label
  short : (encodeLabels labels).length < 255
  qtype : UInt16
  qclass : UInt16
deriving DecidableEq

namespace Question

def name (question : Question) : Name := ⟨question.labels, .root, question.short⟩

def encode (question : Question) : Bytes := question.name.encode ++ be16 question.qtype ++ be16 question.qclass

/-- Same type and class, and the same labels up to ASCII case. -/
def Same (left right : Question) : Prop :=
  left.labels.map (fun label => label.bytes.map lowerByte) =
      right.labels.map (fun label => label.bytes.map lowerByte) ∧
    left.qtype = right.qtype ∧ left.qclass = right.qclass

instance (left right : Question) : Decidable (Same left right) := inferInstanceAs (Decidable (_ ∧ _))

end Question

structure Record where
  owner : Name
  rtype : UInt16
  rclass : UInt16
  ttl : UInt32
  data : Bytes
  fits : data.length < 2 ^ 16
deriving DecidableEq

/-- The type of the OPT pseudo-record (RFC 6891). -/
def typeOpt : UInt16 := 41

namespace Record

theorem fits_nil : ([] : Bytes).length < 2 ^ 16 := by decide

def encode (record : Record) : Bytes :=
  record.owner.encode ++ be16 record.rtype ++ be16 record.rclass ++ be32 record.ttl ++
    be16 (UInt16.ofNat record.data.length) ++ record.data

def isOpt (record : Record) : Bool := record.rtype == typeOpt

/-- The DO bit of an OPT record, which takes the place of a flag bit of the TTL field. -/
def dnssecOk (record : Record) : Bool := record.ttl &&& 0x8000 != 0

/-- The record `elapsed` seconds later. -/
def aged (elapsed : ℕ) (record : Record) : Record :=
  { record with ttl := UInt32.ofNat (record.ttl.toNat - elapsed) }

end Record

/-- A message with one question. `flags` and `codes` are header bytes 2 and 3. -/
structure Message where
  id : UInt16
  flags : UInt8
  codes : UInt8
  question : Question
  answers : List Record
  authorities : List Record
  additionals : List Record
  few : answers.length < 2 ^ 16 ∧ authorities.length < 2 ^ 16 ∧ additionals.length < 2 ^ 16
deriving DecidableEq

namespace Message

/-- A message without records. -/
theorem few_nil : ([] : List Record).length < 2 ^ 16 ∧ ([] : List Record).length < 2 ^ 16 ∧
    ([] : List Record).length < 2 ^ 16 := by decide

def records (message : Message) : List Record := message.answers ++ message.authorities ++ message.additionals

def header (message : Message) : Bytes :=
  be16 message.id ++ [message.flags, message.codes] ++ be16 1 ++ be16 (UInt16.ofNat message.answers.length) ++
    be16 (UInt16.ofNat message.authorities.length) ++ be16 (UInt16.ofNat message.additionals.length)

def encode (message : Message) : Bytes :=
  message.header ++ message.question.encode ++ message.records.flatMap Record.encode

/-- QR. -/
def isResponse (message : Message) : Bool := message.flags &&& 0x80 != 0

def opcode (message : Message) : UInt8 := (message.flags >>> 3) &&& 0x0f

/-- RD. -/
def recursionDesired (message : Message) : Bool := message.flags &&& 0x01 != 0

/-- The OPT record of a message, which only the additional section may hold. -/
def opt? (message : Message) : Option Record := message.additionals.find? Record.isOpt

end Message

end Tollgate.Dns
