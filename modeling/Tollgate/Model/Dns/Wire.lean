import Tollgate.Model.Core.Checked
import Tollgate.Model.Dns.Format

/-! # The DNS wire format, by offsets

Just enough of the wire format to answer and to patch answers without decoding them: header bits,
the question, and where the time-to-live field of each record is. Functions that may find a message
malformed return an option; an index outside the message is a panic, and `records`, which could do
both, returns an option for the panic around the one for the finding.
-/

namespace Tollgate.Dns

def headerLen : ℕ := 12

def maxNameLen : ℕ := 255

/-- `u16::from_be_bytes`. -/
def fromBe16 (high low : UInt8) : UInt16 := UInt16.ofNat (Endian.ofBe [high, low])

def u16At (msg : Bytes) (start : ℕ) : Option UInt16 := do
  let high ← msg[start]?
  let low ← msg[start + 1]?
  some (fromBe16 high low)

/-- `msg[start..start + patch.len()].copy_from_slice(patch)`. -/
def writeAt (msg : Bytes) (start : ℕ) (patch : Bytes) : Option Bytes :=
  if start + patch.length ≤ msg.length then
    some (msg.take start ++ patch ++ msg.drop (start + patch.length))
  else none

def setU16 (msg : Bytes) (start : ℕ) (value : UInt16) : Option Bytes := writeAt msg start (be16 value)

/-- QR bit; the message must hold a whole header. -/
def isResponse (msg : Bytes) : Option Bool := (msg[2]?).map fun byte => byte &&& 0x80 != 0

/-- The loop of `skip_name`. Every round but the last moves on by two bytes at least and stops the
loop at `maxNameLen`, so `maxNameLen` rounds are never used up. -/
def skipNameFrom (msg : Bytes) (allowPointer : Bool) (start : ℕ) : ℕ → ℕ → Option ℕ
  | 0, _ => none
  | rounds + 1, here => do
      let len ← msg[here]?
      if len &&& 0xc0 = 0x00 then
        if len = 0 then some (here + 1)
        else if here + 1 + len.toNat - start ≥ maxNameLen then none
        else skipNameFrom msg allowPointer start rounds (here + 1 + len.toNat)
      else if len &&& 0xc0 = 0xc0 ∧ allowPointer then do
        let _ ← msg[here + 1]?
        some (here + 2)
      else none

/-- Offset just past the name that starts at `start`. A compression pointer ends the name. -/
def skipName (msg : Bytes) (start : ℕ) (allowPointer : Bool) : Option ℕ :=
  skipNameFrom msg allowPointer start maxNameLen start

/-- End offset of the only question, unless the message does not have exactly one question with an
uncompressed name. -/
def questionEnd (msg : Bytes) : Option ℕ := do
  let count ← u16At msg 4
  if count ≠ 1 then none
  else
    let nameEnd ← skipName msg headerLen false
    if nameEnd + 4 ≤ msg.length then some (nameEnd + 4) else none

/-- The question as a cache key: the name with ASCII letters lowercased, then type and class. -/
def questionKey (msg : Bytes) (stop : ℕ) : Option Bytes := do
  let key ← slice msg headerLen stop
  if key.length < 4 then none
  else some ((key.take (key.length - 4)).map lowerByte ++ key.drop (key.length - 4))

/-- The type and the class that end a question. -/
def typeAndClass (question : Bytes) : Option (UInt16 × UInt16) :=
  if question.length < 4 then none
  else do
    let qtype ← u16At question (question.length - 4)
    let qclass ← u16At question (question.length - 2)
    some (qtype, qclass)

/-- The part of a record that both walks read: the end of its name, its type and its end. -/
def recordAt (msg : Bytes) (start : ℕ) : Option (ℕ × UInt16 × ℕ) := do
  let nameEnd ← skipName msg start true
  let rtype ← u16At msg nameEnd
  let length ← u16At msg (nameEnd + 8)
  if nameEnd + 10 + length.toNat > msg.length then none
  else some (nameEnd, rtype, nameEnd + 10 + length.toNat)

/-- Where the records of a message are. -/
structure Records where
  /-- Offset of the TTL field of every record except OPT. -/
  ttlOffsets : List ℕ
  /-- The range of the OPT pseudo-record, if any. -/
  opt : Option (ℕ × ℕ)
  /-- Extended RCODE bits from OPT, zero without OPT. -/
  extendedRcode : UInt8
  /-- Offset just past the last record. -/
  stop : ℕ
deriving DecidableEq, Repr

/-- The walk over the remaining records; `sections` counts the records before the additional ones. -/
def walkRecords (msg : Bytes) (sections : ℕ) : ℕ → ℕ → ℕ → Records → Option (Option Records)
  | 0, _, here, found => some (some { found with stop := here })
  | remaining + 1, index, here, found =>
      match recordAt msg here with
      | none => some none
      | some (nameEnd, rtype, stop) =>
          if rtype = typeOpt then
            if index < sections ∨ found.opt.isSome then some none
            else do
              let extended ← msg[nameEnd + 4]?
              walkRecords msg sections remaining (index + 1) stop
                { found with opt := some (here, stop), extendedRcode := extended }
          else if nameEnd + 4 < 2 ^ 16 then
            walkRecords msg sections remaining (index + 1) stop
              { found with ttlOffsets := found.ttlOffsets ++ [nameEnd + 4] }
          else some none

/-- Walks every record after the question. -/
def records (msg : Bytes) (questionEnd : ℕ) : Option (Option Records) :=
  match u16At msg 6, u16At msg 8, u16At msg 10 with
  | some answers, some authorities, some additionals =>
      walkRecords msg (answers.toNat + authorities.toNat)
        (answers.toNat + authorities.toNat + additionals.toNat) 0 questionEnd ⟨[], none, 0, questionEnd⟩
  | _, _, _ => some none

/-- One record of the answer section: its type and the offset just past it. -/
structure AnswerRecord where
  rtype : UInt16
  stop : ℕ
deriving DecidableEq, Repr

def walkAnswers (msg : Bytes) : ℕ → ℕ → Option (List AnswerRecord)
  | 0, _ => some []
  | remaining + 1, here => do
      let (_, rtype, stop) ← recordAt msg here
      let later ← walkAnswers msg remaining stop
      some (⟨rtype, stop⟩ :: later)

/-- The records of the answer section, in order. -/
def answerRecords (msg : Bytes) (questionEnd : ℕ) : Option (List AnswerRecord) := do
  let answers ← u16At msg 6
  walkAnswers msg answers.toNat questionEnd

end Tollgate.Dns
