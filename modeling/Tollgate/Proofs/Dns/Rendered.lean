import Tollgate.Proofs.Dns.Parsed

/-! # Rendering a checked answer

A checked answer is adapted to a requester by overwriting bytes in place. Each overwrite replaces a
field of the message by one of the same width, so what results is again the encoding of a message:
the stored one with the requester's id, RD bit and question, every record aged, and the requester's
OPT record at the end.
-/

namespace Tollgate.Dns

open List

theorem length_aged (elapsed : ℕ) (record : Record) : (record.aged elapsed).encode.length = record.encode.length := by
  rw [Record.length_encode, Record.length_encode]
  rfl

/-- What stands before and behind the TTL field of a record. -/
theorem Record.encode_split (record : Record) : ∃ front back : Bytes,
    front.length = record.owner.encode.length + 4 ∧
      ∀ ttl, { record with ttl := ttl }.encode = front ++ (be32 ttl ++ back) := by
  refine ⟨record.owner.encode ++ be16 record.rtype ++ be16 record.rclass,
    be16 (UInt16.ofNat record.data.length) ++ record.data, ?_, ?_⟩
  · simp only [length_append, length_be16]
  · intro ttl
    simp only [Record.encode, append_assoc]

variable {answer : UpstreamAnswer}

theorem ttlAt_of_hasAt {start : ℕ} {ttl : UInt32} (stands : HasAt answer.bytes start (be32 ttl)) :
    answer.ttlAt start = some ttl := by
  have room := stands.length_le (ne_nil_of_length_eq_add_one (length_be32 ttl))
  have read := slice_of_hasAt stands room
  rw [length_be32] at read
  rw [UpstreamAnswer.ttlAt, read, Option.bind_eq_bind, Option.bind_some, ofBe_be32, UInt32.ofNat_toNat]

/-- The loop that lowers the TTL fields, from one record on: what lies before is kept. -/
theorem ageTtls_from (elapsed : UInt32) {stored out : Bytes} {records : List Record}
    (plain : ∀ record ∈ records, record.isOpt = false) (bytes : answer.bytes = stored ++ encodeRecords records)
    (length : out.length = stored.length) :
    (ttlFields stored.length records).foldlM
        (fun out start => do
          let ttl ← answer.ttlAt start
          writeAt out start (be32 (UInt32.ofNat (ttl.toNat - elapsed.toNat)))) (out ++ encodeRecords records) =
      some (out ++ encodeRecords (records.map (Record.aged elapsed.toNat))) := by
  induction records generalizing stored out with
  | nil => rfl
  | cons record records ih =>
    obtain ⟨here, later⟩ := forall_mem_cons.mp plain
    obtain ⟨front, back, width, encode⟩ := record.encode_split
    have own : record.encode = front ++ (be32 record.ttl ++ back) := encode record.ttl
    have aged : (record.aged elapsed.toNat).encode =
        front ++ (be32 (UInt32.ofNat (record.ttl.toNat - elapsed.toNat)) ++ back) := encode _
    have field : stored.length + record.owner.encode.length + 4 = (stored ++ front).length := by
      rw [length_append, width, Nat.add_assoc]
    have read : answer.ttlAt (stored.length + record.owner.encode.length + 4) = some record.ttl := by
      apply ttlAt_of_hasAt
      rw [bytes, encodeRecords_cons, own, field]
      simpa only [append_assoc] using hasAt_middle (stored ++ front) (be32 record.ttl) (back ++ encodeRecords records)
    have written : writeAt (out ++ encodeRecords (record :: records)) (stored.length + record.owner.encode.length + 4)
        (be32 (UInt32.ofNat (record.ttl.toNat - elapsed.toNat))) =
          some ((out ++ (record.aged elapsed.toNat).encode) ++ encodeRecords records) := by
      rw [encodeRecords_cons, own, aged]
      have place : (out ++ front).length = stored.length + record.owner.encode.length + 4 := by
        rw [field, length_append, length_append, length]
      simpa only [append_assoc] using @writeAt_middle _ (be32 record.ttl) _ (back ++ encodeRecords records) _ place (by simp)
    rw [ttlFields, if_neg (by simp [here]), singleton_append, foldlM_cons, read]
    simp only [Option.bind_eq_bind, Option.bind_some]
    rw [written, Option.bind_some, map_cons, encodeRecords_cons, ← append_assoc, ← length_append]
    have moved : answer.bytes = (stored ++ record.encode) ++ encodeRecords records := by
      rw [bytes, encodeRecords_cons, append_assoc]
    have aligned : (out ++ (record.aged elapsed.toNat).encode).length = (stored ++ record.encode).length := by
      rw [length_append, length_append, length, length_aged]
    exact ih later moved aligned

/-- The message with the id, RD bit and question of a requester. -/
def Message.addressed (message : Message) (requester : Requester) (question : Question) : Message :=
  { message with
    id := requester.id
    flags := (message.flags &&& 0xfe) ||| requester.rdBit
    question := question }

/-- The message with every record aged. -/
def Message.aged (elapsed : ℕ) (message : Message) : Message :=
  { message with
    answers := message.answers.map (Record.aged elapsed)
    authorities := message.authorities.map (Record.aged elapsed)
    additionals := message.additionals.map (Record.aged elapsed)
    few := by simpa only [length_map] using message.few }

theorem Message.records_aged (elapsed : ℕ) (message : Message) :
    (message.aged elapsed).records = message.records.map (Record.aged elapsed) := by
  simp only [Message.records, Message.aged, map_append]

/-- What a message is made of before its records, of which ageing changes nothing. -/
theorem Message.encode_aged (elapsed : ℕ) (message : Message) : (message.aged elapsed).encode =
    (message.header ++ message.question.encode) ++ encodeRecords (message.records.map (Record.aged elapsed)) := by
  rw [Message.encode, Message.records_aged]
  simp only [Message.header, Message.aged, length_map]

/-- Our OPT record, as a value. -/
def Requester.optRecord (requester : Requester) : Option Record :=
  requester.edns.map fun edns =>
    ⟨⟨[], .root, encodeLabels_nil_short⟩, typeOpt, maxUdpPayload, if edns.dnssecOk then 0x8000 else 0, [],
      Record.fits_nil⟩

theorem Requester.opt_eq (requester : Requester) : requester.opt = requester.optRecord.map Record.encode := by
  rw [Requester.opt, Requester.optRecord, Option.map_map]
  congr 1
  funext edns
  cases h : edns.dnssecOk <;> simp only [Function.comp_apply, h] <;> decide

/-- The message with an OPT record at its end, if there is one. -/
def Message.withOpt (message : Message) (opt : Option Record) (room : message.additionals.length + 1 < 2 ^ 16) :
    Message :=
  { message with
    additionals := message.additionals ++ opt.toList
    few := ⟨message.few.1, message.few.2.1, by
      have short := opt.length_toList_le
      rw [length_append]
      omega⟩ }

namespace Message

variable (message : Message)

theorem setU16_id (id : UInt16) : setU16 message.encode 0 id = some { message with id := id }.encode := by
  simp only [encode, header, append_assoc, setU16]
  exact @writeAt_middle [] (be16 message.id) (be16 id) _ 0 rfl (by simp)

theorem hasAt_self : HasAt message.encode 0 message.encode := prefix_rfl

theorem flags_at : message.encode[2]? = some message.flags := (hasAt_encode_iff.mp message.hasAt_self).2.1

theorem codes_at : message.encode[3]? = some message.codes := (hasAt_encode_iff.mp message.hasAt_self).2.2.1

theorem writeAt_flags (flags : UInt8) : writeAt message.encode 2 [flags] = some { message with flags := flags }.encode := by
  simp only [encode, header, append_assoc, cons_append, nil_append]
  exact @writeAt_middle (be16 message.id) [message.flags] [flags] _ 2 (length_be16 _) rfl

theorem length_header : message.header.length = headerLen := by
  simp [header, headerLen]

theorem writeAt_question {question : Question} (width : message.question.encode.length = question.encode.length) :
    writeAt message.encode headerLen question.encode = some { message with question := question }.encode := by
  simp only [encode, append_assoc]
  exact writeAt_middle message.length_header width

/-- Appending an OPT record and counting it gives the message with it. -/
theorem addOpt_eq (requester : Requester) (room : message.additionals.length + 1 < 2 ^ 16) :
    UpstreamAnswer.addOpt requester message.encode = some (message.withOpt requester.optRecord room).encode := by
  have opt := requester.opt_eq
  unfold UpstreamAnswer.addOpt
  cases given : requester.optRecord with
  | none =>
    rw [opt, given]
    simp only [Option.map_none, encode_eq, withOpt, Option.toList_none, append_nil, records, front]
  | some record =>
    rw [opt, given]
    simp only [Option.map_some]
    have appended : message.encode ++ record.encode = message.front ++
        (be16 (UInt16.ofNat message.additionals.length) ++
          (message.question.encode ++ encodeRecords (message.records ++ [record]))) := by
      rw [encode_eq]
      simp [encodeRecords]
    have read : u16At (message.encode ++ record.encode) 10 = some (UInt16.ofNat message.additionals.length) := by
      rw [appended, u16At_eq_some_iff, ← message.length_front]
      exact hasAt_middle ..
    have more : UInt16.ofNat message.additionals.length + 1 =
        UInt16.ofNat (message.withOpt (some record) room).additionals.length := by
      have count : (message.withOpt (some record) room).additionals.length = message.additionals.length + 1 := by
        simp [withOpt]
      rw [count, UInt16.ofNat_add]
      rfl
    rw [read, Option.bind_eq_bind, Option.bind_some, more, setU16, appended,
      writeAt_middle message.length_front (by simp), encode_eq]
    simp only [withOpt, records, Option.toList_some, append_assoc]
    rfl

end Message

/-- Records whose TTL fields lie below a bound take eleven bytes each before it. -/
theorem eleven_mul_length_lt {here bound : ℕ} {records : List Record} (plain : ∀ record ∈ records, record.isOpt = false)
    (below : ∀ field ∈ ttlFields here records, field < bound) (nonempty : records ≠ []) :
    here + 11 * records.length < bound + 11 := by
  induction records generalizing here with
  | nil => contradiction
  | cons record records ih =>
    obtain ⟨own, others⟩ := forall_mem_cons.mp plain
    rw [ttlFields, if_neg (by simp [own]), singleton_append, forall_mem_cons] at below
    have positive := length_pos_of_ne_nil record.owner.encode_ne_nil
    have length := record.length_encode
    rw [length_cons]
    rcases eq_or_ne records [] with rfl | more
    · rw [length_nil]
      omega
    · have later := ih others below.2 more
      omega

namespace UpstreamAnswer.Represents

variable {message : Message} {requester : Requester} {question : Question}

/-- There is room for one more additional record. -/
theorem room (represents : answer.Represents message) : message.additionals.length + 1 < 2 ^ 16 := by
  have count : message.additionals.length ≤ message.records.length := by
    rw [Message.records, length_append]
    omega
  rcases eq_or_ne message.records [] with none | some
  · rw [none, length_nil] at count
    omega
  · have small := represents.small
    rw [represents.ttlOffsets] at small
    have bound := eleven_mul_length_lt represents.plain small some
    omega

/-- What the answer is for a requester, before it is cut to size. -/
def whole (represents : answer.Represents message) (requester : Requester) (question : Question) (elapsed : ℕ) :
    Message :=
  ((message.addressed requester question).aged elapsed).withOpt requester.optRecord (by
    simpa only [Message.aged, Message.addressed, length_map] using represents.room)

theorem whole_answers (represents : answer.Represents message) (elapsed : ℕ) :
    (represents.whole requester question elapsed).answers = message.answers.map (Record.aged elapsed) := rfl

theorem whole_authorities (represents : answer.Represents message) (elapsed : ℕ) :
    (represents.whole requester question elapsed).authorities = message.authorities.map (Record.aged elapsed) := rfl

/-- Patching the stored bytes never fails for a requester whose question is as long as the stored
one, and gives the message for that requester. -/
theorem untrimmed_eq (represents : answer.Represents message) (asked : requester.question = question.encode)
    (width : message.question.encode.length = question.encode.length) (elapsed : UInt32) :
    answer.untrimmed requester elapsed = some (represents.whole requester question elapsed.toNat).encode := by
  have copied : ¬ headerLen + question.encode.length ≠ answer.questionEnd := by
    rw [represents.questionEnd, width]
    exact not_not.mpr rfl
  have stored : answer.bytes = (message.header ++ message.question.encode) ++ encodeRecords message.records :=
    represents.bytes
  have aged : answer.ageTtls elapsed (message.addressed requester question).encode =
      some ((message.addressed requester question).aged elapsed.toNat).encode := by
    have length : ((message.addressed requester question).header ++ question.encode).length =
        (message.header ++ message.question.encode).length := by
      rw [length_append, length_append, Message.length_header, Message.length_header, width]
    have fields : answer.ttlOffsets =
        ttlFields (message.header ++ message.question.encode).length message.records := by
      rw [represents.ttlOffsets, length_append, Message.length_header]
    rw [UpstreamAnswer.ageTtls, fields, Message.encode_aged]
    exact ageTtls_from elapsed represents.plain stored length
  have asks := Message.writeAt_question
    { message with id := requester.id, flags := (message.flags &&& 0xfe) ||| requester.rdBit } width
  rw [UpstreamAnswer.untrimmed, represents.bytes]
  simp only [Message.setU16_id, Option.bind_eq_bind, Option.bind_some, Message.flags_at, Message.writeAt_flags, asked]
  rw [if_neg copied, asks, Option.bind_some]
  change (answer.ageTtls elapsed (message.addressed requester question).encode).bind _ = _
  rw [aged, Option.bind_some]
  exact Message.addOpt_eq ..

end UpstreamAnswer.Represents

end Tollgate.Dns
