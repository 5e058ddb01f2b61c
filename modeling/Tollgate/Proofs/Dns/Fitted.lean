import Tollgate.Proofs.Dns.Rendered

/-! # Replies suit their requester

A reply suits a requester when it is the encoding of a response with the requester's id, RD bit and
question, when its only OPT record is the requester's and stands last, and when it is no longer than
the requester accepts. Replies built from nothing but records suit it, and so does a rendered answer,
whole or cut at a record boundary.
-/

namespace Tollgate.Dns

open List

/-- The flags byte of a response with the RD bit of a requester. -/
def Requester.Flags (requester : Requester) (flags : UInt8) : Prop :=
  flags &&& 0x80 ≠ 0 ∧ (flags &&& 0x01 != 0) = requester.recursionDesired

/-- A reply has what the requester of a question expects of it. -/
structure Requester.Matches (requester : Requester) (question : Question) (reply : Message) : Prop where
  id : reply.id = requester.id
  flags : requester.Flags reply.flags
  question : reply.question = question
  opt : ∃ others, reply.additionals = others ++ requester.optRecord.toList ∧
    ∀ record ∈ reply.answers ++ reply.authorities ++ others, record.isOpt = false

/-- The payload is a reply that the requester of a question accepts. -/
structure Requester.Suits (requester : Requester) (question : Question) (payload : Bytes) (reply : Message) : Prop where
  encodes : payload = reply.encode
  matching : requester.Matches question reply
  fits : payload.length ≤ requester.udpLimit

variable {requester : Requester} {question : Question}

theorem flags_local : requester.Flags (0x80 ||| requester.rdBit) := by
  unfold Requester.Flags Requester.rdBit
  cases requester.recursionDesired <;> decide

theorem flags_addressed {flags : UInt8} (response : flags &&& 0x80 ≠ 0) :
    requester.Flags ((flags &&& 0xfe) ||| requester.rdBit) := by
  have set : ∀ n : Fin 256, UInt8.ofFin n &&& 0x80 ≠ 0 →
      ((UInt8.ofFin n &&& 0xfe) ||| 1) &&& 0x80 ≠ 0 ∧ ((UInt8.ofFin n &&& 0xfe) ||| 1) &&& 0x01 ≠ 0 := by
    decide +kernel
  have clear : ∀ n : Fin 256, UInt8.ofFin n &&& 0x80 ≠ 0 →
      ((UInt8.ofFin n &&& 0xfe) ||| 0) &&& 0x80 ≠ 0 ∧ ((UInt8.ofFin n &&& 0xfe) ||| 0) &&& 0x01 = 0 := by
    decide +kernel
  unfold Requester.Flags Requester.rdBit
  cases requester.recursionDesired with
  | true =>
    obtain ⟨first, second⟩ := set flags.toFin response
    exact ⟨first, bne_iff_ne.mpr second⟩
  | false =>
    obtain ⟨first, second⟩ := clear flags.toFin response
    exact ⟨first, bne_eq_false_iff_eq.mpr second⟩

/-- Setting or clearing TC keeps the flags of a reply. -/
theorem Requester.Flags.cut {flags : UInt8} (kept : requester.Flags flags) :
    requester.Flags (flags &&& 0xfd) ∧ requester.Flags (flags ||| 0x02) := by
  have all : ∀ n : Fin 256, (UInt8.ofFin n &&& 0xfd) &&& 0x80 = UInt8.ofFin n &&& 0x80 ∧
      (UInt8.ofFin n ||| 0x02) &&& 0x80 = UInt8.ofFin n &&& 0x80 ∧
      (UInt8.ofFin n &&& 0xfd) &&& 0x01 = UInt8.ofFin n &&& 0x01 ∧
      (UInt8.ofFin n ||| 0x02) &&& 0x01 = UInt8.ofFin n &&& 0x01 := by
    decide +kernel
  obtain ⟨first, second, third, fourth⟩ := all flags.toFin
  obtain ⟨response, desired⟩ := kept
  exact ⟨⟨first ▸ response, third ▸ desired⟩, ⟨second ▸ response, fourth ▸ desired⟩⟩

/-- A reply with records in the answer section only. -/
def Requester.reply (requester : Requester) (question : Question) (flags codes : UInt8) (records : List Record)
    (few : records.length < 2 ^ 16) : Message where
  id := requester.id
  flags := flags
  codes := codes
  question := question
  answers := records
  authorities := []
  additionals := requester.optRecord.toList
  few := ⟨few, by decide, Nat.lt_of_le_of_lt requester.optRecord.length_toList_le (by decide)⟩

theorem Requester.build_eq (asked : requester.question = question.encode) {flags codes : UInt8} {records : List Record}
    (few : records.length < 2 ^ 16) :
    requester.build flags codes (encodeRecords records) (UInt16.ofNat records.length) =
      (requester.reply question flags codes records few).encode := by
  rw [Requester.build, asked, Requester.opt_eq]
  cases given : requester.optRecord <;>
    simp [Message.encode, Message.header, Message.records, Requester.reply, given, encodeRecords]

theorem Requester.length_opt (requester : Requester) :
    (encodeRecords requester.optRecord.toList).length = if requester.opt.isSome then optLen else 0 := by
  rw [Requester.opt_eq]
  cases given : requester.edns with
  | none => simp [Requester.optRecord, given]
  | some edns => simp [Requester.optRecord, given, encodeRecords, Record.length_encode, Name.encode, encodeLabels,
      NameEnd.encode, optLen]

theorem Requester.length_reply (requester : Requester) (question : Question) (flags codes : UInt8)
    {records : List Record} (few : records.length < 2 ^ 16) :
    (requester.reply question flags codes records few).encode.length =
      headerLen + question.encode.length + (encodeRecords records).length +
        if requester.opt.isSome then optLen else 0 := by
  rw [Message.length_encode, ← Requester.length_opt]
  simp only [Requester.reply, Message.records, append_nil, encodeRecords, flatMap_append, length_append, Nat.add_assoc]

/-- A reply built from records suits its requester if it is short enough. -/
theorem Requester.reply_suits {flags codes : UInt8} {records : List Record} (few : records.length < 2 ^ 16)
    (kept : requester.Flags flags) (plain : ∀ record ∈ records, record.isOpt = false)
    (short : headerLen + question.encode.length + (encodeRecords records).length +
      (if requester.opt.isSome then optLen else 0) ≤ requester.udpLimit) :
    requester.Suits question (requester.reply question flags codes records few).encode
      (requester.reply question flags codes records few) where
  encodes := rfl
  matching := ⟨rfl, kept, rfl, [], rfl, by simpa [Requester.reply] using plain⟩
  fits := by rwa [Requester.length_reply]

theorem Requester.udpLimit_bounds (requester : Requester) : 512 ≤ requester.udpLimit ∧ requester.udpLimit ≤ 1232 := by
  have least : classicUdpPayload.toNat = 512 := rfl
  have most : maxUdpPayload.toNat = 1232 := rfl
  unfold Requester.udpLimit
  split <;> omega

/-- Header, question and OPT with a few bytes of records always fit. -/
theorem Requester.short_reply (requester : Requester) (question : Question) {size : ℕ} (small : size ≤ 200) :
    headerLen + question.encode.length + size + (if requester.opt.isSome then optLen else 0) ≤ requester.udpLimit := by
  have limit := requester.udpLimit_bounds.1
  have short := question.length_encode_le
  have header : headerLen = 12 := rfl
  have opt : (if requester.opt.isSome then optLen else 0) ≤ 11 := by split <;> decide
  omega

theorem Requester.empty_suits (asked : requester.question = question.encode) (rcode : UInt8) :
    ∃ reply, requester.Suits question (requester.empty rcode) reply := by
  have few : ([] : List Record).length < 2 ^ 16 := by decide
  have zero : (0 : UInt16) = UInt16.ofNat ([] : List Record).length := rfl
  have none : ([] : Bytes) = encodeRecords [] := rfl
  rw [Requester.empty, zero, none, requester.build_eq asked few]
  exact ⟨_, requester.reply_suits few flags_local (by simp) (requester.short_reply question (by decide))⟩

/-- The record that answers for a blocked name. -/
def blockRecord (qtype : UInt16) (size : ℕ) (fits : size < 2 ^ 16) : Record where
  owner := ⟨[], .pointer 0xc0 0x0c NameEnd.marked_question, encodeLabels_nil_short⟩
  rtype := qtype
  rclass := classIn
  ttl := blockTtl
  data := List.replicate size 0
  fits := by rwa [length_replicate]

theorem Requester.blocked_suits (asked : requester.question = question.encode) :
    ∃ payload reply, requester.blocked = some payload ∧ requester.Suits question payload reply := by
  rw [Requester.blocked, Requester.qtypeAndClass, asked, typeAndClass_encode, Option.bind_eq_bind, Option.bind_some]
  dsimp only
  split
  · next address =>
    obtain ⟨size, small, is⟩ : ∃ size, size ≤ 16 ∧ (if question.qtype = typeA then 4 else 16) = size :=
      ⟨_, by split <;> decide, rfl⟩
    have fits : size < 2 ^ 16 := by omega
    have plain : (blockRecord question.qtype size fits).isOpt = false := by
      apply beq_eq_false_iff_ne.mpr
      change question.qtype ≠ typeOpt
      rcases address.2 with same | same <;> rw [same] <;> decide
    have written : [0xc0, 0x0c] ++ be16 question.qtype ++ be16 classIn ++ be32 blockTtl ++ be16 (UInt16.ofNat size) ++
        List.replicate size 0 = encodeRecords [blockRecord question.qtype size fits] := by
      simp [encodeRecords, Record.encode, blockRecord, Name.encode, encodeLabels, NameEnd.encode]
    have length : (encodeRecords [blockRecord question.qtype size fits]).length ≤ 200 := by
      rw [encodeRecords, flatMap_singleton, Record.length_encode]
      simp only [blockRecord, Name.encode, encodeLabels, NameEnd.encode, flatMap_nil, nil_append, length_cons,
        length_nil, length_replicate]
      omega
    have few : [blockRecord question.qtype size fits].length < 2 ^ 16 := by simp
    have one : (1 : UInt16) = UInt16.ofNat [blockRecord question.qtype size fits].length := rfl
    rw [is, written, one, requester.build_eq asked few]
    exact ⟨_, _, rfl, requester.reply_suits few flags_local (by simpa using plain)
      (requester.short_reply question length)⟩
  · obtain ⟨reply, suits⟩ := requester.empty_suits asked noError
    exact ⟨_, reply, rfl, suits⟩

theorem recordEnds_take (here count : ℕ) (records : List Record) :
    recordEnds here (records.take count) = (recordEnds here records).take count := by
  induction records generalizing here count with
  | nil => simp [recordEnds]
  | cons record records ih =>
    cases count with
    | zero => rfl
    | succ count => rw [take_succ_cons, recordEnds, recordEnds, take_succ_cons, ih]

@[simp] theorem length_recordEnds (here : ℕ) (records : List Record) :
    (recordEnds here records).length = records.length := by
  induction records generalizing here with
  | nil => rfl
  | cons record records ih => rw [recordEnds, length_cons, length_cons, ih]

/-- The end of the last record, or where they would start. -/
theorem last_recordEnds (here : ℕ) (records : List Record) :
    (((recordEnds here records).getLast?.map AnswerRecord.stop).getD here) = here + (encodeRecords records).length := by
  induction records generalizing here with
  | nil => rfl
  | cons record records ih =>
    have later := ih (here + record.encode.length)
    rw [recordEnds, getLast?_cons, encodeRecords_cons, length_append, ← Nat.add_assoc, ← later]
    cases (recordEnds (here + record.encode.length) records).getLast? <;> rfl

/-- The records that end within a budget are the first ones, and no more of them do. -/
theorem kept_eq (here budget : ℕ) (records : List Record) :
    ∃ count, count ≤ records.length ∧
      (recordEnds here records).takeWhile (fun record => record.stop ≤ budget) = recordEnds here (records.take count) ∧
      (here ≤ budget → here + (encodeRecords (records.take count)).length ≤ budget) ∧
      ∀ more ≤ records.length, here + (encodeRecords (records.take more)).length ≤ budget → more ≤ count := by
  induction records generalizing here with
  | nil => exact ⟨0, Nat.le_refl 0, rfl, fun room => room, fun more none _ => none⟩
  | cons record records ih =>
    have width (more : ℕ) : here + (encodeRecords ((record :: records).take (more + 1))).length =
        here + record.encode.length + (encodeRecords (records.take more)).length := by
      rw [take_succ_cons, encodeRecords_cons, length_append, ← Nat.add_assoc]
    rcases Nat.lt_or_ge budget (here + record.encode.length) with long | short
    · refine ⟨0, Nat.zero_le _, ?_, fun room => room, fun more _ fits => ?_⟩
      · rw [recordEnds, takeWhile_cons_of_neg (by simpa using long)]
        rfl
      · cases more with
        | zero => exact Nat.le_refl 0
        | succ more =>
          rw [width] at fits
          omega
    · obtain ⟨count, most, kept, fits, longest⟩ := ih (here + record.encode.length)
      refine ⟨count + 1, Nat.succ_le_succ most, ?_, fun _ => ?_, fun more bound fits => ?_⟩
      · rw [recordEnds, takeWhile_cons_of_pos (by simpa using short), kept, take_succ_cons, recordEnds]
      · rw [width]
        exact fits short
      · cases more with
        | zero => exact Nat.zero_le _
        | succ more =>
          rw [width] at fits
          exact Nat.succ_le_succ (longest more (Nat.le_of_succ_le_succ bound) fits)

theorem recordEnds_rtypes (here : ℕ) (records : List Record) :
    (recordEnds here records).map AnswerRecord.rtype = records.map Record.rtype := by
  induction records generalizing here with
  | nil => rfl
  | cons record records ih => rw [recordEnds, map_cons, map_cons, ih]

/-- Header, question, these records and the requester's OPT fit its size. -/
def Requester.Fits (requester : Requester) (question : Question) (records : List Record) : Prop :=
  headerLen + question.encode.length + (encodeRecords records).length + (if requester.opt.isSome then optLen else 0) ≤
    requester.udpLimit

/-- The most records from the front that fit. -/
structure Requester.KeepsMost (requester : Requester) (question : Question) (records : List Record) (count : ℕ) :
    Prop where
  le : count ≤ records.length
  fits : requester.Fits question (records.take count)
  most : ∀ more ≤ records.length, requester.Fits question (records.take more) → more ≤ count

/-- A cut reply is of use: nothing was cut, or a record of the queried type is left. -/
def Usable (question : Question) (records kept : List Record) : Prop :=
  records = [] ∨ ∃ record ∈ kept, record.rtype = question.qtype ∨ question.qtype = typeAny

instance (question : Question) (records kept : List Record) : Decidable (Usable question records kept) :=
  inferInstanceAs (Decidable (_ ∨ _))

theorem usable_iff {here : ℕ} {records kept : List Record} :
    ((recordEnds here records).isEmpty ∨ (recordEnds here kept).any fun record =>
      record.rtype == question.qtype || question.qtype == typeAny) ↔ Usable question records kept := by
  have types : ((recordEnds here kept).any fun record => record.rtype == question.qtype || question.qtype == typeAny) =
      ((kept.map Record.rtype).any fun rtype => rtype == question.qtype || question.qtype == typeAny) := by
    rw [← recordEnds_rtypes here, any_map]
    rfl
  rw [types, isEmpty_iff_length_eq_zero, length_recordEnds, length_eq_zero_iff, Usable]
  simp

variable {whole : Message}

/-- The walk over the answers of an encoded message finds them. -/
theorem answerRecords_encode (message : Message) :
    answerRecords message.encode (headerLen + message.question.encode.length) =
      some (recordEnds (headerLen + message.question.encode.length) message.answers) := by
  have parts := Message.hasAt_encode_iff.mp message.hasAt_self
  have count := u16At_eq_some_iff.mpr parts.2.2.2.2.1
  have records := parts.2.2.2.2.2.2.2.2
  rw [Message.records, encodeRecords, flatMap_append, flatMap_append, hasAt_append_iff, hasAt_append_iff] at records
  rw [answerRecords, count, Option.bind_eq_bind, Option.bind_some, UInt16.toNat_ofNat_of_lt' message.few.1]
  exact walkAnswers_eq_some_iff.mpr ⟨message.answers, rfl, records.1.1, rfl⟩

/-- What becomes of a reply that is too long: the most answer records that fit if that is of use, and
otherwise none, with TC set. -/
theorem fit_of_long (asked : requester.question = question.encode) (same : whole.question = question)
    (long : requester.udpLimit < whole.encode.length) :
    ∃ count, requester.KeepsMost question whole.answers count ∧
      requester.fit whole.encode = some
        (if Usable question whole.answers (whole.answers.take count) then
          requester.build (whole.flags &&& 0xfd) whole.codes (encodeRecords (whole.answers.take count))
            (UInt16.ofNat (whole.answers.take count).length)
        else requester.build (whole.flags ||| 0x02) whole.codes [] 0) := by
  have walked := answerRecords_encode whole
  rw [same] at walked
  obtain ⟨count, most, kept, fits, longest⟩ := kept_eq (headerLen + question.encode.length)
    (requester.udpLimit - if requester.opt.isSome then optLen else 0) whole.answers
  have room := requester.short_reply question (Nat.zero_le 200)
  have keeps : requester.KeepsMost question whole.answers count := by
    refine ⟨most, ?_, fun more bound fit => longest more bound ?_⟩
    · have budget := fits (by omega)
      rw [Requester.Fits]
      omega
    · rw [Requester.Fits] at fit
      omega
  refine ⟨count, keeps, ?_⟩
  unfold Requester.fit
  dsimp only
  rw [if_neg (Nat.not_le.mpr long), asked, walked, Requester.qtypeAndClass, asked, typeAndClass_encode]
  simp only [Option.bind_eq_bind, Option.bind_some, whole.flags_at, whole.codes_at, Requester.truncated]
  rw [kept, last_recordEnds, length_recordEnds]
  by_cases usable : Usable question whole.answers (whole.answers.take count)
  · rw [if_pos (usable_iff.mpr usable), if_pos usable]
    -- The kept records start where they stood, so the slice is their encoding.
    have split : encodeRecords whole.records = encodeRecords (whole.answers.take count) ++
        encodeRecords (whole.answers.drop count ++ whole.authorities ++ whole.additionals) := by
      rw [← encodeRecords_append, Message.records]
      simp only [← append_assoc, take_append_drop]
    have stands : HasAt whole.encode (headerLen + question.encode.length) (encodeRecords (whole.answers.take count)) := by
      have parts := (Message.hasAt_encode_iff.mp whole.hasAt_self).2.2.2.2.2.2.2.2
      rw [same, split, hasAt_append_iff] at parts
      exact parts.1
    have inside : headerLen + question.encode.length + (encodeRecords (whole.answers.take count)).length ≤
        whole.encode.length := by
      rw [whole.length_encode, same, split, length_append]
      omega
    rw [slice_of_hasAt stands inside, Option.bind_some]
  · rw [if_neg fun found => usable (usable_iff.mp found), if_neg usable]

/-- Cutting a reply to the size of its requester gives a reply that suits it. -/
theorem fit_suits (asked : requester.question = question.encode) (matching : requester.Matches question whole) :
    ∃ payload reply, requester.fit whole.encode = some payload ∧ requester.Suits question payload reply := by
  by_cases short : whole.encode.length ≤ requester.udpLimit
  · refine ⟨whole.encode, whole, ?_, rfl, matching, short⟩
    unfold Requester.fit
    exact if_pos short
  · obtain ⟨count, keeps, fitted⟩ := fit_of_long asked matching.question (Nat.lt_of_not_le short)
    rw [fitted]
    split
    · have few : (whole.answers.take count).length < 2 ^ 16 := (length_take_le' ..).trans_lt whole.few.1
      rw [requester.build_eq asked few]
      refine ⟨_, _, rfl, requester.reply_suits few matching.flags.cut.1 (fun record member => ?_) keeps.fits⟩
      obtain ⟨others, -, plain⟩ := matching.opt
      apply plain
      simp [mem_of_mem_take member]
    · have few : ([] : List Record).length < 2 ^ 16 := by decide
      have zero : (0 : UInt16) = UInt16.ofNat ([] : List Record).length := rfl
      have none : ([] : Bytes) = encodeRecords [] := rfl
      rw [zero, none, requester.build_eq asked few]
      exact ⟨_, _, rfl, requester.reply_suits few matching.flags.cut.2 (by simp)
        (requester.short_reply question (by decide))⟩

/-- A rendered answer suits every requester whose question is as long as the stored one. -/
theorem render_suits {answer : UpstreamAnswer} {message : Message} (represents : answer.Represents message)
    (asked : requester.question = question.encode)
    (width : message.question.encode.length = question.encode.length) (elapsed : UInt32) :
    ∃ payload reply, answer.render requester elapsed = some payload ∧ requester.Suits question payload reply := by
  rw [UpstreamAnswer.render, represents.untrimmed_eq asked width, Option.bind_eq_bind, Option.bind_some]
  apply fit_suits asked
  refine ⟨rfl, flags_addressed (bne_iff_ne.mp represents.response), rfl, message.additionals.map (Record.aged elapsed.toNat),
    rfl, ?_⟩
  have plain := represents.plain
  simp only [Message.records] at plain
  intro record member
  simp only [represents.whole_answers, represents.whole_authorities, ← map_append] at member
  obtain ⟨stored, found, rfl⟩ := mem_map.mp member
  exact plain stored found

theorem Requester.build_codes (requester : Requester) (flags codes : UInt8) (records : Bytes) (count : UInt16) :
    (requester.build flags codes records count)[3]? = some codes := by
  have front : HasAt (requester.build flags codes records count) 0 (be16 requester.id ++ [flags, codes]) := by
    simp only [HasAt, Requester.build, drop_zero, append_assoc]
    exact ⟨_, rfl⟩
  exact (hasAt_cons_iff.mp (hasAt_cons_iff.mp (hasAt_append_iff.mp front).2).2).1

/-- Cutting a reply keeps its response codes. -/
theorem fit_codes {reply payload : Bytes} (fitted : requester.fit reply = some payload) : payload[3]? = reply[3]? := by
  have cut (reply payload : Bytes) (truncated : requester.truncated reply = some payload) : payload[3]? = reply[3]? := by
    obtain ⟨flags, -, truncated⟩ := Option.bind_eq_some_iff.mp truncated
    obtain ⟨codes, has, truncated⟩ := Option.bind_eq_some_iff.mp truncated
    obtain rfl := Option.some.inj truncated
    rw [requester.build_codes, has]
  unfold Requester.fit at fitted
  dsimp only at fitted
  split at fitted
  · rw [Option.some.inj fitted]
  · split at fitted
    · exact cut reply payload fitted
    · obtain ⟨⟨qtype, qclass⟩, -, fitted⟩ := Option.bind_eq_some_iff.mp fitted
      dsimp only at fitted
      generalize requester.udpLimit - (if requester.opt.isSome then optLen else 0) = budget at fitted
      split at fitted
      · obtain ⟨flags, -, fitted⟩ := Option.bind_eq_some_iff.mp fitted
        obtain ⟨codes, has, fitted⟩ := Option.bind_eq_some_iff.mp fitted
        obtain ⟨records, -, fitted⟩ := Option.bind_eq_some_iff.mp fitted
        obtain rfl := Option.some.inj fitted
        rw [requester.build_codes, has]
      · exact cut reply payload fitted

/-- A rendered answer has the response codes of the stored one. -/
theorem render_codes {answer : UpstreamAnswer} {message : Message} (represents : answer.Represents message)
    (asked : requester.question = question.encode)
    (width : message.question.encode.length = question.encode.length) {elapsed : UInt32} {payload : Bytes}
    (rendered : answer.render requester elapsed = some payload) : payload[3]? = answer.bytes[3]? := by
  rw [UpstreamAnswer.render, represents.untrimmed_eq asked width, Option.bind_eq_bind, Option.bind_some] at rendered
  rw [fit_codes rendered, Message.codes_at, represents.bytes, Message.codes_at]
  rfl

end Tollgate.Dns
