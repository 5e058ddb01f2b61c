import Tollgate.Proofs.Dns.Keys

/-! # Checked upstream answers hold a message

Whatever bytes come from upstream, an accepted answer holds the encoding of a message that is a
response with the asked question and no OPT record, the offsets of all its TTL fields and the end of
its question. The checks themselves never read outside the bytes.
-/

namespace Tollgate.Dns

open List

namespace Message

/-- The first ten bytes of the header: everything before the additional count. -/
def front (message : Message) : Bytes :=
  be16 message.id ++ [message.flags, message.codes] ++ be16 1 ++ be16 (UInt16.ofNat message.answers.length) ++
    be16 (UInt16.ofNat message.authorities.length)

/-- The records before the additional section, encoded behind the question. -/
theorem encode_eq (message : Message) : message.encode =
    message.front ++ (be16 (UInt16.ofNat message.additionals.length) ++
      (message.question.encode ++ encodeRecords message.records)) := by
  simp only [encode, header, front, append_assoc]

@[simp] theorem length_front (message : Message) : message.front.length = 10 := by
  simp [front]

theorem length_encode (message : Message) :
    message.encode.length = headerLen + message.question.encode.length + (encodeRecords message.records).length := by
  simp only [encode_eq, length_append, length_front, length_be16, headerLen]
  omega

/-- A message stands at the start of the bytes that have its header, question and records. -/
theorem hasAt_encode_iff {msg : Bytes} {message : Message} : HasAt msg 0 message.encode ↔
    HasAt msg 0 (be16 message.id) ∧ msg[2]? = some message.flags ∧ msg[3]? = some message.codes ∧
      HasAt msg 4 (be16 1) ∧ HasAt msg 6 (be16 (UInt16.ofNat message.answers.length)) ∧
      HasAt msg 8 (be16 (UInt16.ofNat message.authorities.length)) ∧
      HasAt msg 10 (be16 (UInt16.ofNat message.additionals.length)) ∧
      HasAt msg headerLen message.question.encode ∧
      HasAt msg (headerLen + message.question.encode.length) (encodeRecords message.records) := by
  simp only [encode, header, hasAt_append_iff, hasAt_cons_iff, hasAt_nil, length_append, length_be16, length_cons,
    length_nil, and_true, and_assoc, headerLen, Nat.zero_add, Nat.reduceAdd]

end Message

/-- The message that stands in some bytes, put together from what the walks find. -/
theorem exists_message {msg : Bytes} {question : Question} {answers authorities additionals : UInt16}
    {records : List Record} (header : headerLen ≤ msg.length) (one : HasAt msg 4 (be16 1))
    (asked : HasAt msg headerLen question.encode) (first : HasAt msg 6 (be16 answers))
    (second : HasAt msg 8 (be16 authorities)) (third : HasAt msg 10 (be16 additionals))
    (count : records.length = answers.toNat + authorities.toNat + additionals.toNat)
    (stand : HasAt msg (headerLen + question.encode.length) (encodeRecords records)) :
    ∃ message : Message, HasAt msg 0 message.encode ∧ message.question = question ∧ message.records = records ∧
      message.answers.length = answers.toNat ∧ message.authorities.length = authorities.toNat := by
  have whole : headerLen = 12 := rfl
  obtain ⟨id, idAt⟩ := @exists_be16 msg 0 (by omega)
  have flags : 2 < msg.length := by omega
  have codes : 3 < msg.length := by omega
  have inner : ((records.drop answers.toNat).take authorities.toNat).length = authorities.toNat := by
    rw [length_take, length_drop]
    omega
  have outer : (records.take answers.toNat).length = answers.toNat := by
    rw [length_take]
    omega
  have last : ((records.drop answers.toNat).drop authorities.toNat).length = additionals.toNat := by
    rw [length_drop, length_drop]
    omega
  have joined : records.take answers.toNat ++ (records.drop answers.toNat).take authorities.toNat ++
      (records.drop answers.toNat).drop authorities.toNat = records := by
    rw [append_assoc, take_append_drop, take_append_drop]
  refine ⟨⟨id, msg[2], msg[3], question, _, _, _, outer.trans_lt answers.toNat_lt, inner.trans_lt authorities.toNat_lt,
    last.trans_lt additionals.toNat_lt⟩, ?_, rfl, joined, outer, inner⟩
  rw [Message.hasAt_encode_iff]
  simp only [outer, inner, last, UInt16.ofNat_toNat, Message.records, joined]
  exact ⟨idAt, getElem?_eq_getElem flags, getElem?_eq_getElem codes, one, first, second, third, asked, stand⟩

/-- What a checked answer holds. -/
structure UpstreamAnswer.Represents (answer : UpstreamAnswer) (message : Message) : Prop where
  bytes : answer.bytes = message.encode
  ttlOffsets : answer.ttlOffsets = ttlFields (headerLen + message.question.encode.length) message.records
  questionEnd : answer.questionEnd = headerLen + message.question.encode.length
  plain : ∀ record ∈ message.records, record.isOpt = false
  small : ∀ field ∈ answer.ttlOffsets, field < 2 ^ 16
  response : message.isResponse = true

theorem ttlFields_append (here : ℕ) (first second : List Record) :
    ttlFields here (first ++ second) = ttlFields here first ++ ttlFields (here + (encodeRecords first).length) second := by
  induction first generalizing here with
  | nil => rfl
  | cons record first ih =>
    rw [cons_append, ttlFields, ttlFields, ih, append_assoc, encodeRecords_cons, length_append,
      ← Nat.add_assoc here record.encode.length]

theorem questionEnd_small (question : Question) :
    (headerLen + question.encode.length) % 2 ^ 16 = headerLen + question.encode.length := by
  have short := question.length_encode_le
  have header : headerLen = 12 := rfl
  omega

/-- The message without the last of its additional records. -/
def Message.dropLast (message : Message) : Message :=
  { message with
    additionals := message.additionals.dropLast
    few := ⟨message.few.1, message.few.2.1, by
      have few := message.few.2.2
      rw [length_dropLast]
      omega⟩ }

/-- Records behind the answers and authorities are additional ones. -/
theorem Message.additionals_eq {message : Message} {front : List Record} {last : Record}
    (records : message.records = front ++ [last])
    (behind : message.answers.length + message.authorities.length ≤ front.length) :
    message.additionals = message.additionals.dropLast ++ [last] ∧ message.dropLast.records = front := by
  rcases eq_nil_or_concat message.additionals with none | ⟨init, other, some⟩
  · rw [Message.records, none, append_nil] at records
    have lengths := congrArg List.length records
    simp only [length_append, length_singleton] at lengths
    omega
  · rw [concat_eq_append] at some
    rw [Message.records, some, ← append_assoc] at records
    obtain ⟨same, ends⟩ := append_inj' records rfl
    obtain rfl := (cons.inj ends).1
    have dropped : message.additionals.dropLast = init := by rw [some, dropLast_concat]
    refine ⟨by rw [dropped, some], ?_⟩
    rw [← same, ← dropped]
    rfl

theorem slice_of_prefix {msg part : Bytes} (stands : HasAt msg 0 part) (nonempty : part ≠ []) :
    slice msg 0 part.length = some part := by
  have read := slice_of_hasAt stands (stands.length_le nonempty)
  rwa [Nat.zero_add] at read

theorem Message.encode_ne_nil (message : Message) : message.encode ≠ [] := by
  intro empty
  have length := message.length_encode
  rw [empty, length_nil, headerLen] at length
  omega

/-- Cutting the last additional record off and counting it out gives the message without it. -/
theorem Message.cut_last {message : Message} {front : List Record} {last : Record}
    (additionals : message.additionals = message.additionals.dropLast ++ [last])
    (front_eq : message.dropLast.records = front) :
    ∃ count, u16At (message.encode.take (headerLen + message.question.encode.length + (encodeRecords front).length)) 10 =
        some count ∧
      setU16 (message.encode.take (headerLen + message.question.encode.length + (encodeRecords front).length)) 10
        (count - 1) = some message.dropLast.encode := by
  have records : message.records = front ++ [last] := by
    rw [← front_eq, Message.records, additionals, ← append_assoc]
    rfl
  have count : message.additionals.length = message.dropLast.additionals.length + 1 := by
    rw [additionals, length_append, length_singleton]
    rfl
  have cut : message.encode.take (headerLen + message.question.encode.length + (encodeRecords front).length) =
      message.front ++ (be16 (UInt16.ofNat message.additionals.length) ++
        (message.question.encode ++ encodeRecords front)) := by
    have parts : message.encode = (message.front ++ (be16 (UInt16.ofNat message.additionals.length) ++
        (message.question.encode ++ encodeRecords front))) ++ last.encode := by
      rw [Message.encode_eq, records]
      simp [encodeRecords]
    rw [parts]
    apply take_left'
    simp only [length_append, Message.length_front, length_be16, headerLen]
    omega
  refine ⟨UInt16.ofNat message.additionals.length, ?_, ?_⟩
  · rw [cut, u16At_eq_some_iff, ← message.length_front]
    exact hasAt_middle ..
  · have fewer : UInt16.ofNat message.additionals.length - 1 = UInt16.ofNat message.dropLast.additionals.length := by
      rw [count, UInt16.ofNat_add]
      exact UInt16.add_sub_cancel _ _
    rw [cut, fewer, setU16, writeAt_middle message.length_front (by simp), Message.encode_eq, front_eq]
    rfl

theorem eq_nil_of_encodeRecords {records : List Record} (empty : encodeRecords records = []) : records = [] := by
  cases records with
  | nil => rfl
  | cons record records =>
    rw [encodeRecords_cons] at empty
    exact absurd (append_eq_nil_iff.mp empty).1 record.encode_ne_nil

/-- The message without its OPT record, which is the last of the additional ones if there is one. -/
def Message.Stripped (message kept : Message) : Prop :=
  ((∀ record ∈ message.records, record.isOpt = false) ∧ kept = message) ∨
    ∃ opt, opt.isOpt = true ∧ message.additionals = message.additionals.dropLast ++ [opt] ∧ kept = message.dropLast

namespace Message.Stripped

variable {message kept : Message} (stripped : message.Stripped kept)

include stripped

theorem question_eq : kept.question = message.question := by
  rcases stripped with ⟨-, rfl⟩ | ⟨-, -, -, rfl⟩ <;> rfl

theorem codes_eq : kept.codes = message.codes := by
  rcases stripped with ⟨-, rfl⟩ | ⟨-, -, -, rfl⟩ <;> rfl

theorem flags_eq : kept.flags = message.flags := by
  rcases stripped with ⟨-, rfl⟩ | ⟨-, -, -, rfl⟩ <;> rfl

end Message.Stripped

/-- Whatever the walk has found, the answer is accepted without its OPT or rejected. -/
theorem ofRecords_spec {wire : Bytes} {message : Message} {found : Records} (stands : HasAt wire 0 message.encode)
    (stops : found.stop = message.encode.length) (response : message.isResponse = true)
    (ttls : found.ttlOffsets = ttlFields (headerLen + message.question.encode.length) message.records)
    (small : ∀ field ∈ ttlFields (headerLen + message.question.encode.length) message.records, field < 2 ^ 16)
    (opts : OptFound (message.answers.length + message.authorities.length) 0
      (headerLen + message.question.encode.length) message.records none found.opt) :
    (∃ reason, UpstreamAnswer.ofRecords wire (headerLen + message.question.encode.length) found =
        some (.error reason)) ∨
      ∃ answer kept, UpstreamAnswer.ofRecords wire (headerLen + message.question.encode.length) found =
        some (.ok answer) ∧ answer.Represents kept ∧ message.Stripped kept := by
  have taken := slice_of_prefix stands message.encode_ne_nil
  rw [← stops] at taken
  unfold UpstreamAnswer.ofRecords
  split
  · exact .inl ⟨_, rfl⟩
  · rcases opts with ⟨plain, same⟩ | ⟨-, front, opt, back, records, isOpt, others, behind, same⟩
    · refine .inr ⟨⟨message.encode, found.ttlOffsets, _⟩, message, ?_,
        ⟨rfl, ttls, questionEnd_small _, plain, ttls ▸ small, response⟩, .inl ⟨plain, rfl⟩⟩
      rw [same, taken]
      rfl
    · rw [same]
      dsimp only
      split
      · exact .inl ⟨_, rfl⟩
      · next last =>
        have nothing : back = [] := by
          apply eq_nil_of_encodeRecords
          have lengths := not_not.mp last
          rw [stops, Message.length_encode, records] at lengths
          simp only [encodeRecords, flatMap_append, flatMap_cons, flatMap_nil, length_append, length_nil] at lengths
          apply length_eq_zero_iff.mp
          change (back.flatMap Record.encode).length = 0
          omega
        rw [nothing] at records
        rw [nothing, append_nil] at others
        obtain ⟨additionals, front_eq⟩ := Message.additionals_eq records (by omega)
        obtain ⟨count, read, written⟩ := Message.cut_last additionals front_eq
        have fields : found.ttlOffsets = ttlFields (headerLen + message.question.encode.length) front := by
          rw [ttls, records, ttlFields_append]
          simp [ttlFields, isOpt]
        refine .inr ⟨⟨message.dropLast.encode, found.ttlOffsets, _⟩, message.dropLast, ?_,
          ⟨rfl, ?_, questionEnd_small _, ?_, ttls ▸ small, response⟩, .inr ⟨opt, isOpt, additionals, rfl⟩⟩
        · rw [taken]
          simp only [Option.bind_eq_bind, Option.bind_some, read, written]
          rfl
        · rw [front_eq]
          exact fields
        · rw [front_eq]
          exact others

/-- Checking an answer never panics, and an accepted one holds the response to the asked question
that stands in the bytes, without its OPT. -/
theorem parse_holds {decoder : Decoder} {wire : Bytes} (header : ∀ {decoded}, decoder wire = some decoded → 12 ≤ wire.length)
    (key : Bytes) : (∃ reason, UpstreamAnswer.parse decoder wire key = some (.error reason)) ∨
      ∃ (answer : UpstreamAnswer) (message kept : Message),
        UpstreamAnswer.parse decoder wire key = some (.ok answer) ∧ HasAt wire 0 message.encode ∧
        message.Stripped kept ∧ answer.Represents kept ∧ key = kept.question.lower.encode := by
  unfold UpstreamAnswer.parse
  split
  · exact .inl ⟨_, rfl⟩
  · next decoded accepted =>
    have whole : headerLen ≤ wire.length := header accepted
    have twelve : headerLen = 12 := rfl
    have flags : wire[2]? = some wire[2] := getElem?_eq_getElem (by omega)
    simp only [isResponse, flags, Option.map_some, Option.bind_eq_bind, Option.bind_some]
    split
    · exact .inl ⟨_, rfl⟩
    · next standard =>
      split
      · exact .inl ⟨_, rfl⟩
      · next stop ends =>
        obtain ⟨one, question, asked, rfl⟩ := questionEnd_eq_some_iff.mp ends
        rw [questionKey_eq asked]
        simp only [Option.bind_some]
        split
        · exact .inl ⟨_, rfl⟩
        · next same =>
          obtain ⟨answers, first⟩ := @exists_be16 wire 6 (by omega)
          obtain ⟨authorities, second⟩ := @exists_be16 wire 8 (by omega)
          obtain ⟨additionals, third⟩ := @exists_be16 wire 10 (by omega)
          simp only [records, u16At_eq_some_iff.mpr first, u16At_eq_some_iff.mpr second, u16At_eq_some_iff.mpr third]
          obtain ⟨walked, walk⟩ := Option.isSome_iff_exists.mp (@walkRecords_isSome wire
            (headerLen + question.encode.length) (answers.toNat + authorities.toNat)
            (answers.toNat + authorities.toNat + additionals.toNat) 0 ⟨[], none, 0, headerLen + question.encode.length⟩)
          rw [walk, Option.bind_some]
          cases walked with
          | none => exact .inl ⟨_, rfl⟩
          | some found =>
            obtain ⟨list, count, stand, stops, ttls, small, opts⟩ := walkRecords_sound walk
            obtain ⟨message, stands, rfl, rfl, answerCount, authorityCount⟩ :=
              exists_message whole one asked first second third count stand
            have response : message.isResponse = true := by
              have bits := (Message.hasAt_encode_iff.mp stands).2.1
              obtain same := Option.some.inj (flags.symm.trans bits)
              rw [Message.isResponse, ← same]
              simpa using (not_or.mp standard).1
            rw [← answerCount, ← authorityCount] at opts
            rcases ofRecords_spec stands (stops.trans message.length_encode.symm) response ttls small opts with
              rejected | ⟨answer, kept, accepted, represents, stripped⟩
            · exact .inl rejected
            · refine .inr ⟨answer, message, kept, accepted, stands, stripped, represents, ?_⟩
              rw [stripped.question_eq]
              exact (not_not.mp same).symm

theorem parse_spec {decoder : Decoder} (header : ∀ {msg decoded}, decoder msg = some decoded → 12 ≤ msg.length)
    (wire key : Bytes) : (∃ reason, UpstreamAnswer.parse decoder wire key = some (.error reason)) ∨
      ∃ answer message, UpstreamAnswer.parse decoder wire key = some (.ok answer) ∧ answer.Represents message ∧
        key = message.question.lower.encode ∧ wire[3]? = some message.codes := by
  rcases @parse_holds decoder wire header key with
    rejected | ⟨answer, message, kept, accepted, stands, stripped, represents, asked⟩
  · exact .inl rejected
  · refine .inr ⟨answer, kept, accepted, represents, asked, ?_⟩
    rw [stripped.codes_eq]
    exact (Message.hasAt_encode_iff.mp stands).2.2.1

/-- Only a message with a whole header and one question is accepted. -/
theorem length_of_accepted {decoder : Decoder} {wire key : Bytes} {answer : UpstreamAnswer}
    (accepted : UpstreamAnswer.parse decoder wire key = some (.ok answer)) : 12 ≤ wire.length := by
  unfold UpstreamAnswer.parse at accepted
  split at accepted
  · cases accepted
  · simp only [Option.bind_eq_bind, Option.bind_eq_some_iff] at accepted
    obtain ⟨response, -, flags, -, accepted⟩ := accepted
    split at accepted
    · cases accepted
    · split at accepted
      · cases accepted
      · next stop ends =>
        obtain ⟨-, question, stands, -⟩ := questionEnd_eq_some_iff.mp ends
        have room := stands.length_le question.encode_ne_nil
        rw [headerLen] at room
        omega

/-- An accepted answer holds the message that stands in the bytes, without its OPT. -/
theorem holds_of_accepted {decoder : Decoder} {wire key : Bytes} {answer : UpstreamAnswer}
    (accepted : UpstreamAnswer.parse decoder wire key = some (.ok answer)) :
    ∃ message kept : Message, HasAt wire 0 message.encode ∧ message.Stripped kept ∧ answer.Represents kept ∧
      key = kept.question.lower.encode := by
  rcases @parse_holds decoder wire (fun _ => length_of_accepted accepted) key with
    ⟨reason, rejected⟩ | ⟨other, message, kept, same, stands, stripped, represents, asked⟩
  · exact absurd (rejected.symm.trans accepted) nofun
  · cases same.symm.trans accepted
    exact ⟨message, kept, stands, stripped, represents, asked⟩

end Tollgate.Dns
