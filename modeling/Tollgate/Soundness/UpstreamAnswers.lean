import Tollgate.Model.Dns.Reference
import Tollgate.Soundness.DnsWalks

/-! # What a requester gets of an upstream answer

An accepted answer is patched in place at offsets found when it was checked, and cut when it is too
long. Neither step loses or changes anything it does not have to: outside the id, the RD bit, the
letters of the question, the additional count and the TTL fields the bytes are the upstream's, and a
cut keeps as many answer records as fit, or sets TC when none of the queried type does.
-/

namespace Tollgate.Dns

open List

/-- The requester sent a query with the question of `key`, in letters of either case. -/
def Requester.Asks (requester : Requester) (key : Bytes) : Prop :=
  ∃ query stop, questionEnd query = some stop ∧ slice query headerLen stop = some requester.question ∧
    questionKey query stop = some key

variable {requester : Requester} {key wire : Bytes} {answer : UpstreamAnswer}

theorem Requester.Asks.exists_question (asks : requester.Asks key) :
    ∃ question : Question, requester.question = question.encode ∧ key = question.lower.encode := by
  obtain ⟨query, stop, ends, sent, keyed⟩ := asks
  obtain ⟨-, question, stands, rfl⟩ := questionEnd_eq_some_iff.mp ends
  rw [slice_of_hasAt stands (stands.length_le question.encode_ne_nil)] at sent
  rw [questionKey_eq stands] at keyed
  exact ⟨question, (Option.some.inj sent).symm, (Option.some.inj keyed).symm⟩

theorem lower_inj {left right : Question} (same : left.lower.encode = right.lower.encode) : left.lower = right.lower :=
  (readable_question (show left.lower.encode ++ [] = right.lower.encode ++ [] by rw [same])).1

theorem length_eq_of_lower {left right : Question} (same : left.lower.encode = right.lower.encode) :
    left.encode.length = right.encode.length := by
  rw [← left.length_lower, ← right.length_lower, same]

/-- A reply that is too long keeps the longest front of its answers that fits, if it is of use, and is
truncated otherwise; the walk over its answers never fails. -/
theorem trimmed_reply_exact (decoder : Decoder) (wire key : Bytes) (answer : UpstreamAnswer)
    (accepted : UpstreamAnswer.parse decoder wire key = some (.ok answer)) (requester : Requester)
    (asks : requester.Asks key) (elapsed : UInt32) :
    ∃ whole : Message, answer.untrimmed requester elapsed = some whole.encode ∧
      requester.question = whole.question.encode ∧
      wire[2]?.map (fun flags => (flags &&& 0xfe) ||| requester.rdBit) = some whole.flags ∧ wire[3]? = some whole.codes ∧
      answerRecords whole.encode (headerLen + requester.question.length) =
        some (recordEnds (headerLen + requester.question.length) whole.answers) ∧
      (requester.udpLimit < whole.encode.length →
        ∃ count, requester.KeepsMost whole.question whole.answers count ∧
          let kept := whole.answers.take count
          HasAt whole.encode (headerLen + requester.question.length) (encodeRecords kept) ∧
          (Usable whole.question whole.answers kept → answer.render requester elapsed = some
            (be16 requester.id ++ [whole.flags &&& 0xfd, whole.codes] ++ be16 1 ++ be16 (UInt16.ofNat kept.length) ++
              be16 0 ++ be16 (if requester.opt.isSome then 1 else 0) ++ requester.question ++ encodeRecords kept ++
              requester.opt.getD [])) ∧
          (¬ Usable whole.question whole.answers kept → answer.render requester elapsed = some
            (be16 requester.id ++ [whole.flags ||| 0x02, whole.codes] ++ be16 1 ++ be16 0 ++ be16 0 ++
              be16 (if requester.opt.isSome then 1 else 0) ++ requester.question ++ requester.opt.getD []))) := by
  obtain ⟨question, asked, keyed⟩ := asks.exists_question
  obtain ⟨message, stored, stands, stripped, represents, keyed'⟩ := holds_of_accepted accepted
  have width := length_eq_of_lower (keyed'.symm.trans keyed)
  have patched := represents.untrimmed_eq asked width elapsed
  have parts := Message.hasAt_encode_iff.mp stands
  refine ⟨represents.whole requester question elapsed.toNat, patched, asked, ?_, ?_, ?_, fun long => ?_⟩
  · rw [parts.2.1, Option.map_some, ← stripped.flags_eq]
    rfl
  · rw [parts.2.2.1, ← stripped.codes_eq]
    rfl
  · rw [asked]
    exact answerRecords_encode (represents.whole requester question elapsed.toNat)
  · obtain ⟨count, keeps, fitted⟩ := fit_of_long asked rfl long
    have rendered : answer.render requester elapsed =
        requester.fit (represents.whole requester question elapsed.toNat).encode := by
      rw [UpstreamAnswer.render, patched, Option.bind_eq_bind, Option.bind_some]
    refine ⟨count, keeps, ?_, fun usable => ?_, fun useless => ?_⟩
    · have records := (Message.hasAt_encode_iff.mp
        (represents.whole requester question elapsed.toNat).hasAt_self).2.2.2.2.2.2.2.2
      rw [Message.records, encodeRecords_append, encodeRecords_append, hasAt_append_iff, hasAt_append_iff,
        ← take_append_drop count (represents.whole requester question elapsed.toNat).answers, encodeRecords_append,
        hasAt_append_iff] at records
      rw [asked]
      exact records.1.1.1
    · rw [rendered, fitted]
      exact congrArg some (if_pos usable)
    · rw [rendered, fitted]
      refine (congrArg some (if_neg useless)).trans ?_
      simp only [Requester.build, append_nil]

/-- A response for `a` with an address, 600 bytes of text and an OPT. -/
def longReply : Message where
  id := 1
  flags := 0x80
  codes := 0
  question := ⟨[⟨[97], by decide, by decide⟩], by decide, 1, 1⟩
  answers := [⟨⟨[], .pointer 0xc0 12 NameEnd.marked_question, encodeLabels_nil_short⟩, 1, 1, 60, [1, 2, 3, 4], by decide⟩,
    ⟨⟨[], .pointer 0xc0 12 NameEnd.marked_question, encodeLabels_nil_short⟩, 16, 1, 60, replicate 600 0, by rw [length_replicate]; decide⟩]
  authorities := []
  additionals := [⟨⟨[], .root, encodeLabels_nil_short⟩, typeOpt, 1232, 0, [], Record.fits_nil⟩]
  few := by decide

/-- What is kept of it. -/
def longAnswer : UpstreamAnswer := ⟨longReply.dropLast.encode, [25, 41], 19⟩

/-- The client asked for `A`, with an OPT of its own. -/
def upperRequester : Requester := ⟨7, true, [1, 65, 0, 0, 1, 0, 1], some ⟨512, true⟩⟩

set_option maxRecDepth 8000 in
theorem longReply_accepted : UpstreamAnswer.parse (Decoder.knowing [longReply]) longReply.encode [1, 97, 0, 0, 1, 0, 1] =
    some (.ok longAnswer) := by rfl

set_option maxRecDepth 8000 in
theorem longReply_untrimmed : (longAnswer.untrimmed upperRequester 10).map length = some 658 := by rfl

theorem asks_upper_a : upperRequester.Asks [1, 97, 0, 0, 1, 0, 1] :=
  ⟨[0, 7, 1, 0, 0, 1, 0, 0, 0, 0, 0, 0] ++ [1, 65, 0, 0, 1, 0, 1], 19, by decide, by decide, by decide⟩

theorem trimmed_reply_exact_sample :
    ∃ whole : Message, 512 < whole.encode.length ∧
      ∃ count, upperRequester.KeepsMost whole.question whole.answers count := by
  obtain ⟨whole, patched, -, -, -, -, trimmed⟩ :=
    trimmed_reply_exact _ _ _ _ longReply_accepted upperRequester asks_upper_a 10
  have length := longReply_untrimmed
  rw [patched, Option.map_some, Option.some.injEq] at length
  have long : 512 < whole.encode.length := by omega
  obtain ⟨count, keeps, -⟩ := trimmed long
  exact ⟨whole, long, count, keeps⟩

/-! ## What rendering leaves alone -/

/-- Lowering TTLs keeps every byte outside the fields. -/
theorem ageTtls_outside {elapsed : UInt32} {out aged : Bytes} (done : answer.ageTtls elapsed out = some aged) :
    aged.length = out.length ∧
      ∀ i, (∀ field ∈ answer.ttlOffsets, i < field ∨ field + 4 ≤ i) → aged[i]? = out[i]? := by
  unfold UpstreamAnswer.ageTtls at done
  generalize answer.ttlOffsets = fields at done ⊢
  induction fields generalizing out with
  | nil =>
    obtain rfl := Option.some.inj done
    exact ⟨rfl, fun _ _ => rfl⟩
  | cons field fields ih =>
    rw [foldlM_cons] at done
    simp only [Option.bind_eq_bind, Option.bind_eq_some_iff] at done
    obtain ⟨next, ⟨ttl, -, written⟩, done⟩ := done
    obtain ⟨length, later⟩ := ih done
    refine ⟨length.trans (getElem?_of_writeAt written).1, fun i outside => ?_⟩
    obtain ⟨here, others⟩ := forall_mem_cons.mp outside
    rw [later i others]
    apply getElem?_of_writeAt_outside written
    rwa [length_be32]

/-- Our OPT is appended, and otherwise only the additional count changes. -/
theorem addOpt_outside {out reply : Bytes} (whole : 12 ≤ out.length)
    (done : UpstreamAnswer.addOpt requester out = some reply) :
    reply.drop out.length = requester.opt.getD [] ∧
      ∀ i < out.length, (i < 10 ∨ 12 ≤ i) → reply[i]? = out[i]? := by
  unfold UpstreamAnswer.addOpt at done
  split at done
  · next none =>
    obtain rfl := Option.some.inj done
    rw [none]
    exact ⟨drop_length .., fun _ _ _ => rfl⟩
  · next opt some =>
    obtain ⟨count, -, written⟩ := Option.bind_eq_some_iff.mp done
    have outside (i : ℕ) (away : i < 10 ∨ 12 ≤ i) : reply[i]? = (out ++ opt)[i]? := by
      apply getElem?_of_writeAt_outside written
      rwa [length_be16]
    refine ⟨?_, fun i inside away => (outside i away).trans (getElem?_append_left inside)⟩
    rw [some, Option.getD_some]
    apply ext_getElem?
    intro i
    rw [getElem?_drop, outside _ (.inr (by omega)), getElem?_append_right (Nat.le_add_right ..), Nat.add_sub_cancel_left]

/-- The bytes of the stored answer that no patch covers. -/
theorem untrimmed_outside {elapsed : UInt32} {reply : Bytes} (whole : 12 ≤ answer.bytes.length)
    (done : answer.untrimmed requester elapsed = some reply) :
    reply.drop answer.bytes.length = requester.opt.getD [] ∧
      ∀ i < answer.bytes.length, 2 < i → (i < 10 ∨ 12 ≤ i) →
        (i < headerLen ∨ headerLen + requester.question.length ≤ i) →
        (∀ field ∈ answer.ttlOffsets, i < field ∨ field + 4 ≤ i) → reply[i]? = answer.bytes[i]? := by
  unfold UpstreamAnswer.untrimmed at done
  obtain ⟨withId, first, done⟩ := Option.bind_eq_some_iff.mp done
  obtain ⟨flags, -, done⟩ := Option.bind_eq_some_iff.mp done
  obtain ⟨withFlags, second, done⟩ := Option.bind_eq_some_iff.mp done
  split at done
  · contradiction
  · obtain ⟨withQuestion, third, done⟩ := Option.bind_eq_some_iff.mp done
    obtain ⟨aged, fourth, done⟩ := Option.bind_eq_some_iff.mp done
    obtain ⟨ageLength, ageOutside⟩ := ageTtls_outside fourth
    have length : aged.length = answer.bytes.length := by
      rw [ageLength, (getElem?_of_writeAt third).1, (getElem?_of_writeAt second).1, (getElem?_of_writeAt first).1]
    obtain ⟨appended, counted⟩ := addOpt_outside (by omega) done
    rw [length] at appended counted
    refine ⟨appended, fun i inside high count question fields => ?_⟩
    rw [counted i inside count, ageOutside i fields, getElem?_of_writeAt_outside third question,
      getElem?_of_writeAt_outside second (.inr high), getElem?_of_writeAt_outside first]
    rw [length_be16]
    omega

/-- The message as it stands in the bytes is the stored one and its OPT, but for the additional count. -/
theorem Message.Stripped.encode_split {message stored : Message} (stripped : message.Stripped stored) :
    ∃ opt : Option Record, (∀ record ∈ opt.toList, record.isOpt = true) ∧
      message.additionals = stored.additionals ++ opt.toList ∧
      message.encode = stored.front ++ (be16 (UInt16.ofNat (stored.additionals.length + opt.toList.length)) ++
        (stored.question.encode ++ encodeRecords stored.records)) ++ encodeRecords opt.toList := by
  rcases stripped with ⟨-, rfl⟩ | ⟨opt, isOpt, additionals, rfl⟩
  · refine ⟨none, by simp, by simp, ?_⟩
    rw [Message.encode_eq]
    simp [encodeRecords]
  · have records : message.records = message.dropLast.records ++ [opt] := by
      rw [Message.records, additionals, ← append_assoc]
      rfl
    refine ⟨some opt, by simpa using isOpt, additionals, ?_⟩
    have count : message.additionals.length = message.dropLast.additionals.length + 1 := by
      rw [additionals, length_append, length_singleton]
      rfl
    rw [Message.encode_eq, records, count, encodeRecords_append]
    simp only [append_assoc]
    rfl

theorem Message.Stripped.records_eq {message stored : Message} (stripped : message.Stripped stored) {opt : List Record}
    (additionals : message.additionals = stored.additionals ++ opt) : message.records = stored.records ++ opt := by
  have others : stored.answers = message.answers ∧ stored.authorities = message.authorities := by
    rcases stripped with ⟨-, rfl⟩ | ⟨-, -, -, rfl⟩ <;> exact ⟨rfl, rfl⟩
  rw [Message.records, Message.records, others.1, others.2, additionals, ← append_assoc]

/-- The stored bytes are those of the wire before its OPT, but for the additional count. -/
theorem wire_bytes {message stored : Message} {opt : Bytes} {announced : UInt16} (stands : HasAt wire 0 message.encode)
    (encoded : message.encode = stored.front ++ (be16 announced ++
      (stored.question.encode ++ encodeRecords stored.records)) ++ opt) :
    message.encode = wire.take stored.encode.length ++ opt ∧
      ∀ i < stored.encode.length, (i < 10 ∨ 12 ≤ i) → wire[i]? = stored.encode[i]? := by
  have written : writeAt stored.encode 10 (be16 announced) = some (stored.front ++ (be16 announced ++
      (stored.question.encode ++ encodeRecords stored.records))) := by
    rw [Message.encode_eq]
    exact writeAt_middle stored.length_front (by rw [length_be16, length_be16])
  have taken : wire.take stored.encode.length = stored.front ++ (be16 announced ++
      (stored.question.encode ++ encodeRecords stored.records)) := by
    obtain ⟨rest, split⟩ := stands
    rw [drop_zero] at split
    rw [← split, encoded, append_assoc, ← (getElem?_of_writeAt written).1, take_left]
  refine ⟨by rw [taken, encoded], fun i inside away => ?_⟩
  rw [← getElem?_take_of_lt inside, taken]
  apply getElem?_of_writeAt_outside written
  rwa [length_be16]

/-- The bytes of a question behind the header. -/
theorem getElem?_question {msg : Bytes} {question : Question} (stands : HasAt msg headerLen question.encode) {i : ℕ}
    (behind : headerLen ≤ i) (inside : i < headerLen + question.encode.length) :
    msg[i]? = question.encode[i - headerLen]? := by
  obtain ⟨offset, rfl⟩ := Nat.exists_eq_add_of_le behind
  rw [stands.getElem? (by omega), Nat.add_sub_cancel_left]

theorem flags_and_fe (flags : UInt8) (requester : Requester) :
    ((flags &&& 0xfe) ||| requester.rdBit) &&& 0xfe = flags &&& 0xfe := by
  have bit : requester.rdBit &&& 0xfe = 0 := by
    unfold Requester.rdBit
    split <;> rfl
  have spread : ((flags &&& 0xfe) ||| requester.rdBit) &&& 0xfe =
      (flags &&& 0xfe &&& 0xfe) ||| (requester.rdBit &&& 0xfe) := by
    apply UInt8.toNat_inj.mp
    simp only [UInt8.toNat_and, UInt8.toNat_or, Nat.and_or_distrib_right]
  rw [spread, bit, UInt8.or_zero, UInt8.and_assoc, UInt8.and_self]

/-- OPT records have no TTL field. -/
theorem ttlFields_opt {here : ℕ} {records : List Record} (opts : ∀ record ∈ records, record.isOpt = true) :
    ttlFields here records = [] := by
  induction records generalizing here with
  | nil => rfl
  | cons record records ih =>
    obtain ⟨own, others⟩ := forall_mem_cons.mp opts
    rw [ttlFields, if_pos own, nil_append, ih others]

/-- Questions with the same key differ in the letters of their names only. -/
theorem Question.bytes_of_lower {left right : Question} (same : left.lower = right.lower) (i : ℕ) :
    (i < left.name.encode.length → left.encode[i]?.map lowerByte = right.encode[i]?.map lowerByte) ∧
      (left.name.encode.length ≤ i → left.encode[i]? = right.encode[i]?) := by
  have names : left.name.encode.map lowerByte = right.name.encode.map lowerByte := by
    rw [← left.lower_name, ← right.lower_name, same]
  have length : left.name.encode.length = right.name.encode.length := by
    rw [← length_map lowerByte, names, length_map]
  have types : be16 left.qtype ++ be16 left.qclass = be16 right.qtype ++ be16 right.qclass := by
    have qtype : left.lower.qtype = right.lower.qtype := by rw [same]
    have qclass : left.lower.qclass = right.lower.qclass := by rw [same]
    exact congrArg₂ (fun first second => be16 first ++ be16 second) qtype qclass
  have split (question : Question) : question.encode = question.name.encode ++ (be16 question.qtype ++ be16 question.qclass) :=
    append_assoc ..
  constructor
  · intro inside
    rw [split, split, getElem?_append_left inside, getElem?_append_left (length ▸ inside), ← getElem?_map, names,
      getElem?_map]
  · intro behind
    have behind' : right.name.encode.length ≤ i := length ▸ behind
    rw [split left, split right, types, getElem?_append_right behind, getElem?_append_right behind', length]

/-- TTL fields lie in order behind where the records start, and do not overlap. -/
theorem ttlFields_apart (here : ℕ) (records : List Record) :
    (ttlFields here records).Pairwise (fun a b => a + 4 ≤ b) ∧
      ∀ field ∈ ttlFields here records, here ≤ field ∧ field + 4 ≤ here + (encodeRecords records).length := by
  induction records generalizing here with
  | nil => exact ⟨.nil, nofun⟩
  | cons record records ih =>
    obtain ⟨apart, inside⟩ := ih (here + record.encode.length)
    have width := record.length_encode
    have length : (encodeRecords (record :: records)).length = record.encode.length + (encodeRecords records).length := by
      rw [encodeRecords_cons, length_append]
    rw [ttlFields]
    split
    · refine ⟨apart, fun field member => ?_⟩
      have bounds := inside field member
      omega
    · rw [singleton_append]
      refine ⟨pairwise_cons.mpr ⟨fun field member => ?_, apart⟩, forall_mem_cons.mpr ⟨?_, fun field member => ?_⟩⟩
      · have bounds := inside field member
        omega
      · omega
      · have bounds := inside field member
        omega

/-- A reply has the bytes of the wire up to `base`, except for the id, the RD bit, the letters of the
question name, the additional count and the fields, and the requester's OPT behind them. -/
structure PatchedOnly (wire : Bytes) (base nameEnd : ℕ) (fields : List ℕ) (requester : Requester) (reply : Bytes) :
    Prop where
  same : ∀ i < base, 2 < i → (i < 10 ∨ 12 ≤ i) → (i < headerLen ∨ nameEnd ≤ i) →
    (∀ field ∈ fields, i < field ∨ field + 4 ≤ i) → reply[i]? = wire[i]?
  flags : ∃ before after, wire[2]? = some before ∧ reply[2]? = some after ∧ after &&& 0xfe = before &&& 0xfe
  letters : ∀ i, headerLen ≤ i → i < nameEnd → reply[i]?.map lowerByte = wire[i]?.map lowerByte
  opt : reply.drop base = requester.opt.getD []

/-- The fields are the TTLs of the records that are not OPT: inside the records, and apart. -/
structure TtlsOnly (wire : Bytes) (questionEnd base : ℕ) (records : List Record) (fields : List ℕ) : Prop where
  all : fields = ttlFields questionEnd records
  own : ∀ field ∈ fields, ∃ front record back, records = front ++ record :: back ∧ record.isOpt = false ∧
    field = questionEnd + (encodeRecords front).length + record.owner.encode.length + 4 ∧
    HasAt wire field (be32 record.ttl)
  apart : fields.Pairwise fun a b => a + 4 ≤ b
  inside : ∀ field ∈ fields, questionEnd ≤ field ∧ field + 4 ≤ base ∧ field < 2 ^ 16

/-- Rendering changes only what it must, at fields that are apart and in range, and none of its sums,
differences and conversions leaves its type. -/
theorem render_changes_only (decoder : Decoder) (wire key : Bytes) (answer : UpstreamAnswer)
    (accepted : UpstreamAnswer.parse decoder wire key = some (.ok answer)) (requester : Requester)
    (asks : requester.Asks key) (elapsed : UInt32) :
    ∃ (message : Message) (opt : Option Record) (base : ℕ) (reply : Bytes) (announced stored : UInt16),
      (∀ record ∈ opt.toList, record.isOpt = true) ∧
      message.encode = wire.take base ++ encodeRecords opt.toList ∧ message.encode <+: wire ∧
      answer.untrimmed requester elapsed = some reply ∧
      PatchedOnly wire base (answer.questionEnd - 4) answer.ttlOffsets requester reply ∧
      TtlsOnly wire answer.questionEnd base message.records answer.ttlOffsets ∧
      questionEnd wire = some answer.questionEnd ∧
      u16At wire 10 = some announced ∧ u16At answer.bytes 10 = some stored ∧
      announced.toNat = stored.toNat + opt.toList.length ∧ stored.toNat + 1 < 2 ^ 16 := by
  obtain ⟨question, asked, keyed⟩ := asks.exists_question
  obtain ⟨message, stored, stands, stripped, represents, keyed'⟩ := holds_of_accepted accepted
  have lower := lower_inj (keyed'.symm.trans keyed)
  have width := length_eq_of_lower (keyed'.symm.trans keyed)
  have patched := represents.untrimmed_eq asked width elapsed
  obtain ⟨opt, isOpt, additionals, encoded⟩ := stripped.encode_split
  have parts := Message.hasAt_encode_iff.mp stands
  have asks := parts.2.2.2.2.2.2.2.1
  rw [stripped.question_eq.symm] at asks
  have records : message.records = stored.records ++ opt.toList := stripped.records_eq additionals
  have count : message.additionals.length = stored.additionals.length + opt.toList.length := by
    rw [additionals, length_append]
  have fields : answer.ttlOffsets = ttlFields answer.questionEnd message.records := by
    rw [records, ttlFields_append, ttlFields_opt isOpt, append_nil, represents.ttlOffsets, represents.questionEnd]
  obtain ⟨spread, agree⟩ := wire_bytes stands encoded
  have storedAt := (Message.hasAt_encode_iff.mp stored.hasAt_self).2.2.2.2.2.2.1
  refine ⟨message, opt, stored.encode.length, _, _, UInt16.ofNat stored.additionals.length, isOpt, ?_, stands, patched, ?_,
    ⟨fields, ?_, ?_, ?_⟩, ?_, u16At_eq_some_iff.mpr parts.2.2.2.2.2.2.1, ?_, ?_, ?_⟩
  · exact spread
  · have nameEnd : answer.questionEnd - 4 = headerLen + stored.question.name.encode.length := by
      rw [represents.questionEnd, stored.question.length_encode]
      omega
    have questionWidth := stored.question.length_encode
    have replied : HasAt (represents.whole requester question elapsed.toNat).encode headerLen question.encode :=
      (Message.hasAt_encode_iff.mp (Message.hasAt_self _)).2.2.2.2.2.2.2.1
    obtain ⟨appended, outside⟩ := untrimmed_outside (by rw [represents.bytes, stored.length_encode, headerLen]; omega) patched
    rw [represents.bytes] at appended outside
    refine ⟨fun i inside high away letters fields => ?_, ?_, fun i behind inside => ?_, appended⟩
    · by_cases asking : headerLen ≤ i ∧ i < headerLen + stored.question.encode.length
      · rw [getElem?_question replied asking.1 (width ▸ asking.2), getElem?_question asks asking.1 asking.2]
        exact ((Question.bytes_of_lower lower _).2 (by omega)).symm
      · rw [agree i inside away]
        apply outside i inside high away _ fields
        rw [asked, ← width]
        omega
    · refine ⟨_, _, parts.2.1, Message.flags_at _, ?_⟩
      rw [← stripped.flags_eq]
      exact flags_and_fe ..
    · rw [getElem?_question replied behind (by omega), getElem?_question asks behind (by omega)]
      exact ((Question.bytes_of_lower lower _).1 (by omega)).symm
  · intro field member
    rw [fields] at member
    obtain ⟨front, record, back, split, plain, rfl⟩ := exists_of_mem_ttlFields member
    refine ⟨front, record, back, split, plain, rfl, ?_⟩
    have ttl := parts.2.2.2.2.2.2.2.2
    rw [split, ← stripped.question_eq, ← represents.questionEnd] at ttl
    exact (hasAt_ttl ttl).2
  · rw [fields]
    exact (ttlFields_apart ..).1
  · intro field member
    refine ⟨?_, ?_, represents.small field member⟩
    all_goals
      rw [represents.ttlOffsets, ← represents.questionEnd] at member
      have bounds := (ttlFields_apart ..).2 field member
    · exact bounds.1
    · rw [stored.length_encode, ← represents.questionEnd]
      exact bounds.2
  · refine questionEnd_eq_some_iff.mpr ⟨parts.2.2.2.1, stored.question, asks, represents.questionEnd⟩
  · rw [represents.bytes]
    exact u16At_eq_some_iff.mpr storedAt
  · rw [UInt16.toNat_ofNat_of_lt' message.few.2.2, UInt16.toNat_ofNat_of_lt' stored.few.2.2, count]
  · rw [UInt16.toNat_ofNat_of_lt' stored.few.2.2]
    exact represents.room

/-- The OPT of the upstream is taken off and that of the reply put in its place. -/
theorem render_changes_only_sample :
    ∃ (message : Message) (opt : Record) (base : ℕ) (reply : Bytes), opt.isOpt = true ∧
      message.encode = longReply.encode.take base ++ opt.encode ∧ longAnswer.untrimmed upperRequester 10 = some reply ∧
      PatchedOnly longReply.encode base 15 [25, 41] upperRequester reply ∧
      reply.drop base = [0, 0, 41, 4, 208, 0, 0, 0x80, 0, 0, 0] ∧
      TtlsOnly longReply.encode 19 base message.records [25, 41] := by
  obtain ⟨message, opt, base, reply, announced, stored, isOpt, encoded, -, rendered, only, ttls, -, before, after, counts, -⟩ :=
    render_changes_only _ _ _ _ longReply_accepted upperRequester asks_upper_a 10
  obtain rfl := Option.some.inj ((show u16At longReply.encode 10 = some 1 from rfl).symm.trans before)
  obtain rfl := Option.some.inj ((show u16At longAnswer.bytes 10 = some 0 from rfl).symm.trans after)
  cases opt with
  | none => cases counts
  | some opt =>
    have single : encodeRecords [opt] = opt.encode := by rw [encodeRecords, flatMap_singleton]
    refine ⟨message, opt, base, reply, isOpt opt (mem_singleton_self _), ?_, rendered, only, only.opt, ttls⟩
    rw [encoded, Option.toList_some, single]

end Tollgate.Dns
