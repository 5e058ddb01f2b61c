import Tollgate.Proofs.Dns.Encoding

/-! # The walks over names and records

A name or a record is skipped exactly when its encoding stands at the offset, and the offset just
past it is returned. The walks over all records and over the answer section therefore find a list
of records whose encodings stand one after the other, and each offset they report is computed from
that list.
-/

namespace Tollgate.Dns

open List

/-- Whether the walk accepts how a name ends. -/
def NameEnd.Allowed (allowPointer : Bool) : NameEnd → Prop
  | .root => True
  | .pointer .. => allowPointer = true

theorem NameEnd.allowed_true : ∀ last : NameEnd, last.Allowed true
  | .root => trivial
  | .pointer .. => rfl

variable {msg : Bytes} {allowPointer : Bool} {start here rounds stop : ℕ}

theorem length_encode_label (label : Label) : label.encode.length = 1 + label.bytes.length := by
  rw [Label.encode, length_cons, Nat.add_comm]

theorem encodeLabels_cons (label : Label) (labels : List Label) :
    encodeLabels (label :: labels) = label.encode ++ encodeLabels labels := flatMap_cons

/-- Every label takes two bytes at least. -/
theorem two_mul_length_le (labels : List Label) : 2 * labels.length ≤ (encodeLabels labels).length := by
  induction labels with
  | nil => exact Nat.le_refl 0
  | cons label labels ih =>
    have positive := length_pos_of_ne_nil label.nonempty
    rw [encodeLabels_cons, length_append, length_encode_label, length_cons]
    omega

theorem NameEnd.encode_ne_nil (last : NameEnd) : last.encode ≠ [] := by
  cases last <;> simp [NameEnd.encode]

theorem Name.encode_ne_nil (name : Name) : name.encode ≠ [] :=
  append_ne_nil_of_right_ne_nil _ name.stop.encode_ne_nil

/-- A length byte that is neither zero nor marked starts a label, if enough bytes follow. -/
theorem exists_label {len : UInt8} (read : msg[here]? = some len) (unmarked : len &&& 0xc0 = 0) (positive : len ≠ 0)
    (room : here + 1 + len.toNat ≤ msg.length) : ∃ label : Label, HasAt msg here label.encode ∧
      label.encode.length = 1 + len.toNat := by
  have width : ((msg.drop (here + 1)).take len.toNat).length = len.toNat := by
    rw [length_take, length_drop]
    omega
  have some : len.toNat ≠ 0 := fun zero => positive (UInt8.toNat_inj.mp zero)
  have nonempty : (msg.drop (here + 1)).take len.toNat ≠ [] := by
    intro empty
    rw [empty] at width
    exact some width.symm
  have short : ((msg.drop (here + 1)).take len.toNat).length < 64 := by
    rw [width]
    exact (and_c0_eq_zero_iff len).mp unmarked
  refine ⟨⟨_, nonempty, short⟩, ?_, ?_⟩
  · refine hasAt_cons_iff.mpr ⟨?_, hasAt_take_drop ..⟩
    rw [read, width, UInt8.ofNat_toNat]
  · rw [length_encode_label, width]

theorem skipNameFrom_sound (found : skipNameFrom msg allowPointer start rounds here = some stop)
    (inside : here - start < 255) (ahead : start ≤ here) :
    ∃ labels last, NameEnd.Allowed allowPointer last ∧ HasAt msg here (encodeLabels labels ++ last.encode) ∧
      stop = here + (encodeLabels labels ++ last.encode).length ∧ here - start + (encodeLabels labels).length < 255 := by
  induction rounds generalizing here with
  | zero => contradiction
  | succ rounds ih =>
    rw [skipNameFrom] at found
    simp only [Option.bind_eq_bind, Option.bind_eq_some_iff] at found
    obtain ⟨len, read, found⟩ := found
    split at found
    · next unmarked =>
      split at found
      · next zero =>
        obtain rfl := Option.some.inj found
        exact ⟨[], .root, trivial, hasAt_singleton_iff.mpr (zero ▸ read), rfl, inside⟩
      · next positive =>
        split at found
        · contradiction
        · next below =>
          rw [maxNameLen] at below
          obtain ⟨labels, last, allowed, later, rfl, short⟩ := ih found (by omega) (by omega)
          have room := later.length_le (append_ne_nil_of_right_ne_nil _ last.encode_ne_nil)
          obtain ⟨label, stands, width⟩ := exists_label read unmarked positive (by omega)
          refine ⟨label :: labels, last, allowed, ?_, ?_, ?_⟩
          · rw [encodeLabels_cons, append_assoc, hasAt_append_iff, width, ← Nat.add_assoc]
            exact ⟨stands, later⟩
          · simp only [encodeLabels_cons, length_append, width]
            omega
          · rw [encodeLabels_cons, length_append, width]
            omega
    · split at found
      · next marked =>
        obtain ⟨low, second, found⟩ := Option.bind_eq_some_iff.mp found
        obtain rfl := Option.some.inj found
        refine ⟨[], .pointer len low marked.1, marked.2, ?_, rfl, inside⟩
        exact hasAt_cons_iff.mpr ⟨read, hasAt_singleton_iff.mpr second⟩
      · contradiction

theorem skipNameFrom_complete {labels : List Label} {last : NameEnd} (allowed : NameEnd.Allowed allowPointer last)
    (stands : HasAt msg here (encodeLabels labels ++ last.encode)) (ahead : start ≤ here)
    (short : here - start + (encodeLabels labels).length < 255) (enough : labels.length < rounds) :
    skipNameFrom msg allowPointer start rounds here = some (here + (encodeLabels labels ++ last.encode).length) := by
  induction labels generalizing here rounds with
  | nil =>
    obtain ⟨rounds, rfl⟩ := Nat.exists_eq_add_one_of_ne_zero (Nat.ne_of_gt enough)
    rw [encodeLabels, flatMap_nil, nil_append] at stands ⊢
    cases last with
    | root =>
      have read := hasAt_singleton_iff.mp stands
      simp [skipNameFrom, read, NameEnd.encode]
    | pointer high low marked =>
      obtain ⟨read, second⟩ := hasAt_cons_iff.mp stands
      have next := hasAt_singleton_iff.mp second
      have allow : allowPointer = true := allowed
      simp [skipNameFrom, read, next, marked, allow, NameEnd.encode]
  | cons label labels ih =>
    obtain ⟨rounds, rfl⟩ := Nat.exists_eq_add_one_of_ne_zero (Nat.ne_of_gt (Nat.lt_of_le_of_lt (Nat.zero_le _) enough))
    rw [encodeLabels_cons, append_assoc, hasAt_append_iff] at stands
    rw [encodeLabels_cons, length_append, length_encode_label] at short
    have read := (hasAt_cons_iff.mp stands.1).1
    have later := stands.2
    rw [length_encode_label, ← Nat.add_assoc] at later
    have below : ¬ here + 1 + label.bytes.length - start ≥ maxNameLen := by
      rw [maxNameLen]
      omega
    rw [skipNameFrom, read, Option.bind_eq_bind, Option.bind_some, if_pos (labelLen_unmarked label),
      if_neg (ofNat_labelLen_ne_zero label), toNat_labelLen, if_neg below,
      ih later (by omega) (by omega) (Nat.lt_of_succ_lt_succ enough)]
    simp only [encodeLabels_cons, length_append, length_encode_label, Option.some.injEq]
    omega

/-- A name is skipped exactly when it stands at the offset. -/
theorem skipName_eq_some_iff : skipName msg start allowPointer = some stop ↔
    ∃ name : Name, name.stop.Allowed allowPointer ∧ HasAt msg start name.encode ∧ stop = start + name.encode.length := by
  constructor
  · intro found
    obtain ⟨labels, last, allowed, stands, rfl, short⟩ := skipNameFrom_sound found (by omega) (Nat.le_refl _)
    exact ⟨⟨labels, last, by omega⟩, allowed, stands, rfl⟩
  · rintro ⟨⟨labels, last, short⟩, allowed, stands, rfl⟩
    have count := two_mul_length_le labels
    apply skipNameFrom_complete allowed stands (Nat.le_refl _)
    · dsimp only
      omega
    · dsimp only [maxNameLen]
      omega

theorem Record.length_encode (record : Record) :
    record.encode.length = record.owner.encode.length + 10 + record.data.length := by
  simp only [Record.encode, length_append, length_be16, length_be32]

theorem Record.encode_ne_nil (record : Record) : record.encode ≠ [] := by
  intro empty
  have length := record.length_encode
  rw [empty, length_nil] at length
  omega

/-- The fixed fields of a record stand at fixed distances from the end of its name. -/
theorem hasAt_record_iff {record : Record} : HasAt msg start record.encode ↔
    HasAt msg start record.owner.encode ∧ HasAt msg (start + record.owner.encode.length) (be16 record.rtype) ∧
      HasAt msg (start + record.owner.encode.length + 2) (be16 record.rclass) ∧
      HasAt msg (start + record.owner.encode.length + 4) (be32 record.ttl) ∧
      HasAt msg (start + record.owner.encode.length + 8) (be16 (UInt16.ofNat record.data.length)) ∧
      HasAt msg (start + record.owner.encode.length + 10) record.data := by
  simp only [Record.encode, hasAt_append_iff, length_append, length_be16, length_be32, and_assoc, ← Nat.add_assoc]

theorem exists_be16 (room : start + 2 ≤ msg.length) : ∃ value, HasAt msg start (be16 value) := by
  have first : start < msg.length := by omega
  have second : start + 1 < msg.length := by omega
  refine ⟨fromBe16 msg[start] msg[start + 1], u16At_eq_some_iff.mp ?_⟩
  simp [u16At, first, second]

theorem exists_be32 (room : start + 4 ≤ msg.length) : ∃ value, HasAt msg start (be32 value) := by
  have width : ((msg.drop start).take 4).length = 4 := by
    rw [length_take, length_drop]
    omega
  refine ⟨UInt32.ofNat (Endian.ofBe ((msg.drop start).take 4)), ?_⟩
  rw [be32_ofBe width]
  exact hasAt_take_drop ..

/-- A record is found exactly when it stands at the offset. -/
theorem recordAt_eq_some_iff {nameEnd : ℕ} {rtype : UInt16} : recordAt msg start = some (nameEnd, rtype, stop) ↔
    ∃ record : Record, HasAt msg start record.encode ∧ nameEnd = start + record.owner.encode.length ∧
      rtype = record.rtype ∧ stop = start + record.encode.length := by
  simp only [recordAt, Option.bind_eq_bind, Option.bind_eq_some_iff]
  constructor
  · rintro ⟨nameEnd', skipped, rtype', type, length, dataLen, found⟩
    split at found
    · contradiction
    · next room =>
      simp only [Option.some.injEq, Prod.mk.injEq] at found
      obtain ⟨rfl, rfl, rfl⟩ := found
      obtain ⟨owner, -, named, rfl⟩ := skipName_eq_some_iff.mp skipped
      obtain ⟨rclass, classAt⟩ := @exists_be16 msg (start + owner.encode.length + 2) (by omega)
      obtain ⟨ttl, ttlAt⟩ := @exists_be32 msg (start + owner.encode.length + 4) (by omega)
      have width : ((msg.drop (start + owner.encode.length + 10)).take length.toNat).length = length.toNat := by
        rw [length_take, length_drop]
        omega
      have lengthAt := u16At_eq_some_iff.mp dataLen
      rw [← UInt16.ofNat_toNat (x := length), ← width] at lengthAt
      have fits := width.trans_lt length.toNat_lt
      refine ⟨⟨owner, rtype', rclass, ttl, _, fits⟩,
        hasAt_record_iff.mpr ⟨named, u16At_eq_some_iff.mp type, classAt, ttlAt, lengthAt, hasAt_take_drop ..⟩,
        rfl, rfl, ?_⟩
      simp only [Record.length_encode, width]
      omega
  · rintro ⟨record, stands, rfl, rfl, rfl⟩
    obtain ⟨named, type, -, -, length, -⟩ := hasAt_record_iff.mp stands
    have inside := stands.length_le record.encode_ne_nil
    have room : ¬ start + record.owner.encode.length + 10 + record.data.length > msg.length := by
      rw [record.length_encode] at inside
      omega
    refine ⟨_, skipName_eq_some_iff.mpr ⟨record.owner, record.owner.stop.allowed_true, named, rfl⟩, _,
      u16At_eq_some_iff.mpr type, _, u16At_eq_some_iff.mpr length, ?_⟩
    rw [toNat_dataLen record.fits, if_neg room, record.length_encode]
    simp only [Nat.add_assoc]

/-- The records as bytes, one after the other. -/
abbrev encodeRecords (records : List Record) : Bytes := records.flatMap Record.encode

theorem encodeRecords_cons (record : Record) (records : List Record) :
    encodeRecords (record :: records) = record.encode ++ encodeRecords records := flatMap_cons

theorem encodeRecords_append (first second : List Record) :
    encodeRecords (first ++ second) = encodeRecords first ++ encodeRecords second := flatMap_append

/-- The types of records that stand one after the other from an offset on, and where each ends. -/
def recordEnds : ℕ → List Record → List AnswerRecord
  | _, [] => []
  | here, record :: records =>
      ⟨record.rtype, here + record.encode.length⟩ :: recordEnds (here + record.encode.length) records

/-- Where the TTL fields of such records are, OPT left out. -/
def ttlFields : ℕ → List Record → List ℕ
  | _, [] => []
  | here, record :: records =>
      (if record.isOpt then [] else [here + record.owner.encode.length + 4]) ++
        ttlFields (here + record.encode.length) records

/-- The answer walk finds exactly the records that stand there. -/
theorem walkAnswers_eq_some_iff {count : ℕ} {found : List AnswerRecord} : walkAnswers msg count here = some found ↔
    ∃ records : List Record, records.length = count ∧ HasAt msg here (encodeRecords records) ∧
      found = recordEnds here records := by
  induction count generalizing here found with
  | zero =>
    simp only [walkAnswers, Option.some.injEq, length_eq_zero_iff, exists_eq_left, recordEnds, encodeRecords,
      flatMap_nil, hasAt_nil, true_and, eq_comm]
  | succ count ih =>
    simp only [walkAnswers, Option.bind_eq_bind, Option.bind_eq_some_iff, Prod.exists, Option.some.injEq]
    constructor
    · rintro ⟨nameEnd, rtype, stop, first, later, rest, rfl⟩
      obtain ⟨record, stands, -, rfl, rfl⟩ := recordAt_eq_some_iff.mp first
      obtain ⟨records, rfl, follows, rfl⟩ := ih.mp rest
      refine ⟨record :: records, rfl, ?_, rfl⟩
      rw [encodeRecords_cons, hasAt_append_iff]
      exact ⟨stands, follows⟩
    · rintro ⟨records, length, stands, rfl⟩
      cases records with
      | nil => contradiction
      | cons record records =>
        rw [encodeRecords_cons, hasAt_append_iff] at stands
        exact ⟨_, _, _, recordAt_eq_some_iff.mpr ⟨record, stands.1, rfl, rfl, rfl⟩, _,
          ih.mpr ⟨records, Nat.succ.inj length, stands.2, rfl⟩, rfl⟩

/-- What the walk over all records has found about OPT: nothing new, or the only OPT record, at
its place behind the answers and authorities. -/
def OptFound (sections index here : ℕ) (records : List Record) (before after : Option (ℕ × ℕ)) : Prop :=
  ((∀ record ∈ records, record.isOpt = false) ∧ after = before) ∨
    before = none ∧ ∃ front opt back, records = front ++ opt :: back ∧ opt.isOpt = true ∧
      (∀ record ∈ front ++ back, record.isOpt = false) ∧ sections ≤ index + front.length ∧
      after = some (here + (encodeRecords front).length, here + (encodeRecords (front ++ [opt])).length)

theorem OptFound.cons {sections index : ℕ} {record : Record} {records : List Record} {before after : Option (ℕ × ℕ)}
    (plain : record.isOpt = false)
    (later : OptFound sections (index + 1) (here + record.encode.length) records before after) :
    OptFound sections index here (record :: records) before after := by
  rcases later with ⟨none, same⟩ | ⟨fresh, front, opt, back, rfl, isOpt, others, behind, rfl⟩
  · exact .inl ⟨forall_mem_cons.mpr ⟨plain, none⟩, same⟩
  · refine .inr ⟨fresh, record :: front, opt, back, rfl, isOpt, ?_, ?_, ?_⟩
    · rw [cons_append]
      exact forall_mem_cons.mpr ⟨plain, others⟩
    · rw [length_cons]
      omega
    · simp only [cons_append, encodeRecords_cons, length_append, Nat.add_assoc]

theorem walkRecords_sound {sections count index : ℕ} {found final : Records}
    (walked : walkRecords msg sections count index here found = some (some final)) :
    ∃ records : List Record, records.length = count ∧ HasAt msg here (encodeRecords records) ∧
      final.stop = here + (encodeRecords records).length ∧
      final.ttlOffsets = found.ttlOffsets ++ ttlFields here records ∧
      (∀ field ∈ ttlFields here records, field < 2 ^ 16) ∧
      OptFound sections index here records found.opt final.opt := by
  induction count generalizing index here found with
  | zero =>
    simp only [walkRecords, Option.some.injEq] at walked
    subst walked
    exact ⟨[], rfl, hasAt_nil, rfl, (append_nil _).symm, by simp [ttlFields], .inl ⟨by simp, rfl⟩⟩
  | succ count ih =>
    rw [walkRecords] at walked
    split at walked
    · cases walked
    · next nameEnd rtype stop first =>
      obtain ⟨record, stands, rfl, rfl, rfl⟩ := recordAt_eq_some_iff.mp first
      split at walked
      · next opt =>
        have isOpt : record.isOpt = true := beq_iff_eq.mpr opt
        split at walked
        · cases walked
        · next fresh =>
          obtain ⟨behind, first⟩ := not_or.mp fresh
          obtain ⟨extended, -, walked⟩ := Option.bind_eq_some_iff.mp walked
          obtain ⟨records, rfl, follows, stops, ttls, small, opts⟩ := ih walked
          refine ⟨record :: records, rfl, ?_, ?_, ?_, ?_, .inr ⟨by simpa using first, [], record, records, rfl, isOpt, ?_⟩⟩
          · rw [encodeRecords_cons, hasAt_append_iff]
            exact ⟨stands, follows⟩
          · rw [stops, encodeRecords_cons, length_append, Nat.add_assoc]
          · rw [ttls, ttlFields, if_pos isOpt, nil_append]
          · rwa [ttlFields, if_pos isOpt, nil_append]
          · rcases opts with ⟨others, same⟩ | ⟨again, -⟩
            · refine ⟨others, by simpa using behind, ?_⟩
              rw [same]
              simp [encodeRecords]
            · contradiction
      · next other =>
        have plain : record.isOpt = false := beq_eq_false_iff_ne.mpr other
        split at walked
        · next fits =>
          obtain ⟨records, rfl, follows, stops, ttls, small, opts⟩ := ih walked
          refine ⟨record :: records, rfl, ?_, ?_, ?_, ?_, opts.cons plain⟩
          · rw [encodeRecords_cons, hasAt_append_iff]
            exact ⟨stands, follows⟩
          · rw [stops, encodeRecords_cons, length_append, Nat.add_assoc]
          · rw [ttls, ttlFields, if_neg (by simp [plain]), append_assoc]
          · rw [ttlFields, if_neg (by simp [plain]), singleton_append]
            exact forall_mem_cons.mpr ⟨fits, small⟩
        · cases walked

/-- The walk never reads outside the message. -/
theorem walkRecords_isSome (sections count index : ℕ) (found : Records) :
    (walkRecords msg sections count index here found).isSome := by
  induction count generalizing index here found with
  | zero => rfl
  | succ count ih =>
    rw [walkRecords]
    split
    · rfl
    · next nameEnd rtype stop first =>
      obtain ⟨record, stands, rfl, rfl, rfl⟩ := recordAt_eq_some_iff.mp first
      have inside := stands.length_le record.encode_ne_nil
      rw [record.length_encode] at inside
      split
      · split
        · rfl
        · rw [List.getElem?_eq_getElem (by omega)]
          exact ih ..
      · split
        · exact ih ..
        · rfl

theorem Question.length_encode (question : Question) :
    question.encode.length = question.name.encode.length + 4 := by
  simp only [Question.encode, length_append, length_be16]

/-- A question takes at most 259 bytes. -/
theorem Question.length_encode_le (question : Question) : question.encode.length ≤ 259 := by
  have short := question.short
  rw [question.length_encode, Question.name, Name.encode, length_append]
  simp only [NameEnd.encode, length_singleton]
  omega

/-- The end of the question is found exactly when the header announces one question and it stands
behind the header. -/
theorem questionEnd_eq_some_iff : questionEnd msg = some stop ↔ HasAt msg 4 (be16 1) ∧
    ∃ question : Question, HasAt msg headerLen question.encode ∧ stop = headerLen + question.encode.length := by
  simp only [questionEnd, Option.bind_eq_bind, Option.bind_eq_some_iff]
  constructor
  · rintro ⟨count, read, found⟩
    split at found
    · cases found
    · next one =>
      obtain rfl := not_not.mp one
      obtain ⟨nameEnd, skipped, found⟩ := Option.bind_eq_some_iff.mp found
      split at found
      · next room =>
        obtain rfl := Option.some.inj found
        obtain ⟨⟨labels, last, short⟩, allowed, stands, rfl⟩ := skipName_eq_some_iff.mp skipped
        cases last with
        | pointer => contradiction
        | root =>
          obtain ⟨qtype, typeAt⟩ := @exists_be16 msg _ (Nat.le_trans (Nat.add_le_add_left (by decide) _) room)
          obtain ⟨qclass, classAt⟩ := @exists_be16 msg _ (Nat.le_trans (Nat.le_of_eq (Nat.add_assoc _ 2 2)) room)
          refine ⟨u16At_eq_some_iff.mp read, ⟨labels, short, qtype, qclass⟩, ?_, ?_⟩
          · simp only [Question.encode, hasAt_append_iff, length_append, length_be16, ← Nat.add_assoc]
            exact ⟨⟨stands, typeAt⟩, classAt⟩
          · rw [Question.length_encode, ← Nat.add_assoc]
            rfl
      · cases found
  · rintro ⟨one, question, stands, rfl⟩
    have inside := stands.length_le (by simp [Question.encode, Question.name, Name.encode_ne_nil])
    refine ⟨1, u16At_eq_some_iff.mpr one, ?_⟩
    simp only [Question.encode, hasAt_append_iff] at stands
    have skipped : skipName msg headerLen false = some (headerLen + question.name.encode.length) :=
      skipName_eq_some_iff.mpr ⟨question.name, trivial, stands.1.1, rfl⟩
    rw [question.length_encode, ← Nat.add_assoc] at inside ⊢
    rw [if_neg (by simp), skipped, Option.bind_some, if_pos inside]

end Tollgate.Dns
