import Tollgate.Proofs.Dns.Fitted

/-! # Walks over DNS messages, and what their keys identify

The two walks over the records of a message were written separately. Both are read off one list of
records that stand one after the other behind the question, so they agree wherever both look, and
every offset they report lies in the message. The keys of the cache are compared through the labels
of the questions, never through their bytes.
-/

namespace Tollgate.Dns

open List

variable {msg : Bytes} {allowPointer : Bool} {start here rounds more stop : ℕ}

/-- With a round for every byte that may follow, more rounds change nothing. -/
theorem skipNameFrom_stable (ahead : start ≤ here) (enough : maxNameLen ≤ rounds + (here - start)) (le : rounds ≤ more)
    (inside : here - start < maxNameLen) :
    skipNameFrom msg allowPointer start more here = skipNameFrom msg allowPointer start rounds here := by
  induction rounds generalizing here more with
  | zero => omega
  | succ rounds ih =>
    obtain ⟨more, rfl⟩ := Nat.exists_eq_add_of_le' le
    rw [← Nat.add_assoc, skipNameFrom, skipNameFrom]
    refine bind_congr fun len => ?_
    split
    · split
      · rfl
      · split
        · rfl
        · next below =>
          apply ih
          all_goals omega
    · rfl

/-- The ends of records that stand one after the other increase. -/
theorem recordEnds_increasing (here : ℕ) (records : List Record) :
    (here :: (recordEnds here records).map AnswerRecord.stop).Pairwise (· < ·) := by
  induction records generalizing here with
  | nil => exact pairwise_singleton ..
  | cons record records ih =>
    have later := ih (here + record.encode.length)
    have forward : here < here + record.encode.length :=
      Nat.lt_add_of_pos_right (length_pos_of_ne_nil record.encode_ne_nil)
    rw [recordEnds, map_cons]
    refine pairwise_cons.mpr ⟨forall_mem_cons.mpr ⟨forward, fun stop member => ?_⟩, later⟩
    exact forward.trans ((pairwise_cons.mp later).1 stop member)

theorem stop_le_of_mem_recordEnds {records : List Record} {answer : AnswerRecord}
    (member : answer ∈ recordEnds here records) : answer.stop ≤ here + (encodeRecords records).length := by
  induction records generalizing here with
  | nil => contradiction
  | cons record records ih =>
    rw [encodeRecords_cons, length_append, ← Nat.add_assoc]
    rcases mem_cons.mp member with rfl | later
    · exact Nat.le_add_right ..
    · exact ih later

/-- Every TTL field that is reported belongs to a record that is not OPT. -/
theorem exists_of_mem_ttlFields {records : List Record} {field : ℕ} (member : field ∈ ttlFields here records) :
    ∃ front record back, records = front ++ record :: back ∧ record.isOpt = false ∧
      field = here + (encodeRecords front).length + record.owner.encode.length + 4 := by
  induction records generalizing here with
  | nil => contradiction
  | cons record records ih =>
    rcases mem_append.mp member with own | later
    · split at own
      · contradiction
      · next plain => exact ⟨[], record, records, rfl, Bool.eq_false_iff.mpr plain, mem_singleton.mp own⟩
    · obtain ⟨front, other, back, rfl, plain, rfl⟩ := ih later
      refine ⟨record :: front, other, back, rfl, plain, ?_⟩
      rw [encodeRecords_cons, length_append, ← Nat.add_assoc here]

/-- A TTL field stands where its record is. -/
theorem hasAt_ttl {front back : List Record} {record : Record}
    (stand : HasAt msg here (encodeRecords (front ++ record :: back))) :
    HasAt msg (here + (encodeRecords front).length) record.encode ∧
      HasAt msg (here + (encodeRecords front).length + record.owner.encode.length + 4) (be32 record.ttl) := by
  rw [encodeRecords_append, encodeRecords_cons, hasAt_append_iff, hasAt_append_iff] at stand
  exact ⟨stand.2.1, (hasAt_record_iff.mp stand.2.1).2.2.2.1⟩

/-- What the two walks over the records of a message report: `walk` is the full walk's list. -/
structure WalksAgree (msg : Bytes) (questionEnd count : ℕ) (found : Records) (walk : List Record)
    (answers : List AnswerRecord) : Prop where
  stand : HasAt msg questionEnd (encodeRecords walk)
  stop : found.stop = questionEnd + (encodeRecords walk).length
  inside : found.stop ≤ msg.length
  length : answers.length = count
  first : answers = (recordEnds questionEnd walk).take count
  increasing : (questionEnd :: answers.map AnswerRecord.stop).Pairwise (· < ·)
  bounded : ∀ answer ∈ answers, answer.stop ≤ found.stop
  ttls : ∀ field ∈ found.ttlOffsets, ∃ front record back, walk = front ++ record :: back ∧
    HasAt msg field (be32 record.ttl) ∧ field + 4 ≤ msg.length ∧
    questionEnd + (encodeRecords front).length ≤ field ∧
    field + 4 ≤ questionEnd + (encodeRecords (front ++ [record])).length

/-- Every record of the walk ends inside the message. -/
theorem encodeRecords_le_of_hasAt {records : List Record} (stand : HasAt msg here (encodeRecords records))
    (room : here ≤ msg.length) : here + (encodeRecords records).length ≤ msg.length := by
  rcases eq_or_ne (encodeRecords records) [] with none | some
  · rwa [none, length_nil, Nat.add_zero]
  · exact stand.length_le some

theorem walks_agree_of_walkRecords {sections total count : ℕ} {found : Records} {extended : UInt8}
    (walked : walkRecords msg sections total 0 start ⟨[], none, extended, start⟩ = some (some found))
    (few : count ≤ total) (room : start ≤ msg.length) :
    ∃ walk answers, walkAnswers msg count start = some answers ∧ WalksAgree msg start count found walk answers := by
  obtain ⟨walk, rfl, stand, stop, ttls, -, -⟩ := walkRecords_sound walked
  have inside := encodeRecords_le_of_hasAt stand room
  have parts : walk = walk.take count ++ walk.drop count := (take_append_drop ..).symm
  have leading : HasAt msg start (encodeRecords (walk.take count)) := by
    rw [parts, encodeRecords_append, hasAt_append_iff] at stand
    exact stand.1
  have whole : (encodeRecords walk).length =
      (encodeRecords (walk.take count)).length + (encodeRecords (walk.drop count)).length := by
    rw [← length_append, ← encodeRecords_append, ← parts]
  refine ⟨walk, recordEnds start (walk.take count), walkAnswers_eq_some_iff.mpr ⟨_, length_take_of_le few, leading, rfl⟩,
    stand, stop, stop ▸ inside, ?_, recordEnds_take .., recordEnds_increasing .., fun answer member => ?_,
    fun field member => ?_⟩
  · rw [length_recordEnds, length_take_of_le few]
  · refine (stop_le_of_mem_recordEnds member).trans ?_
    rw [stop, whole, ← Nat.add_assoc]
    exact Nat.le_add_right ..
  · rw [ttls, nil_append] at member
    obtain ⟨front, record, back, rfl, -, rfl⟩ := exists_of_mem_ttlFields member
    have length := record.length_encode
    obtain ⟨stands, field⟩ := hasAt_ttl stand
    have ends := stands.length_le record.encode_ne_nil
    refine ⟨front, record, back, rfl, field, ?_, ?_, ?_⟩
    · omega
    · omega
    · rw [encodeRecords_append, length_append, encodeRecords_cons, length_append]
      omega

/-- The two walks over the records of a message with one question never read outside of it and agree
on its answers; a name that is passed and ends in the root takes 255 bytes at most. -/
theorem record_walks_agree (msg : Bytes) (stop : ℕ) (ends : questionEnd msg = some stop) :
    (records msg stop).isSome ∧
    (∀ found, records msg stop = some (some found) → ∃ count walk answers, u16At msg 6 = some count ∧
      answerRecords msg stop = some answers ∧ WalksAgree msg stop count.toNat found walk answers) ∧
    ∀ start allowPointer,
      (∀ rounds, maxNameLen ≤ rounds →
        skipNameFrom msg allowPointer start rounds start = skipName msg start allowPointer) ∧
      ∀ nameEnd, skipName msg start allowPointer = some nameEnd →
        ∃ name : Name, HasAt msg start name.encode ∧ nameEnd = start + name.encode.length ∧
          (name.stop = .root → name.encode.length ≤ 255) := by
  have room : stop ≤ msg.length := by
    obtain ⟨-, question, stand, rfl⟩ := questionEnd_eq_some_iff.mp ends
    exact stand.length_le question.encode_ne_nil
  refine ⟨?_, fun found walked => ?_, fun start allowPointer => ⟨fun rounds enough => ?_, fun nameEnd skipped => ?_⟩⟩
  · unfold records
    split
    · exact walkRecords_isSome ..
    · rfl
  · unfold records at walked
    split at walked
    · next answers authorities additionals first second third =>
      have few : answers.toNat ≤ answers.toNat + authorities.toNat + additionals.toNat := by omega
      obtain ⟨walk, found, answered, agree⟩ := walks_agree_of_walkRecords walked few room
      refine ⟨answers, walk, found, first, ?_, agree⟩
      rw [answerRecords, first]
      exact answered
    · cases walked
  · have fresh : start - start < maxNameLen := by
      rw [Nat.sub_self]
      decide
    exact skipNameFrom_stable le_rfl (by omega) enough fresh
  · obtain ⟨name, -, stand, rfl⟩ := skipName_eq_some_iff.mp skipped
    refine ⟨name, stand, rfl, fun root => ?_⟩
    have short := name.short
    rw [Name.encode, root, length_append]
    exact short

/-- A reply for `a` with two answers, an authority, an additional address and an OPT that extends the code. -/
def sectionsReply : Bytes :=
  [0, 1, 0x80, 0, 0, 1, 0, 2, 0, 1, 0, 2] ++ [1, 97, 0, 0, 1, 0, 1] ++
    [0xc0, 12, 0, 5, 0, 1, 0, 0, 0, 60, 0, 2, 0xc0, 12] ++ [0xc0, 12, 0, 1, 0, 1, 0, 0, 0, 60, 0, 4, 1, 2, 3, 4] ++
    [0xc0, 12, 0, 2, 0, 1, 0, 0, 0, 30, 0, 2, 0xc0, 12] ++ [0xc0, 12, 0, 1, 0, 1, 0, 0, 0, 60, 0, 4, 5, 6, 7, 8] ++
    [0, 0, 41, 4, 208, 1, 0, 0x80, 0, 0, 0]

theorem record_walks_agree_sample :
    records sectionsReply 19 = some (some ⟨[25, 39, 55, 69], some (79, 90), 1, 90⟩) ∧
      ∃ walk, WalksAgree sectionsReply 19 2 ⟨[25, 39, 55, 69], some (79, 90), 1, 90⟩ walk [⟨5, 33⟩, ⟨1, 49⟩] := by
  have walked : records sectionsReply 19 = some (some ⟨[25, 39, 55, 69], some (79, 90), 1, 90⟩) := by decide
  have announced : u16At sectionsReply 6 = some 2 := by decide
  have listed : answerRecords sectionsReply 19 = some [⟨5, 33⟩, ⟨1, 49⟩] := by decide
  obtain ⟨count, walk, answers, counted, answered, agree⟩ :=
    (record_walks_agree sectionsReply 19 (by decide)).2.1 _ walked
  obtain rfl := Option.some.inj (announced.symm.trans counted)
  obtain rfl := Option.some.inj (listed.symm.trans answered)
  exact ⟨walked, walk, agree⟩

/-- The labels of two names are pairwise equal up to ASCII case, and there are as many. -/
def SameName (left right : Question) : Prop :=
  left.labels.length = right.labels.length ∧
    Forall₂ (fun a b : Label => a.bytes.map lowerByte = b.bytes.map lowerByte) left.labels right.labels

theorem same_iff_sameName {left right : Question} :
    left.Same right ↔ SameName left right ∧ left.qtype = right.qtype ∧ left.qclass = right.qclass := by
  refine and_congr_left fun _ => ?_
  rw [SameName, ← forall₂_eq_eq_eq, forall₂_map_left_iff, forall₂_map_right_iff]
  exact ⟨fun each => ⟨each.length_eq, each⟩, And.right⟩

/-- Cache keys are equal exactly for questions with the same name up to case, type and class, asked
with the same DO bit. -/
theorem cache_keys_identify_questions (first second : Bytes) (firstEnd secondEnd : ℕ)
    (firstEnds : questionEnd first = some firstEnd) (secondEnds : questionEnd second = some secondEnd)
    (firstRequester secondRequester : Requester) :
    ∃ (left right : Question) (leftKey rightKey : Bytes),
      HasAt first headerLen left.encode ∧ firstEnd = headerLen + left.encode.length ∧
      HasAt second headerLen right.encode ∧ secondEnd = headerLen + right.encode.length ∧
      questionKey first firstEnd = some leftKey ∧ questionKey second secondEnd = some rightKey ∧
      (cacheKey leftKey firstRequester = cacheKey rightKey secondRequester ↔
        SameName left right ∧ left.qtype = right.qtype ∧ left.qclass = right.qclass ∧
          firstRequester.edns.any ClientEdns.dnssecOk = secondRequester.edns.any ClientEdns.dnssecOk) := by
  obtain ⟨-, left, leftStands, rfl⟩ := questionEnd_eq_some_iff.mp firstEnds
  obtain ⟨-, right, rightStands, rfl⟩ := questionEnd_eq_some_iff.mp secondEnds
  refine ⟨left, right, _, _, leftStands, rfl, rightStands, rfl, questionKey_eq leftStands, questionKey_eq rightStands, ?_⟩
  rw [cacheKey_eq_iff, same_iff_sameName, and_assoc, and_assoc]

/-- Queries for the address of `A` and of `a`. -/
def upperQuery : Bytes := [0, 1, 1, 0, 0, 1, 0, 0, 0, 0, 0, 0] ++ [1, 65, 0, 0, 1, 0, 1]

def lowerQuery : Bytes := [0, 2, 1, 0, 0, 1, 0, 0, 0, 0, 0, 0] ++ [1, 97, 0, 0, 1, 0, 1]

/-- Their keys are the same for requesters without the DO bit, so their names are; with it a key is another. -/
theorem cache_keys_identify_questions_sample :
    let without : Requester := ⟨1, true, [1, 65, 0, 0, 1, 0, 1], none⟩
    let withDo : Requester := ⟨2, true, [1, 97, 0, 0, 1, 0, 1], some ⟨1232, true⟩⟩
    ∃ (left right : Question) (key : Bytes),
      HasAt upperQuery headerLen left.encode ∧ HasAt lowerQuery headerLen right.encode ∧ SameName left right ∧
      questionKey upperQuery 19 = some key ∧ questionKey lowerQuery 19 = some key ∧
      cacheKey key without ≠ cacheKey key withDo := by
  intro without withDo
  have firstKey : questionKey upperQuery 19 = some [1, 97, 0, 0, 1, 0, 1] := by decide
  have secondKey : questionKey lowerQuery 19 = some [1, 97, 0, 0, 1, 0, 1] := by decide
  obtain ⟨left, right, _, _, leftStands, -, rightStands, -, leftKey, rightKey, same⟩ :=
    cache_keys_identify_questions upperQuery lowerQuery 19 19 (by decide) (by decide) without without
  obtain rfl := Option.some.inj (firstKey.symm.trans leftKey)
  obtain rfl := Option.some.inj (secondKey.symm.trans rightKey)
  exact ⟨left, right, _, leftStands, rightStands, (same.mp rfl).1, firstKey, secondKey, by decide⟩

end Tollgate.Dns
