import Tollgate.Proofs.Dns.Walk
import Tollgate.Model.Dns.Handler

/-! # Cache keys identify questions

The key of a question is the encoding of the question with its letters lowercased: the length bytes
of labels are below the letters, so lowercasing all bytes of a name changes its letters only. Two
questions therefore have the same key exactly when they have the same labels up to ASCII case and
the same type and class.
-/

namespace Tollgate.Dns

open List PrefixCode

def Label.lower (label : Label) : Label where
  bytes := label.bytes.map lowerByte
  nonempty := by simpa using label.nonempty
  short := by simpa using label.short

theorem Label.lower_encode (label : Label) : label.lower.encode = label.encode.map lowerByte := by
  have length : lowerByte (UInt8.ofNat label.bytes.length) = UInt8.ofNat label.bytes.length := by
    have short := label.short
    apply UInt8.toNat_inj.mp
    rw [Text.toNat_lowerByte, toNat_labelLen]
    split <;> omega
  rw [Label.encode, Label.encode, Label.lower, map_cons, length, length_map]

theorem encodeLabels_lower (labels : List Label) :
    encodeLabels (labels.map Label.lower) = (encodeLabels labels).map lowerByte := by
  rw [encodeLabels, encodeLabels, flatMap_map, map_flatMap]
  exact congrArg (labels.flatMap ·) (funext Label.lower_encode)

/-- The question with its letters lowercased. -/
def Question.lower (question : Question) : Question where
  labels := question.labels.map Label.lower
  short := by
    rw [encodeLabels_lower, length_map]
    exact question.short
  qtype := question.qtype
  qclass := question.qclass

theorem Question.lower_name (question : Question) : question.lower.name.encode = question.name.encode.map lowerByte := by
  simp only [Question.name, Question.lower, Name.encode, encodeLabels_lower, map_append]
  rfl

theorem Question.length_lower (question : Question) : question.lower.encode.length = question.encode.length := by
  rw [Question.length_encode, Question.length_encode, Question.lower_name, length_map]

theorem Question.encode_ne_nil (question : Question) : question.encode ≠ [] := by
  simp [Question.encode, Question.name, Name.encode_ne_nil]

theorem Question.lower_eq_iff {left right : Question} : left.lower = right.lower ↔ left.Same right := by
  have labels : left.labels.map Label.lower = right.labels.map Label.lower ↔
      left.labels.map (fun label => label.bytes.map lowerByte) =
        right.labels.map (fun label => label.bytes.map lowerByte) := by
    have injective : Function.Injective Label.bytes := fun _ _ same => Label.ext same
    rw [← (map_injective_iff.mpr injective).eq_iff, map_map, map_map]
    rfl
  rw [Question.Same, ← labels]
  simp only [Question.lower, Question.mk.injEq]

theorem slice_of_hasAt {msg part : Bytes} {start : ℕ} (here : HasAt msg start part)
    (room : start + part.length ≤ msg.length) : slice msg start (start + part.length) = some part := by
  obtain ⟨before, after, rfl, rfl⟩ := here.exists_split (by omega)
  rw [← append_assoc]
  exact slice_append ..

/-- The key of a question that stands behind the header. -/
theorem questionKey_eq {msg : Bytes} {question : Question} (stands : HasAt msg headerLen question.encode) :
    questionKey msg (headerLen + question.encode.length) = some question.lower.encode := by
  have length := question.length_encode
  have enough : ¬ question.encode.length < 4 := by omega
  have name : question.encode.length - 4 = question.name.encode.length := by omega
  rw [questionKey, slice_of_hasAt stands (stands.length_le question.encode_ne_nil), Option.bind_eq_bind,
    Option.bind_some, if_neg enough, name]
  simp only [Question.encode, append_assoc, take_left, drop_left, Question.lower_name]
  rfl

theorem typeAndClass_encode (question : Question) : typeAndClass question.encode = some (question.qtype, question.qclass) := by
  have length := question.length_encode
  have enough : ¬ question.encode.length < 4 := by omega
  have stands : HasAt question.encode 0 question.encode := prefix_rfl
  have inner := stands
  conv at inner => rhs; rw [Question.encode]
  simp only [hasAt_append_iff, length_append, length_be16, Nat.zero_add] at inner
  have first : question.encode.length - 4 = question.name.encode.length := by omega
  have second : question.encode.length - 2 = question.name.encode.length + 2 := by omega
  rw [typeAndClass, if_neg enough, first, second, u16At_eq_some_iff.mpr inner.1.2, u16At_eq_some_iff.mpr inner.2]
  rfl

/-- Two cache keys are equal exactly for the same question and the same DO bit. -/
theorem cacheKey_eq_iff {left right : Question} {first second : Requester} :
    cacheKey left.lower.encode first = cacheKey right.lower.encode second ↔
      left.Same right ∧ first.edns.any ClientEdns.dnssecOk = second.edns.any ClientEdns.dnssecOk := by
  rw [cacheKey, cacheKey, ← Question.lower_eq_iff]
  constructor
  · intro same
    obtain ⟨equal, bits⟩ := readable_question same
    refine ⟨equal, ?_⟩
    revert bits
    cases first.edns.any ClientEdns.dnssecOk <;> cases second.edns.any ClientEdns.dnssecOk <;> decide
  · rintro ⟨equal, bits⟩
    rw [equal, bits]

end Tollgate.Dns
