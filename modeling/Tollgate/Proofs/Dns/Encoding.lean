import Tollgate.Model.Dns.Wire
import Tollgate.ToMathlib.Embedded
import Tollgate.ToMathlib.PrefixCode

/-! # Reading encoded messages

The fields of a message have fixed widths and its names and records can be read from the front, so
the bytes of a message determine it. Reads by offset are related to the encodings they find: a
two-byte read finds exactly the encoding of its result.
-/

namespace Tollgate.Dns

open List PrefixCode

@[simp] theorem length_be16 (value : UInt16) : (be16 value).length = 2 := by simp [be16]

@[simp] theorem length_be32 (value : UInt32) : (be32 value).length = 4 := by simp [be32]

theorem be16_injective : Function.Injective be16 := by
  intro left right same
  have decoded := congrArg Endian.ofBe same
  rw [be16, be16, Endian.ofBe_beBytes_of_lt left.toNat_lt, Endian.ofBe_beBytes_of_lt right.toNat_lt] at decoded
  exact UInt16.toNat_inj.mp decoded

theorem ofBe_be32 (value : UInt32) : Endian.ofBe (be32 value) = value.toNat :=
  Endian.ofBe_beBytes_of_lt value.toNat_lt

theorem be32_injective : Function.Injective be32 := by
  intro left right same
  have decoded := congrArg Endian.ofBe same
  rw [ofBe_be32, ofBe_be32] at decoded
  exact UInt32.toNat_inj.mp decoded

theorem be16_fromBe16 (high low : UInt8) : be16 (fromBe16 high low) = [high, low] := by
  have bound := Endian.ofBe_lt [high, low]
  rw [length_cons, length_singleton] at bound
  rw [be16, fromBe16, UInt16.toNat_ofNat_of_lt' bound]
  exact Endian.beBytes_ofBe [high, low]

theorem be32_ofBe {field : Bytes} (width : field.length = 4) : be32 (UInt32.ofNat (Endian.ofBe field)) = field := by
  have bound := Endian.ofBe_lt field
  rw [width] at bound
  rw [be32, UInt32.toNat_ofNat_of_lt' bound, ← width]
  exact Endian.beBytes_ofBe field

/-- A two-byte read finds exactly the encoding of its result. -/
theorem u16At_eq_some_iff {msg : Bytes} {start : ℕ} {value : UInt16} :
    u16At msg start = some value ↔ HasAt msg start (be16 value) := by
  have pair {high low : UInt8} : HasAt msg start [high, low] ↔ msg[start]? = some high ∧ msg[start + 1]? = some low := by
    rw [hasAt_cons_iff, hasAt_singleton_iff]
  constructor
  · intro read
    simp only [u16At, Option.bind_eq_bind, Option.bind_eq_some_iff, Option.some.injEq] at read
    obtain ⟨high, first, low, second, rfl⟩ := read
    rw [be16_fromBe16]
    exact pair.mpr ⟨first, second⟩
  · intro here
    obtain ⟨high, low, bytes⟩ := List.length_eq_two.mp (length_be16 value)
    rw [bytes] at here
    obtain ⟨first, second⟩ := pair.mp here
    have equal : fromBe16 high low = value := be16_injective (by rw [be16_fromBe16, bytes])
    simp [u16At, first, second, equal]

/-- Writing over a part of the same length replaces it. -/
theorem writeAt_middle {before old new after : Bytes} {start : ℕ} (place : before.length = start)
    (length : old.length = new.length) :
    writeAt (before ++ (old ++ after)) start new = some (before ++ (new ++ after)) := by
  subst place
  rw [writeAt, if_pos (by simp only [length_append]; omega), take_left, ← drop_drop, drop_left, ← length, drop_left,
    append_assoc]

/-- A patch changes the bytes it covers and no others. -/
theorem getElem?_of_writeAt {msg patch out : Bytes} {start : ℕ} (written : writeAt msg start patch = some out) :
    out.length = msg.length ∧
      ∀ i, out[i]? = if start ≤ i ∧ i < start + patch.length then patch[i - start]? else msg[i]? := by
  obtain ⟨room, built⟩ := Option.ite_none_right_eq_some.mp written
  obtain rfl := Option.some.inj built
  have before : (msg.take start).length = start := length_take_of_le (by omega)
  refine ⟨?_, fun i => ?_⟩
  · simp only [length_append, before, length_drop]
    omega
  · rw [append_assoc]
    rcases Nat.lt_or_ge i start with left | right
    · rw [getElem?_append_left (by omega), if_neg (by omega), getElem?_take_of_lt left]
    · rw [getElem?_append_right (by omega), before]
      rcases Nat.lt_or_ge i (start + patch.length) with inner | outer
      · rw [getElem?_append_left (by omega), if_pos ⟨right, inner⟩]
      · rw [getElem?_append_right (by omega), if_neg (by omega), getElem?_drop]
        congr 1
        omega

/-- A patch keeps every byte outside of it. -/
theorem getElem?_of_writeAt_outside {msg patch out : Bytes} {start i : ℕ} (written : writeAt msg start patch = some out)
    (outside : i < start ∨ start + patch.length ≤ i) : out[i]? = msg[i]? := by
  rw [(getElem?_of_writeAt written).2, if_neg (by omega)]

theorem readable_be16 : Readable be16 := .of_width be16_injective length_be16

theorem readable_be32 : Readable be32 := .of_width be32_injective length_be32

theorem toNat_labelLen (label : Label) : (UInt8.ofNat label.bytes.length).toNat = label.bytes.length := by
  have short := label.short
  rw [UInt8.toNat_ofNat']
  omega

@[ext] theorem Label.ext {left right : Label} (same : left.bytes = right.bytes) : left = right := by
  cases left
  cases right
  cases same
  rfl

theorem readable_label : Readable Label.encode := by
  intro x y rest other same
  simp only [Label.encode, cons_append, cons.injEq] at same
  have length := congrArg UInt8.toNat same.1
  rw [toNat_labelLen, toNat_labelLen] at length
  obtain ⟨bytes, ends⟩ := append_inj same.2 length
  exact ⟨Label.ext bytes, ends⟩

/-- The first byte of a label is its length, which is neither zero nor marked as a pointer. -/
theorem ofNat_labelLen_ne_zero (label : Label) : UInt8.ofNat label.bytes.length ≠ 0 := by
  intro zero
  have length := toNat_labelLen label
  rw [zero] at length
  exact label.nonempty (length_eq_zero_iff.mp length.symm)

theorem and_c0_eq_zero_iff (byte : UInt8) : byte &&& 0xc0 = 0 ↔ byte.toNat < 64 := by
  have all : ∀ n : Fin 256, UInt8.ofFin n &&& 0xc0 = 0 ↔ n.val < 64 := by decide +kernel
  exact all byte.toFin

theorem labelLen_unmarked (label : Label) : UInt8.ofNat label.bytes.length &&& 0xc0 = 0 := by
  rw [and_c0_eq_zero_iff, toNat_labelLen]
  exact label.short

/-- The end of a name starts with a byte that starts no label. -/
theorem NameEnd.exists_head (stop : NameEnd) : ∃ head tail, stop.encode = head :: tail ∧ (head = 0 ∨ head &&& 0xc0 = 0xc0) := by
  cases stop with
  | root => exact ⟨0, [], rfl, .inl rfl⟩
  | pointer high low marked => exact ⟨high, [low], rfl, .inr marked⟩

theorem label_ne_end {label : Label} {stop : NameEnd} {rest other : Bytes} :
    label.encode ++ rest ≠ stop.encode ++ other := by
  intro same
  obtain ⟨head, tail, bytes, starts⟩ := stop.exists_head
  rw [bytes, Label.encode, cons_append, cons_append, cons.injEq] at same
  rcases starts with rfl | marked
  · exact ofNat_labelLen_ne_zero label same.1
  · rw [← same.1, labelLen_unmarked] at marked
    contradiction

theorem readable_nameEnd : Readable NameEnd.encode := by
  intro x y rest other same
  cases x with
  | root =>
    cases y with
    | root => exact ⟨rfl, (cons.inj same).2⟩
    | pointer high low marked =>
      rw [← (cons.inj same).1] at marked
      contradiction
  | pointer high low marked =>
    cases y with
    | root =>
      rw [(cons.inj same).1] at marked
      contradiction
    | pointer high' low' marked' =>
      obtain ⟨rfl, tail⟩ := cons.inj same
      obtain ⟨rfl, ends⟩ := cons.inj tail
      exact ⟨rfl, ends⟩

/-- Labels are told from the end that follows them by their first byte. -/
theorem readable_labels {xs ys : List Label} {stop other : NameEnd} {rest tail : Bytes}
    (same : encodeLabels xs ++ (stop.encode ++ rest) = encodeLabels ys ++ (other.encode ++ tail)) :
    xs = ys ∧ stop = other ∧ rest = tail := by
  induction xs generalizing ys with
  | nil =>
    cases ys with
    | nil =>
      obtain ⟨rfl, rfl⟩ := readable_nameEnd same
      exact ⟨rfl, rfl, rfl⟩
    | cons y ys =>
      rw [encodeLabels, encodeLabels, flatMap_cons, append_assoc] at same
      exact absurd same.symm label_ne_end
  | cons x xs ih =>
    cases ys with
    | nil =>
      rw [encodeLabels, encodeLabels, flatMap_cons, append_assoc] at same
      exact absurd same label_ne_end
    | cons y ys =>
      rw [encodeLabels, encodeLabels, flatMap_cons, flatMap_cons, append_assoc, append_assoc] at same
      obtain ⟨rfl, later⟩ := readable_label same
      obtain ⟨rfl, rfl, rfl⟩ := ih later
      exact ⟨rfl, rfl, rfl⟩

theorem readable_name : Readable Name.encode := by
  rintro ⟨labels, stop, short⟩ ⟨labels', stop', short'⟩ rest other same
  simp only [Name.encode, append_assoc] at same
  obtain ⟨rfl, rfl, ends⟩ := readable_labels same
  exact ⟨rfl, ends⟩

theorem readable_question : Readable Question.encode := by
  rintro ⟨labels, short, qtype, qclass⟩ ⟨labels', short', qtype', qclass'⟩ rest other same
  simp only [Question.encode, append_assoc] at same
  obtain ⟨name, types⟩ := readable_name same
  obtain ⟨rfl, classes⟩ := readable_be16 types
  obtain ⟨rfl, ends⟩ := readable_be16 classes
  obtain rfl : labels = labels' := congrArg Name.labels name
  exact ⟨rfl, ends⟩

theorem toNat_dataLen {data : Bytes} (fits : data.length < 2 ^ 16) : (UInt16.ofNat data.length).toNat = data.length :=
  UInt16.toNat_ofNat_of_lt' fits

theorem readable_record : Readable Record.encode := by
  rintro ⟨owner, rtype, rclass, ttl, data, fits⟩ ⟨owner', rtype', rclass', ttl', data', fits'⟩ rest other same
  simp only [Record.encode, append_assoc] at same
  obtain ⟨rfl, types⟩ := readable_name same
  obtain ⟨rfl, classes⟩ := readable_be16 types
  obtain ⟨rfl, ttls⟩ := readable_be16 classes
  obtain ⟨rfl, lengths⟩ := readable_be32 ttls
  obtain ⟨length, contents⟩ := readable_be16 lengths
  have same := congrArg UInt16.toNat length
  rw [toNat_dataLen fits, toNat_dataLen fits'] at same
  obtain ⟨rfl, ends⟩ := append_inj contents same
  exact ⟨rfl, ends⟩

theorem readable_message : Readable Message.encode := by
  rintro ⟨id, flags, codes, question, answers, authorities, additionals, few⟩
    ⟨id', flags', codes', question', answers', authorities', additionals', few'⟩ rest other same
  simp only [Message.encode, Message.header, Message.records, append_assoc, flatMap_append] at same
  obtain ⟨rfl, bits⟩ := readable_be16 same
  obtain ⟨bytes, counts⟩ := append_inj bits rfl
  obtain ⟨rfl, tail⟩ := cons.inj bytes
  obtain ⟨rfl, -⟩ := cons.inj tail
  obtain ⟨-, first⟩ := readable_be16 counts
  obtain ⟨count, second⟩ := readable_be16 first
  obtain ⟨count', third⟩ := readable_be16 second
  obtain ⟨count'', body⟩ := readable_be16 third
  obtain ⟨rfl, sections⟩ := readable_question body
  have lengths {xs ys : List Record} (fits : xs.length < 2 ^ 16) (fits' : ys.length < 2 ^ 16)
      (equal : UInt16.ofNat xs.length = UInt16.ofNat ys.length) : xs.length = ys.length := by
    have same := congrArg UInt16.toNat equal
    rwa [UInt16.toNat_ofNat_of_lt' fits, UInt16.toNat_ofNat_of_lt' fits'] at same
  obtain ⟨rfl, afterAnswers⟩ := readable_record.flatMap (lengths few.1 few'.1 count) sections
  obtain ⟨rfl, afterAuthorities⟩ := readable_record.flatMap (lengths few.2.1 few'.2.1 count') afterAnswers
  obtain ⟨rfl, ends⟩ := readable_record.flatMap (lengths few.2.2 few'.2.2 count'') afterAuthorities
  exact ⟨rfl, ends⟩

end Tollgate.Dns
