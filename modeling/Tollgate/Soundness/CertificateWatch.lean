import Tollgate.Proofs.Mitm.Flight
import Tollgate.Proofs.Mitm.ServerHello

/-! # When the certificate counts as sent

However the bytes to the client are split into writes, the watch ends as if they were written at once. It
says that the certificate was sent at the last byte of a record, and only in two cases: after a `ServerHello`
of a full TLS 1.3 handshake it is the first encrypted record, and after one of TLS 1.2 it is the record that
completes the `Certificate` message. The handshake bytes so far are always messages that were parsed and a
rest that holds no complete message.
-/

namespace Tollgate.Mitm

open List

/-- Messages at the front of the handshake bytes, and the progress they make. -/
inductive Opens : Progress → Bytes → Prop where
  | start : Opens .hello []
  | next {progress : Progress} {done : Bytes} (opens : Opens progress done) (parses : progress.parses = true)
      (handshake : Handshake) : Opens (message progress handshake.kind handshake.body) (done ++ handshake.encode)

/-- No complete message is at the front. -/
def Incomplete (bytes : Bytes) : Prop := ∀ (handshake : Handshake) (rest : Bytes), bytes ≠ handshake.encode ++ rest

theorem incomplete_of_short {bytes : Bytes} (short : bytes.length < 4) : Incomplete bytes := by
  rintro handshake rest rfl
  rw [length_append, Handshake.encode, length_append] at short
  simp only [length_cons, length_nil] at short
  omega

/-- A complete message at the front of the bytes. -/
theorem cut_message {kind a b c : UInt8} {tail : Bytes} (whole : Endian.ofBe [a, b, c] ≤ tail.length) :
    ∃ handshake : Handshake, handshake.kind = kind ∧ handshake.body = tail.take (Endian.ofBe [a, b, c]) ∧
      kind :: a :: b :: c :: tail = handshake.encode ++ tail.drop (Endian.ofBe [a, b, c]) := by
  refine ⟨⟨kind, a, b, c, tail.take (Endian.ofBe [a, b, c]), by rw [length_take]; omega⟩, rfl, rfl, ?_⟩
  rw [Handshake.encode, append_assoc, take_append_drop]
  rfl

theorem incomplete_of_long {kind a b c : UInt8} {tail : Bytes} (long : tail.length < Endian.ofBe [a, b, c]) :
    Incomplete (kind :: a :: b :: c :: tail) := by
  rintro ⟨kind', a', b', c', body, sized⟩ rest same
  obtain ⟨rfl, rfl, rfl, rfl, rfl⟩ : kind = kind' ∧ a = a' ∧ b = b' ∧ c = c' ∧ tail = body ++ rest := by
    simpa [Handshake.encode] using same
  rw [length_append] at long
  omega

/-- What parsing messages does to the bytes it is given. -/
theorem messages_spec {fuel : ℕ} {progress : Progress} {rest done : Bytes} (enough : rest.length ≤ fuel)
    (parses : progress.parses = true) (opens : Opens progress done) :
    (∃ later left used, messages fuel progress rest = (later, some left) ∧ later.parses = true ∧ Incomplete left ∧
      rest = used ++ left ∧ Opens later (done ++ used)) ∨
    ∃ later handshake used left, messages fuel progress rest = (later, none) ∧ later.parses = false ∧
      rest = Handshake.encode handshake ++ used ++ left ∧ Opens later (done ++ (handshake.encode ++ used)) := by
  induction fuel generalizing progress rest done with
  | zero =>
    obtain rfl := length_eq_zero_iff.mp (Nat.le_zero.mp enough)
    exact .inl ⟨progress, [], [], rfl, parses, incomplete_of_short (by decide), rfl, by rwa [append_nil]⟩
  | succ fuel ih =>
    have stops : messages (fuel + 1) progress rest = (progress, some rest) → Incomplete rest →
        ∃ later left used, messages (fuel + 1) progress rest = (later, some left) ∧ later.parses = true ∧
          Incomplete left ∧ rest = used ++ left ∧ Opens later (done ++ used) := by
      intro same incomplete
      exact ⟨progress, rest, [], same, parses, incomplete, rfl, by rwa [append_nil]⟩
    match rest with
    | [] => exact .inl (stops rfl (incomplete_of_short (by simp)))
    | [_] => exact .inl (stops rfl (incomplete_of_short (by simp)))
    | [_, _] => exact .inl (stops rfl (incomplete_of_short (by simp)))
    | [_, _, _] => exact .inl (stops rfl (incomplete_of_short (by simp)))
    | kind :: a :: b :: c :: tail =>
      by_cases whole : Endian.ofBe [a, b, c] ≤ tail.length
      · obtain ⟨handshake, isKind, isBody, split⟩ := @cut_message kind a b c tail whole
        have opened := opens.next parses handshake
        rw [isKind, isBody] at opened
        have unfolded : messages (fuel + 1) progress (kind :: a :: b :: c :: tail) =
            if (message progress kind (tail.take (Endian.ofBe [a, b, c]))).parses then
              messages fuel (message progress kind (tail.take (Endian.ofBe [a, b, c]))) (tail.drop (Endian.ofBe [a, b, c]))
            else (message progress kind (tail.take (Endian.ofBe [a, b, c])), none) := if_pos whole
        cases goes : (message progress kind (tail.take (Endian.ofBe [a, b, c]))).parses with
        | false =>
          rw [goes, if_neg Bool.false_ne_true] at unfolded
          refine .inr ⟨_, handshake, [], tail.drop (Endian.ofBe [a, b, c]), unfolded, goes, ?_, ?_⟩
          · rw [append_nil]
            exact split
          · rwa [append_nil]
        | true =>
          rw [goes, if_pos rfl] at unfolded
          have shorter : (tail.drop (Endian.ofBe [a, b, c])).length ≤ fuel := by
            rw [length_drop]
            simp only [length_cons] at enough
            omega
          rw [unfolded, split]
          rcases ih shorter goes opened with ⟨later, left, used, same, still, incomplete, rest, opens⟩ |
            ⟨later, last, used, left, same, ends, rest, opens⟩
          · refine .inl ⟨later, left, handshake.encode ++ used, same, still, incomplete, ?_, ?_⟩
            · rw [rest, append_assoc]
            · rwa [← append_assoc]
          · refine .inr ⟨later, handshake, last.encode ++ used, left, same, ends, ?_, ?_⟩
            · rw [rest, append_assoc, append_assoc, append_assoc]
            · rwa [← append_assoc]
      · exact .inl (stops (if_neg whole) (incomplete_of_long (by omega)))

namespace Records

variable {records : Records}

/-- A whole record is written after the end of another. -/
def took (records : Records) (record : Record) : Records :=
  { records with
    header := record.header
    remaining := 0
    handshake :=
      if record.contentType = ContentType.handshake ∧ records.progress.parses then records.handshake ++ record.payload
      else records.handshake }.recordWritten

/-- The bytes of a record do what the record does. -/
theorem foldl_encode (on : records.watching = true) (ended : records.header = []) (record : Record) :
    record.encode.foldl stepByte records = records.took record := by
  have header : record.header.foldl stepByte records =
      { records with header := record.header, remaining := record.payload.length }.settle := by
    have nonempty : record.header ≠ [] := cons_ne_nil _ _
    have full : records.header.length + record.header.length = 5 := by
      rw [ended]
      rfl
    rw [foldl_header_end on nonempty full, ended, record.sized]
    rfl
  rw [Record.encode, foldl_append, header]
  by_cases empty : record.payload = []
  · rw [empty, foldl_nil]
    unfold took
    rw [empty, append_nil, ite_self]
    rfl
  · have some_ : record.payload.length ≠ 0 := fun none => empty (length_eq_zero_iff.mp none)
    have settled : settle { records with header := record.header, remaining := record.payload.length } =
        { records with header := record.header, remaining := record.payload.length } := if_neg some_
    have payload := @foldl_payload_end { records with header := record.header, remaining := record.payload.length }
      record.payload on rfl empty (le_refl _)
    dsimp only at payload
    rw [Nat.sub_self] at payload
    rw [settled, payload]
    rfl

/-- What a whole record can do. -/
theorem took_cases (records : Records) (record : Record) :
    (records.progress.parses = true ∧ record.contentType = .handshake ∧ records.took record =
      handshakeMessages ⟨records.progress, [], 0, records.handshake ++ record.payload⟩) ∨
    (record.contentType = .changeCipherSpec ∧ records.took record = ⟨records.progress, [], 0, records.handshake⟩) ∨
    (record.contentType = .applicationData ∧ records.progress = .tls13 ∧
      (records.took record).progress = .certificateSent) ∨
    (records.took record).progress = .noCertificate := by
  have feeds : ∀ {progress : Progress}, record.contentType = .handshake → records.progress = progress →
      progress.parses = true → records.progress.parses = true ∧ record.contentType = .handshake ∧
        handshakeMessages ⟨records.progress, [], 0,
          if record.contentType = .handshake ∧ records.progress.parses then records.handshake ++ record.payload
          else records.handshake⟩ =
        handshakeMessages ⟨records.progress, [], 0, records.handshake ++ record.payload⟩ := by
    rintro progress kind rfl parses
    exact ⟨parses, kind, by rw [if_pos ⟨kind, parses⟩]⟩
  have keeps : record.contentType = .changeCipherSpec →
      (if record.contentType = .handshake ∧ records.progress.parses then records.handshake ++ record.payload
      else records.handshake) = records.handshake := by
    intro kind
    rw [kind, if_neg fun both => nomatch both.1]
  unfold took recordWritten
  dsimp only
  split
  · next kind progress => exact .inl (feeds kind progress rfl)
  · next kind progress => exact .inl (feeds kind progress rfl)
  · next kind progress => exact .inr (.inl ⟨kind, congrArg (Records.mk _ _ _) (keeps kind)⟩)
  · next kind progress => exact .inr (.inl ⟨kind, congrArg (Records.mk _ _ _) (keeps kind)⟩)
  · next kind progress => exact .inr (.inr (.inl ⟨kind, progress, rfl⟩))
  · exact .inr (.inr (.inr rfl))

end Records

theorem handshakeBytes_concat (seen : List Record) {record : Record} (kind : record.contentType = .handshake) :
    Record.handshakeBytes (seen ++ [record]) = Record.handshakeBytes seen ++ record.payload := by
  simp [Record.handshakeBytes, filter_append, kind]

theorem handshakeBytes_concat_of_ne (seen : List Record) {record : Record} (kind : record.contentType ≠ .handshake) :
    Record.handshakeBytes (seen ++ [record]) = Record.handshakeBytes seen := by
  simp [Record.handshakeBytes, filter_append, kind]

/-- A record completes messages that the handshake bytes begin with. -/
def Completes (seen : List Record) (record : Record) (opening : Bytes) : Prop :=
  record.contentType = .handshake ∧ opening <+: Record.handshakeBytes (seen ++ [record]) ∧
    ¬opening <+: Record.handshakeBytes seen

/-- A record completed messages, and only `ChangeCipherSpec` records followed. -/
def Completed (seen : List Record) (opening : Bytes) : Prop :=
  ∃ before record after, seen = before ++ record :: after ∧ Completes before record opening ∧
    ∀ later ∈ after, later.contentType = .changeCipherSpec

/-- What the records so far say, while they are watched. -/
def Told (seen : List Record) (records : Records) : Prop :=
  (records.progress.parses = true → ∃ done, Record.handshakeBytes seen = done ++ records.handshake ∧
    Opens records.progress done ∧ Incomplete records.handshake) ∧
  (records.progress = .tls13 → ∃ opening, Opens .tls13 opening ∧ Completed seen opening)

/-- What the records so far and the next one say when the certificate is sent. -/
def Sent (seen : List Record) (record : Record) : Prop :=
  (record.contentType = .applicationData ∧ ∃ opening, Opens .tls13 opening ∧ Completed seen opening) ∨
    ∃ opening, Opens .certificateSent opening ∧ Completes seen record opening

theorem told_new : Told [] .new := by
  refine ⟨fun _ => ⟨[], rfl, .start, incomplete_of_short (by decide)⟩, nofun⟩

/-- A record with handshake bytes. -/
theorem Told.handshake {seen : List Record} {records : Records} (told : Told seen records)
    (parses : records.progress.parses = true) {record : Record} (kind : record.contentType = .handshake)
    {next : Records}
    (same : next = Records.handshakeMessages ⟨records.progress, [], 0, records.handshake ++ record.payload⟩) :
    Told (seen ++ [record]) next ∧ (next.progress = .certificateSent → Sent seen record) := by
  obtain ⟨done, bytes, opens, incomplete⟩ := told.1 parses
  have more : Record.handshakeBytes (seen ++ [record]) = done ++ (records.handshake ++ record.payload) := by
    rw [handshakeBytes_concat seen kind, bytes, append_assoc]
  unfold Records.handshakeMessages at same
  dsimp only at same
  rcases messages_spec (le_refl _) parses opens with ⟨later, left, used, result, still, rest, split, opened⟩ |
    ⟨later, first, used, left, result, ends, split, opened⟩
  · rw [result] at same
    dsimp only at same
    split at same
    · subst same
      exact ⟨⟨nofun, nofun⟩, nofun⟩
    · subst same
      refine ⟨⟨fun _ => ⟨done ++ used, ?_, opened, rest⟩, ?_⟩, ?_⟩
      · rw [more, split, append_assoc]
      · rintro rfl
        cases still
      · rintro rfl
        cases still
  · rw [result] at same
    subst same
    have completes : Completes seen record (done ++ (first.encode ++ used)) := by
      refine ⟨kind, ?_, ?_⟩
      · rw [more, split]
        exact ⟨left, by simp only [append_assoc]⟩
      · rw [bytes, prefix_append_right_inj]
        rintro ⟨tail, whole⟩
        exact incomplete first (used ++ tail) (by rw [← whole, append_assoc])
    refine ⟨⟨fun parses => absurd (parses.symm.trans ends) nofun, ?_⟩, ?_⟩
    · rintro rfl
      exact ⟨_, opened, seen, record, [], rfl, completes, nofun⟩
    · rintro rfl
      exact .inr ⟨_, opened, completes⟩

/-- One record. -/
theorem Told.step {seen : List Record} {records : Records} (told : Told seen records)
    (on : records.watching = true) (record : Record) :
    Told (seen ++ [record]) (records.took record) ∧
      ((records.took record).progress = .certificateSent → Sent seen record) := by
  rcases records.took_cases record with ⟨parses, kind, same⟩ | ⟨kind, same⟩ | ⟨kind, tls13, sent⟩ | finished
  · exact told.handshake parses kind same
  · rw [same]
    refine ⟨⟨fun parses => ?_, fun tls13 => ?_⟩, fun sent => ?_⟩
    · rw [handshakeBytes_concat_of_ne seen (by rw [kind]; nofun)]
      exact told.1 parses
    · obtain ⟨opening, opens, before, completing, after, rfl, completes, only⟩ := told.2 tls13
      refine ⟨opening, opens, before, completing, after ++ [record], by simp, completes, ?_⟩
      intro later member
      rcases mem_append.mp member with old | new
      · exact only later old
      · rwa [mem_singleton.mp new]
    · have finished : Progress.certificateSent.watching = true := sent ▸ on
      cases finished
  · refine ⟨⟨fun parses => ?_, fun tls13 => ?_⟩, fun _ => .inl ⟨kind, told.2 tls13⟩⟩
    · rw [sent] at parses
      cases parses
    · rw [sent] at tls13
      cases tls13
  · refine ⟨⟨fun parses => ?_, fun tls13 => ?_⟩, fun sent => ?_⟩
    · rw [finished] at parses
      cases parses
    · rw [finished] at tls13
      cases tls13
    · exact absurd (finished.symm.trans sent) nofun

/-- The first record of the bytes, if it is complete. -/
theorem cut_record (bytes : Bytes) :
    bytes.length < 5 ∨
      (∃ kind major minor high low tail, bytes = kind :: major :: minor :: high :: low :: tail ∧
        tail.length < Endian.ofBe [high, low]) ∨
      ∃ (record : Record) (rest : Bytes), bytes = record.encode ++ rest := by
  match bytes with
  | [] | [_] | [_, _] | [_, _, _] | [_, _, _, _] => exact .inl (by simp)
  | kind :: major :: minor :: high :: low :: tail =>
    by_cases whole : Endian.ofBe [high, low] ≤ tail.length
    · refine .inr (.inr ⟨⟨kind, major, minor, high, low, tail.take (Endian.ofBe [high, low]), ?_⟩,
        tail.drop (Endian.ofBe [high, low]), ?_⟩)
      · rw [length_take]
        omega
      · rw [Record.encode, append_assoc, take_append_drop]
        rfl
    · exact .inr (.inl ⟨kind, major, minor, high, low, tail, rfl, by omega⟩)

/-- Bytes that are no complete record make no progress. -/
theorem progress_of_part {records : Records} (on : records.watching = true) (ended : records.header = []) {bytes : Bytes}
    (part : bytes.length < 5 ∨ ∃ kind major minor high low tail,
      bytes = kind :: major :: minor :: high :: low :: tail ∧ tail.length < Endian.ofBe [high, low]) :
    (bytes.foldl Records.stepByte records).progress = records.progress := by
  rcases part with short | ⟨kind, major, minor, high, low, tail, rfl, short⟩
  · rw [Records.foldl_header on (by rw [ended]; simpa using short)]
  · have header : [kind, major, minor, high, low].foldl Records.stepByte records =
        { records with header := [kind, major, minor, high, low], remaining := Endian.ofBe [high, low] } := by
      rw [Records.foldl_header_end on (cons_ne_nil _ _) (by rw [ended]; rfl), ended]
      exact if_neg (by change Endian.ofBe [high, low] ≠ 0; omega)
    have split : kind :: major :: minor :: high :: low :: tail = [kind, major, minor, high, low] ++ tail := rfl
    have payload := @Records.foldl_payload
      { records with header := [kind, major, minor, high, low], remaining := Endian.ofBe [high, low] } tail on rfl short
    rw [split, foldl_append, header, payload]

/-- The byte at which the certificate is sent ends a record. -/
theorem reached_at_record_end {seen : List Record} {records : Records} (told : Told seen records)
    (on : records.watching = true) (ended : records.header = []) {front : Bytes} {b : UInt8}
    (before : (front.foldl Records.stepByte records).progress ≠ .certificateSent)
    (reached : ((front ++ [b]).foldl Records.stepByte records).progress = .certificateSent) :
    ∃ more record, front ++ [b] = (more ++ [record]).flatMap Record.encode ∧ Sent (seen ++ more) record := by
  induction length : front.length using Nat.strong_induction_on generalizing front records seen with
  | _ n ih =>
    have watched : records.progress ≠ .certificateSent := by
      intro sent
      have finished : Progress.certificateSent.watching = true := sent ▸ on
      cases finished
    rcases or_assoc.mpr (cut_record (front ++ [b])) with part | ⟨record, rest, split⟩
    · exact absurd ((progress_of_part on ended part).symm.trans reached) watched
    · have step := told.step on record
      rw [split, foldl_append, Records.foldl_encode on ended] at reached
      rcases eq_nil_or_concat' rest with rfl | ⟨later, last, rfl⟩
      · refine ⟨[], record, ?_, ?_⟩
        · rw [split]
          simp
        · rw [append_nil]
          exact step.2 reached
      · obtain ⟨rfl, same⟩ : front = record.encode ++ later ∧ [b] = [last] := by
          apply append_inj'
          · rw [split, append_assoc]
          · rfl
        rw [foldl_append, Records.foldl_encode on ended] at before
        cases still : (records.took record).watching with
        | false =>
          rw [Records.foldl_of_over still] at before reached
          exact absurd reached before
        | true =>
          have shorter : later.length < n := by
            rw [← length, length_append, Record.encode, length_append, Record.header]
            simp only [length_cons]
            omega
          rw [← same] at reached
          obtain ⟨more, final, rest, sent⟩ :=
            ih later.length shorter step.1 still (Records.recordWritten_header _) before reached rfl
          refine ⟨record :: more, final, ?_, ?_⟩
          · rw [append_assoc, rest, cons_append, flatMap_cons]
          · rwa [append_assoc] at sent

/-- The progress of the first message: it asks to try again, or it is a `ServerHello` that can be read. -/
theorem message_hello {handshake : Handshake} {later : Progress}
    (made : message .hello handshake.kind handshake.body = later) (useful : later ≠ .noCertificate) :
    (handshake.IsRetry ∧ later = .hello) ∨ ∃ hello, handshake.IsHello hello ∧ later = hello.starts := by
  unfold message at made
  dsimp only at made
  split at made
  · next kind =>
    unfold serverHello at made
    cases read : readServerHello handshake.body with
    | none =>
      rw [read] at made
      exact absurd made.symm useful
    | some progress =>
      rw [read, Option.getD_some] at made
      rcases of_readServerHello read with ⟨retry, same⟩ | ⟨hello, reads, new, same⟩
      · exact .inl ⟨⟨kind, retry⟩, made.symm.trans same⟩
      · exact .inr ⟨hello, ⟨kind, reads, new⟩, made.symm.trans same⟩
  · exact absurd made.symm useful

/-- Some messages that ask to try again, in order. -/
def Retries (retries : List Handshake) : Prop := ∀ retry ∈ retries, retry.IsRetry

theorem opens_hello {done : Bytes} (opens : Opens .hello done) :
    ∃ retries, Retries retries ∧ done = retries.flatMap Handshake.encode := by
  generalize made : Progress.hello = later at opens
  induction opens with
  | start => exact ⟨[], nofun, rfl⟩
  | @next progress done opens parses handshake ih =>
    cases progress with
    | hello =>
      obtain ⟨retries, all, same⟩ := ih rfl
      rcases message_hello made.symm nofun with ⟨retry, -⟩ | ⟨hello, -, starts⟩
      · refine ⟨retries ++ [handshake], ?_, by simp [same]⟩
        intro other member
        rcases mem_append.mp member with old | new
        · exact all other old
        · rwa [mem_singleton.mp new]
      · exact absurd starts.symm hello.starts_ne_hello
    | tls12 =>
      unfold message at made
      dsimp only at made
      split at made <;> cases made
    | _ => cases parses

/-- After the messages that ask to try again comes a `ServerHello`. -/
theorem opens_started {later : Progress} {done : Bytes} (opens : Opens later done)
    (started : later = .tls13 ∨ later = .tls12) :
    ∃ (retries : List Handshake) (handshake : Handshake) (hello : ServerHello), Retries retries ∧
      handshake.IsHello hello ∧ later = hello.starts ∧
      done = retries.flatMap Handshake.encode ++ handshake.encode := by
  cases opens with
  | start => rcases started with same | same <;> cases same
  | @next progress done opens parses handshake =>
    cases progress with
    | hello =>
      obtain ⟨retries, all, rfl⟩ := opens_hello opens
      have useful : message .hello handshake.kind handshake.body ≠ .noCertificate := by
        intro finished
        rw [finished] at started
        rcases started with same | same <;> cases same
      rcases message_hello rfl useful with ⟨-, same⟩ | ⟨hello, isHello, starts⟩
      · rw [same] at started
        rcases started with same | same <;> cases same
      · exact ⟨retries, handshake, hello, all, isHello, starts, rfl⟩
    | tls12 =>
      unfold message at started
      dsimp only at started
      split at started <;> rcases started with same | same <;> cases same
    | _ => cases parses

theorem opens_sent {done : Bytes} (opens : Opens .certificateSent done) :
    ∃ first certificate, Opens .tls12 first ∧ Handshake.IsCertificate certificate ∧
      done = first ++ certificate.encode := by
  generalize made : Progress.certificateSent = later at opens
  cases opens with
  | start => cases made
  | @next progress done opens parses handshake =>
    cases progress with
    | hello =>
      rcases message_hello made.symm nofun with ⟨-, same⟩ | ⟨hello, -, starts⟩
      · cases same
      · exact absurd starts.symm hello.starts_ne_certificateSent
    | tls12 =>
      unfold message at made
      dsimp only at made
      split at made
      · next kind => exact ⟨done, handshake, opens, kind, rfl⟩
      · cases made
    | _ => cases parses

/-- The handshake bytes begin with messages that ask to try again and a `ServerHello` of a full TLS 1.3
handshake. After the record that completed it came only `ChangeCipherSpec` records, and then this one. -/
def SentTls13 (seen : List Record) (record : Record) : Prop :=
  record.contentType = .applicationData ∧
    ∃ (retries : List Handshake) (handshake : Handshake) (hello : ServerHello), Retries retries ∧
      handshake.IsHello hello ∧ hello.SelectsTls13 ∧ ¬hello.HasPreSharedKey ∧ Completed seen (retries.flatMap Handshake.encode ++ handshake.encode)

/-- With this record the handshake bytes begin with messages that ask to try again, a `ServerHello` that does
not select TLS 1.3, and a `Certificate` message, which this record completes. -/
def SentTls12 (seen : List Record) (record : Record) : Prop :=
  ∃ (retries : List Handshake) (handshake : Handshake) (hello : ServerHello) (certificate : Handshake),
    Retries retries ∧ handshake.IsHello hello ∧ ¬hello.SelectsTls13 ∧ certificate.IsCertificate ∧
    Completes seen record (retries.flatMap Handshake.encode ++ handshake.encode ++ certificate.encode)

theorem Sent.read {seen : List Record} {record : Record} (sent : Sent seen record) :
    SentTls13 seen record ∨ SentTls12 seen record := by
  rcases sent with ⟨kind, opening, opens, completed⟩ | ⟨opening, opens, completes⟩
  · obtain ⟨retries, handshake, hello, all, isHello, starts, rfl⟩ := opens_started opens (.inl rfl)
    obtain ⟨selects, plain⟩ := ServerHello.starts_tls13 starts.symm
    exact .inl ⟨kind, retries, handshake, hello, all, isHello, selects, plain, completed⟩
  · obtain ⟨first, certificate, opened, isCertificate, rfl⟩ := opens_sent opens
    obtain ⟨retries, handshake, hello, all, isHello, starts, rfl⟩ := opens_started opened (.inr rfl)
    have older := ServerHello.starts_tls12 starts.symm
    exact .inr ⟨retries, handshake, hello, certificate, all, isHello, older, isCertificate, completes⟩

open Records in
/-- The byte of a stream at which the certificate is sent. -/
theorem exists_reached {stream : Bytes} (sent : (afterBytes stream).progress = .certificateSent) :
    ∃ front b rest, stream = front ++ [b] ++ rest ∧ (afterBytes front).progress ≠ .certificateSent ∧
      (afterBytes (front ++ [b])).progress = .certificateSent := by
  induction stream using List.reverseRecOn with
  | nil => cases sent
  | append_singleton front b ih =>
    by_cases earlier : (afterBytes front).progress = .certificateSent
    · obtain ⟨first, last, rest, rfl, before, reached⟩ := ih earlier
      exact ⟨first, last, rest ++ [b], by rw [append_assoc _ rest], before, reached⟩
    · exact ⟨front, b, [], by rw [append_nil], earlier, sent⟩

open Records in
/-- However the bytes to the client are split into writes, the watch makes the progress that all of them at
once make. If that is that the certificate was sent, it came at a byte that ends a record, and by then the
records were those of a full handshake with the certificate. -/
theorem certificate_watch_exact (calls : List FlightWatch.Call) (fits : ∀ call ∈ calls, call.Fits) :
    ∃ watch records, FlightWatch.run calls = some watch ∧
      new.written (calls.flatMap FlightWatch.Call.accepted) = some records ∧
      watch.records.progress = records.progress ∧
      (records.progress = .certificateSent → ∃ front b rest before after seen record,
        calls.flatMap FlightWatch.Call.accepted = front ++ [b] ++ rest ∧
        new.written front = some before ∧ before.progress ≠ .certificateSent ∧
        new.written (front ++ [b]) = some after ∧ after.progress = .certificateSent ∧
        front ++ [b] = (seen ++ [record]).flatMap Record.encode ∧
        (SentTls13 seen record ∨ SentTls12 seen record)) := by
  obtain ⟨watch, ran, same⟩ := FlightWatch.run_eq fits
  refine ⟨watch, _, ran, written_new _, congrArg progress same, fun sent => ?_⟩
  obtain ⟨front, b, rest, split, before, reached⟩ := exists_reached sent
  refine ⟨front, b, rest, afterBytes front, afterBytes (front ++ [b]), ?_⟩
  rw [afterBytes, clear_progress] at before reached
  obtain ⟨seen, record, bytes, case⟩ := reached_at_record_end told_new rfl rfl before reached
  refine ⟨seen, record, split, written_new front, ?_, written_new _, ?_, bytes, Sent.read case⟩
  · rwa [afterBytes, clear_progress]
  · rwa [afterBytes, clear_progress]

/-- A record with a `ServerHello` of a full TLS 1.3 handshake. -/
def helloRecord : Record :=
  ⟨22, 3, 3, 0, 50, [2, 0, 0, 46, 3, 3] ++ replicate 32 7 ++ [0, 19, 1, 0, 0, 6, 0, 43, 0, 2, 3, 4], by decide⟩

def changeRecord : Record := ⟨20, 3, 3, 0, 1, [1], by decide⟩

def encryptedRecord : Record := ⟨23, 3, 3, 0, 2, [9, 9], by decide⟩

def flight : Bytes := helloRecord.encode ++ (changeRecord.encode ++ encryptedRecord.encode)

/-- The flight in a write that accepts three bytes, one that accepts none yet, and one of several buffers. -/
def splitFlight : List FlightWatch.Call :=
  [.write flight (.ready 3), .write (flight.drop 3) .pending,
    .writeVectored [[], (flight.drop 3).take 40, [], flight.drop 43] (.ready 65), .read .pending]

theorem progress_flight : (Records.afterBytes flight).progress = .certificateSent := by
  have hello : Records.new.took helloRecord = ⟨.tls13, [], 0, helloRecord.payload⟩ := by decide
  have change : Records.took ⟨.tls13, [], 0, helloRecord.payload⟩ changeRecord = ⟨.tls13, [], 0, helloRecord.payload⟩ := by
    rfl
  rw [Records.afterBytes, Records.clear_progress, flight, foldl_append, Records.foldl_encode rfl rfl, hello, foldl_append,
    Records.foldl_encode rfl rfl changeRecord, change, Records.foldl_encode rfl rfl]
  rfl

theorem certificate_watch_exact_sample :
    ∃ watch, FlightWatch.run splitFlight = some watch ∧ watch.records.progress = .certificateSent ∧
      ∃ front b rest seen record, flight = front ++ [b] ++ rest ∧
        front ++ [b] = (seen ++ [record]).flatMap Record.encode ∧
        (SentTls13 seen record ∨ SentTls12 seen record) := by
  have stream : splitFlight.flatMap FlightWatch.Call.accepted = flight := by decide
  obtain ⟨watch, records, ran, written, same, sent⟩ := certificate_watch_exact splitFlight (by decide)
  rw [stream] at written sent
  obtain rfl := Option.some.inj ((Records.written_new flight).symm.trans written)
  obtain ⟨front, b, rest, before, after, seen, record, split, -, -, -, -, bytes, case⟩ := sent progress_flight
  exact ⟨watch, ran, same.trans progress_flight, front, b, rest, seen, record, split, bytes, case⟩

/-- A `ServerHello` is read whatever extensions it has, in whichever order. What is watched for then depends on
the version that it selects and on whether it resumes a session. -/
theorem well_formed_hello_is_read {body : Bytes} {hello : ServerHello} (reads : hello.Reads body)
    (new : hello.random ≠ helloRetryRequest) :
    (hello.SelectsTls13 ∧ ¬hello.HasPreSharedKey → readServerHello body = some .tls13) ∧
      (hello.SelectsTls13 ∧ hello.HasPreSharedKey → readServerHello body = some .noCertificate) ∧
      (¬hello.SelectsTls13 → readServerHello body = some .tls12) := by
  rw [readServerHello_of_reads reads new, ← ServerHello.selects_iff, ← ServerHello.hasPreSharedKey_iff,
    ServerHello.starts]
  cases selects false hello.extensions with
  | false => simp
  | true => cases hello.extensions.any (·.kind = preSharedKey) <;> simp

/-- A `ServerHello` that resumes a TLS 1.3 session. -/
def resumingHello : ServerHello :=
  ⟨[3, 3], replicate 32 7, 0, [], [19, 1, 0],
    some ⟨0, 12, [⟨0, 43, 0, 2, [3, 4], rfl⟩, ⟨0, 41, 0, 2, [0, 0], rfl⟩], rfl⟩, rfl, rfl, rfl, rfl⟩

theorem well_formed_hello_is_read_sample : readServerHello (resumingHello.encode ++ [1]) = some .noCertificate := by
  have reads : resumingHello.Reads (resumingHello.encode ++ [1]) := ⟨[1], rfl, nofun⟩
  apply (well_formed_hello_is_read reads (by decide)).2.1
  exact ⟨resumingHello.selects_iff.mp (by decide), resumingHello.hasPreSharedKey_iff.mp (by decide)⟩

end Tollgate.Mitm
