import Tollgate.Model.Mitm.Flight

/-! # Following written bytes one by one

The loop of `written` takes as many bytes at once as the header or the record needs. It does the same as
one step for each byte, so that it does not matter how the bytes come in pieces. From one end of a record
to the next, the steps of its bytes do what the whole record does.
-/

namespace Tollgate.Mitm

open List

namespace Records

variable {records : Records} {bytes : Bytes}

/-- The handshake bytes after more bytes of the record. -/
def fed (records : Records) (bytes : Bytes) : Bytes :=
  if records.contentType = .handshake ∧ records.progress.parses then records.handshake ++ bytes else records.handshake

theorem fed_fed (records : Records) (first second : Bytes) (n : ℕ) :
    fed { records with handshake := records.fed first, remaining := n } second = records.fed (first ++ second) := by
  unfold fed
  change (if records.contentType = _ ∧ _ then _ else _) = _
  split
  · exact append_assoc ..
  · rfl

/-- One byte is written. -/
def stepByte (records : Records) (b : UInt8) : Records :=
  if !records.watching then records
  else if records.header.length < 5 then
    let header := records.header ++ [b]
    if header.length = 5 then { records with header := header, remaining := Endian.ofBe (header.drop 3) }.settle
    else { records with header := header }
  else { records with handshake := records.fed [b], remaining := records.remaining - 1 }.settle

/-- A record whose header is complete has bytes to come. -/
def Valid (records : Records) : Prop :=
  records.header.length < 5 ∨ (records.header.length = 5 ∧ 0 < records.remaining)

theorem valid_new : new.Valid := .inl (by decide)

theorem handshakeMessages_header (records : Records) : records.handshakeMessages.header = records.header := by
  unfold handshakeMessages
  split <;> rfl

@[simp] theorem recordWritten_header (records : Records) : records.recordWritten.header = [] := by
  unfold recordWritten
  dsimp only
  split
  · exact handshakeMessages_header _
  · exact handshakeMessages_header _
  · rfl
  · rfl
  · rfl
  · rfl

theorem valid_settle (full : records.header.length = 5) : records.settle.Valid := by
  unfold settle
  split
  · left
    rw [recordWritten_header]
    decide
  · next more => exact .inr ⟨full, Nat.pos_of_ne_zero more⟩

theorem stepByte_of_over (unwatched : records.watching = false) (b : UInt8) : records.stepByte b = records := by
  rw [stepByte, if_pos (by rw [unwatched]; rfl)]

theorem foldl_of_over (unwatched : records.watching = false) (bytes : Bytes) : bytes.foldl stepByte records = records := by
  induction bytes with
  | nil => rfl
  | cons b rest ih => rw [foldl_cons, stepByte_of_over unwatched, ih]

/-- The header after some of its bytes. -/
theorem foldl_header (on : records.watching = true) (fits : records.header.length + bytes.length < 5) :
    bytes.foldl stepByte records = { records with header := records.header ++ bytes } := by
  induction bytes generalizing records with
  | nil => rw [append_nil]; rfl
  | cons b rest ih =>
    rw [length_cons] at fits
    have first : records.stepByte b = { records with header := records.header ++ [b] } := by
      unfold stepByte
      rw [if_neg (by rw [on]; decide), if_pos (by omega)]
      exact if_neg (by rw [length_append, length_singleton]; omega)
    have more : (records.header ++ [b]).length + rest.length < 5 := by
      rw [length_append, length_singleton]
      omega
    rw [foldl_cons, first, @ih { records with header := records.header ++ [b] } on more, append_assoc]
    rfl

/-- The last byte of the header. -/
theorem foldl_header_end (on : records.watching = true) (nonempty : bytes ≠ [])
    (full : records.header.length + bytes.length = 5) :
    bytes.foldl stepByte records =
      { records with
        header := records.header ++ bytes
        remaining := Endian.ofBe ((records.header ++ bytes).drop 3) }.settle := by
  obtain ⟨front, b, rfl⟩ := (eq_nil_or_concat' bytes).resolve_left nonempty
  rw [length_append, length_singleton] at full
  rw [foldl_append, foldl_header on (by omega), foldl_cons, foldl_nil, ← append_assoc]
  unfold stepByte
  rw [if_neg (by change ¬(!records.watching) = true; rw [on]; decide), if_pos (by rw [length_append]; omega)]
  exact if_pos (by rw [length_append, length_append, length_singleton]; omega)

/-- The record after some of its bytes. -/
theorem foldl_payload (on : records.watching = true) (full : records.header.length = 5)
    (fits : bytes.length < records.remaining) :
    bytes.foldl stepByte records =
      { records with handshake := records.fed bytes, remaining := records.remaining - bytes.length } := by
  induction bytes generalizing records with
  | nil => simp [fed]
  | cons b rest ih =>
    rw [length_cons] at fits
    have first : records.stepByte b =
        { records with handshake := records.fed [b], remaining := records.remaining - 1 } := by
      unfold stepByte
      rw [if_neg (by rw [on]; decide), if_neg (by omega)]
      exact if_neg (Nat.sub_ne_zero_of_lt (by omega))
    have later := @ih { records with handshake := records.fed [b], remaining := records.remaining - 1 } on full
      (Nat.lt_sub_of_add_lt fits)
    have count : records.remaining - 1 - rest.length = records.remaining - (b :: rest).length := by
      rw [length_cons]
      omega
    rw [foldl_cons, first, later, fed_fed]
    exact congrArg (fun n => Records.mk records.progress records.header n _) count

/-- More bytes of the record, up to its end. -/
theorem foldl_payload_end (on : records.watching = true) (full : records.header.length = 5) (nonempty : bytes ≠ [])
    (fits : bytes.length ≤ records.remaining) :
    bytes.foldl stepByte records =
      { records with handshake := records.fed bytes, remaining := records.remaining - bytes.length }.settle := by
  rcases fits.lt_or_eq with less | whole
  · rw [foldl_payload on full less]
    exact (if_neg (Nat.sub_ne_zero_of_lt less)).symm
  · obtain ⟨front, b, rfl⟩ := (eq_nil_or_concat' bytes).resolve_left nonempty
    rw [length_append, length_singleton] at whole
    rw [foldl_append, foldl_payload on full (by omega), foldl_cons, foldl_nil]
    unfold stepByte
    rw [if_neg (by change ¬(!records.watching) = true; rw [on]; decide),
      if_neg (by change ¬records.header.length < 5; omega)]
    have count : records.remaining - front.length - 1 = records.remaining - (front ++ [b]).length := by
      rw [length_append, length_singleton]
      omega
    rw [fed_fed]
    exact congrArg (fun n => (Records.mk records.progress records.header n _).settle) count

/-- A turn of the loop takes some bytes, as steps of these bytes do. -/
theorem follow_turn (on : records.watching = true) (nonempty : bytes ≠ []) (valid : records.Valid) :
    ∃ n, 0 < n ∧ ((bytes.take n).foldl stepByte records).Valid ∧
      ∀ fuel, records.follow (fuel + 1) bytes = ((bytes.take n).foldl stepByte records).follow fuel (bytes.drop n) := by
  have length : 0 < bytes.length := length_pos_iff.mpr nonempty
  have goes : ¬(bytes.isEmpty || !records.watching) = true := by
    rw [on, isEmpty_eq_false_iff.mpr nonempty]
    decide
  rcases valid with short | ⟨full, still⟩
  · have taken : (bytes.take (min (5 - records.header.length) bytes.length)).length =
        min (5 - records.header.length) bytes.length := by
      rw [length_take]
      omega
    have some_ : bytes.take (min (5 - records.header.length) bytes.length) ≠ [] := by
      apply length_pos_iff.mp
      omega
    refine ⟨min (5 - records.header.length) bytes.length, by omega, ?_⟩
    by_cases ends : records.header.length + (bytes.take (min (5 - records.header.length) bytes.length)).length = 5
    · rw [foldl_header_end on some_ ends]
      refine ⟨valid_settle (by rw [length_append]; exact ends), fun fuel => ?_⟩
      rw [follow, if_neg goes]
      dsimp only
      rw [if_pos short, if_pos (by rw [length_append]; exact ends)]
    · rw [foldl_header on (by omega)]
      refine ⟨.inl (by rw [length_append]; omega), fun fuel => ?_⟩
      rw [follow, if_neg goes]
      dsimp only
      rw [if_pos short, if_neg (by rw [length_append]; exact ends)]
  · have taken : (bytes.take (min records.remaining bytes.length)).length = min records.remaining bytes.length := by
      rw [length_take]
      omega
    have some_ : bytes.take (min records.remaining bytes.length) ≠ [] := by
      apply length_pos_iff.mp
      omega
    refine ⟨min records.remaining bytes.length, by omega, ?_⟩
    rw [foldl_payload_end on full some_ (by omega), taken]
    refine ⟨valid_settle full, fun fuel => ?_⟩
    rw [follow, if_neg goes]
    exact if_neg (by omega)

/-- The loop of `written` takes its bytes one by one, and its fuel is enough. -/
theorem follow_eq {fuel : ℕ} (valid : records.Valid) (enough : bytes.length ≤ fuel) :
    records.follow fuel bytes = some (bytes.foldl stepByte records) := by
  induction fuel generalizing records bytes with
  | zero =>
    obtain rfl := length_eq_zero_iff.mp (Nat.le_zero.mp enough)
    rfl
  | succ fuel ih =>
    cases on : records.watching with
    | false => rw [foldl_of_over on, follow, if_pos (by rw [on]; exact Bool.or_true _)]
    | true =>
      by_cases empty : bytes = []
      · subst empty
        rfl
      · obtain ⟨n, positive, nextValid, turn⟩ := follow_turn on empty valid
        rw [turn, ih nextValid (by rw [length_drop]; omega), ← foldl_append, take_append_drop]

theorem valid_foldl (valid : records.Valid) (bytes : Bytes) : (bytes.foldl stepByte records).Valid := by
  induction bytes generalizing records with
  | nil => exact valid
  | cons b rest ih =>
    apply ih
    cases on : records.watching with
    | false => rwa [stepByte_of_over on]
    | true =>
      obtain ⟨n, positive, nextValid, -⟩ := follow_turn on (cons_ne_nil b []) valid
      rwa [take_of_length_le (show [b].length ≤ n from positive)] at nextValid

theorem clear_progress (records : Records) : records.clear.progress = records.progress := by
  unfold clear
  split <;> rfl

theorem clear_valid (valid : records.Valid) : records.clear.Valid := by
  unfold clear
  split <;> exact valid

/-- Clearing early makes no difference. -/
theorem clear_foldl_clear (records : Records) (bytes : Bytes) :
    (bytes.foldl stepByte records.clear).clear = (bytes.foldl stepByte records).clear := by
  cases on : records.watching with
  | true => rw [show records.clear = records from if_pos on]
  | false =>
    have unwatched : records.clear.watching = false := by
      rw [watching, clear_progress]
      exact on
    rw [foldl_of_over on, foldl_of_over unwatched]
    have cleared : records.clear = { records with handshake := [] } := if_neg (by rw [on]; decide)
    rw [show records.clear.clear = { records.clear with handshake := [] } from if_neg (by rw [unwatched]; decide), cleared]

theorem written_eq (valid : records.Valid) (bytes : Bytes) :
    records.written bytes = some (bytes.foldl stepByte records).clear := by
  rw [written, follow_eq valid (le_refl _), Option.map_some]

/-- Where the watch stands after all bytes of a stream. -/
def afterBytes (stream : Bytes) : Records := (stream.foldl stepByte new).clear

theorem afterBytes_valid (stream : Bytes) : (afterBytes stream).Valid := clear_valid (valid_foldl valid_new stream)

theorem written_new (stream : Bytes) : new.written stream = some (afterBytes stream) := written_eq valid_new stream

/-- Writing more bytes leads where writing all of them at once leads. -/
theorem written_afterBytes (stream bytes : Bytes) :
    (afterBytes stream).written bytes = some (afterBytes (stream ++ bytes)) := by
  rw [written_eq (afterBytes_valid stream), afterBytes, clear_foldl_clear, afterBytes, foldl_append]

/-- Once the watch is unwatched, more bytes make no difference. -/
theorem afterBytes_of_over {stream : Bytes} (unwatched : (afterBytes stream).watching = false) (bytes : Bytes) :
    afterBytes (stream ++ bytes) = afterBytes stream := by
  have stays : (stream.foldl stepByte new).watching = false := by
    rw [watching, ← clear_progress]
    exact unwatched
  rw [afterBytes, foldl_append, foldl_of_over stays, afterBytes]

end Records

namespace FlightWatch

open Records

/-- The bytes that a call writes to the client. -/
def Call.accepted : Call → Bytes
  | .write buf (.ready n) => buf.take n
  | .writeVectored bufs (.ready n) => bufs.flatten.take n
  | _ => []

/-- A write accepts no more bytes than it was given. -/
def Call.Fits : Call → Prop
  | .write buf (.ready n) => n ≤ buf.length
  | _ => True

instance : (call : Call) → Decidable call.Fits
  | .write _ (.ready _) => inferInstanceAs (Decidable (_ ≤ _))
  | .write _ .pending | .write _ .failed | .read _ | .writeVectored .. => isTrue trivial

theorem vectored_eq (bufs : List Bytes) (n : ℕ) (stream : Bytes) :
    vectored bufs n (afterBytes stream) = some (afterBytes (stream ++ bufs.flatten.take n)) := by
  induction bufs generalizing n stream with
  | nil => rw [flatten_nil, take_nil, append_nil]; rfl
  | cons buf bufs ih =>
    rw [vectored]
    split
    · next ends =>
      rcases Bool.or_eq_true_iff.mp ends with none | unwatched
      · rw [of_decide_eq_true none, take_zero, append_nil]
      · rw [afterBytes_of_over (Bool.not_eq_true' _ ▸ unwatched)]
    · dsimp only
      rw [written_afterBytes]
      refine (ih (n - min n buf.length) (stream ++ buf.take (min n buf.length))).trans ?_
      have left : n - min n buf.length = n - buf.length := by omega
      rw [append_assoc, flatten_cons, take_append, ← take_take, take_length, left]

/-- One call on the stream moves the watch on by the bytes it wrote. -/
theorem call_eq {watch : FlightWatch} {stream : Bytes} (here : watch.records = afterBytes stream) {call : Call}
    (fits : call.Fits) :
    ∃ next, watch.call call = some next ∧ next.records = afterBytes (stream ++ call.accepted) := by
  have still : ∀ {next : FlightWatch}, next.records = watch.records → next.records = afterBytes (stream ++ []) := by
    intro next same
    rw [same, here, append_nil]
  cases call with
  | read result =>
    refine ⟨_, rfl, still ?_⟩
    unfold pollRead
    split <;> rfl
  | write buf result =>
    cases result with
    | pending | failed => exact ⟨watch, rfl, still rfl⟩
    | ready n =>
      change ∃ next, watch.pollWrite buf (.ready n) = some next ∧ _ = afterBytes (stream ++ buf.take n)
      unfold pollWrite
      dsimp only
      split
      · have front : slice buf 0 n = some (buf.take n) := if_pos ⟨Nat.zero_le n, fits⟩
        rw [front, here]
        change ∃ next, ((afterBytes stream).written (buf.take n)).bind _ = some next ∧ _
        rw [written_afterBytes]
        exact ⟨_, rfl, rfl⟩
      · next unwatched =>
        rw [here] at unwatched
        exact ⟨watch, rfl, by rw [here, afterBytes_of_over (Bool.not_eq_true _ ▸ unwatched)]⟩
  | writeVectored bufs result =>
    cases result with
    | pending | failed => exact ⟨watch, rfl, still rfl⟩
    | ready n =>
      change ∃ next, (vectored bufs n watch.records).bind _ = some next ∧ _
      rw [here, vectored_eq]
      exact ⟨_, rfl, rfl⟩

/-- However the bytes are split into writes, the watch ends where it ends for all of them at once. -/
theorem run_eq {calls : List Call} (fits : ∀ call ∈ calls, call.Fits) :
    ∃ watch, run calls = some watch ∧ watch.records = afterBytes (calls.flatMap Call.accepted) := by
  have general : ∀ {watch : FlightWatch} {stream : Bytes}, watch.records = afterBytes stream →
      ∃ next, calls.foldlM FlightWatch.call watch = some next ∧
        next.records = afterBytes (stream ++ calls.flatMap Call.accepted) := by
    induction calls with
    | nil =>
      intro watch stream here
      exact ⟨watch, rfl, by rw [here, flatMap_nil, append_nil]⟩
    | cons call calls ih =>
      intro watch stream here
      obtain ⟨first, rest⟩ := forall_mem_cons.mp fits
      obtain ⟨next, stepped, there⟩ := call_eq here first
      obtain ⟨last, ran, done⟩ := ih rest there
      refine ⟨last, ?_, ?_⟩
      · rw [foldlM_cons, stepped]
        exact ran
      · rw [done, flatMap_cons, append_assoc]
  obtain ⟨watch, ran, done⟩ := @general new [] rfl
  exact ⟨watch, ran, done⟩

end FlightWatch

end Tollgate.Mitm
