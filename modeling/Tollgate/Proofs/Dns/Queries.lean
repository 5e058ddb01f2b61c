import Tollgate.Model.Dns.Session
import Tollgate.Proofs.Dns.Fitted

/-! # Queries and what they ask of a reply

A query that can be read is a message with one question, and the requester made from it has that
message's id, RD bit, question and EDNS as far as replies depend on them. Hence a reply that suits
the requester fits the query.
-/

namespace Tollgate.Dns

open List

/-- The requester has what the replies to a query depend on. -/
structure Requester.OfQuery (requester : Requester) (query : Message) : Prop where
  id : requester.id = query.id
  recursionDesired : requester.recursionDesired = query.recursionDesired
  question : requester.question = query.question.encode
  dnssecOk : requester.edns.map ClientEdns.dnssecOk = query.opt?.map Record.dnssecOk
  udpPayload : requester.edns.map (fun edns => max 512 edns.udpPayload.toNat) =
    query.opt?.map fun opt => max 512 opt.rclass.toNat

variable {decoder : Decoder} {query : Bytes} {requester : Requester} {message : Message}

theorem Requester.OfQuery.any_dnssecOk (asks : requester.OfQuery message) :
    requester.edns.any ClientEdns.dnssecOk = message.dnssecOk := by
  have any {α : Type} (bit : α → Bool) (value : Option α) : value.any bit = (value.map bit).getD false := by
    cases value <;> rfl
  rw [Message.dnssecOk, any, any, asks.dnssecOk]

/-- A reply that suits the requester fits its query. -/
theorem Requester.OfQuery.answers (asks : requester.OfQuery message) {payload : Bytes} {reply : Message}
    (suits : requester.Suits message.question payload reply) : message.Answers payload reply := by
  obtain ⟨encodes, ⟨id, flags, question, others, additionals, plain⟩, fits⟩ := suits
  have bits := asks.dnssecOk
  have sizes := asks.udpPayload
  have classic : classicUdpPayload.toNat = 512 := rfl
  have most : maxUdpPayload.toNat = 1232 := rfl
  refine ⟨encodes, id.trans asks.id, bne_iff_ne.mpr flags.1, flags.2.trans asks.recursionDesired, question, ?_, ?_⟩
  · unfold Message.EchoesOpt
    cases given : requester.edns with
    | none =>
      rw [given] at bits
      rw [Option.map_eq_none_iff.mp bits.symm]
      intro record member
      apply plain
      simpa [Message.records, additionals, Requester.optRecord, given] using member
    | some edns =>
      rw [given] at bits
      obtain ⟨opt, asked, bit⟩ := Option.map_eq_some_iff.mp bits.symm
      rw [asked]
      refine ⟨others, _, by rw [additionals, Requester.optRecord, given]; rfl, rfl, ?_, plain⟩
      rw [bit]
      change ((if edns.dnssecOk then (0x8000 : UInt32) else 0) &&& 0x8000 != 0) = edns.dnssecOk
      cases edns.dnssecOk <;> decide
  · unfold Message.replyLimit
    refine fits.trans ?_
    unfold Requester.udpLimit
    cases given : requester.edns with
    | none =>
      rw [given] at sizes
      rw [Option.map_eq_none_iff.mp sizes.symm]
      exact Nat.le_refl _
    | some edns =>
      rw [given] at sizes
      obtain ⟨opt, asked, size⟩ := Option.map_eq_some_iff.mp sizes.symm
      rw [asked]
      dsimp only at size ⊢
      omega

/-- What reading a query has found. -/
structure QueryRead.Of (read : QueryRead) (query : Bytes) (message : Message) : Prop where
  prefixed : HasAt query 0 message.encode
  requester : read.requester.OfQuery message
  stop : read.stop = headerLen + message.question.encode.length
  opcode : message.opcode = 0
  queryType : read.question.queryType = message.question.qtype

theorem QueryRead.Of.question {read : QueryRead} (of : read.Of query message) :
    HasAt query headerLen message.question.encode :=
  (Message.hasAt_encode_iff.mp of.prefixed).2.2.2.2.2.2.2.1

/-- The key under which the answers of a query are kept. -/
theorem QueryRead.Of.key {read : QueryRead} (of : read.Of query message) :
    questionKey query read.stop = some message.question.lower.encode := by
  rw [of.stop]
  exact questionKey_eq of.question

/-- A query that decodes as a standard one with a single question can be read. -/
theorem readQuery_of_decoded (faithful : decoder.Faithful) {decoded : Decoded} {stop : ℕ}
    (accepted : decoder query = some decoded) (standard : decoded.opCode = 0) (ends : questionEnd query = some stop) :
    ∃ read message, readQuery decoder query = some (.ok read) ∧ read.Of query message := by
  obtain ⟨one, question, asked, rfl⟩ := questionEnd_eq_some_iff.mp ends
  obtain ⟨after, split⟩ := asked
  obtain ⟨message, trailing, whole, reports⟩ := faithful.reports accepted one.take_drop split.symm
  have prefixed : HasAt query 0 message.encode := ⟨trailing, whole.symm⟩
  have stands := (Message.hasAt_encode_iff.mp prefixed).2.2.2.2.2.2.2.1
  obtain rfl : message.question = question := by
    obtain ⟨rest, other⟩ := stands
    exact (readable_question (other.trans split.symm)).1
  obtain ⟨queried, single, queryType⟩ : ∃ queried, decoded.queries = [queried] ∧
      queried.queryType = message.question.qtype := by
    obtain ⟨queried, rest, list, same, none⟩ := map_eq_cons_iff.mp reports.queries
    rw [map_eq_nil_iff.mp none] at list
    exact ⟨queried, list, same⟩
  have sliced := slice_of_hasAt stands (stands.length_le message.question.encode_ne_nil)
  refine ⟨⟨⟨decoded.id, decoded.recursionDesired, message.question.encode,
    decoded.edns.map fun edns => ⟨edns.maxPayload, edns.dnssecOk⟩⟩, queried, _⟩, message, ?_, prefixed,
    ⟨reports.id, reports.recursionDesired, rfl, ?_, ?_⟩, rfl, ?_, queryType⟩
  · rw [readQuery, accepted]
    dsimp only
    rw [if_neg (not_not.mpr standard), ends]
    dsimp only
    rw [Requester.fromQuery, sliced, single]
    rfl
  · rw [← reports.dnssecOk, Option.map_map]
    rfl
  · rw [← reports.maxPayload, Option.map_map]
    rfl
  · rw [← reports.opCode, standard]

/-- Reading a query never panics; what cannot be read is answered with a header only. -/
theorem readQuery_spec (faithful : decoder.Faithful) (query : Bytes) :
    (∃ rcode, readQuery decoder query = some (.error rcode)) ∨
      ∃ read message, readQuery decoder query = some (.ok read) ∧ read.Of query message := by
  cases accepted : decoder query with
  | none => exact .inl ⟨formErr, by rw [readQuery, accepted]⟩
  | some decoded =>
    rcases eq_or_ne decoded.opCode 0 with standard | other
    · cases ends : questionEnd query with
      | none => exact .inl ⟨formErr, by simp [readQuery, accepted, standard, ends]⟩
      | some stop => exact .inr (readQuery_of_decoded faithful accepted standard ends)
    · exact .inl ⟨notImp, by simp [readQuery, accepted, other]⟩

/-- The question of a query is the first one the decoder reports. -/
theorem readQuery_question {decoded : Decoded} {read : QueryRead} (accepted : decoder query = some decoded)
    (readable : readQuery decoder query = some (.ok read)) : decoded.queries[0]? = some read.question := by
  rw [readQuery, accepted] at readable
  dsimp only at readable
  split at readable
  · cases readable
  · split at readable
    · cases readable
    · obtain ⟨requester, -, rest⟩ := Option.bind_eq_some_iff.mp readable
      obtain ⟨question, first, same⟩ := Option.bind_eq_some_iff.mp rest
      cases same
      exact first

theorem readQuery_of (faithful : decoder.Faithful) {query : Bytes} {read : QueryRead}
    (readable : readQuery decoder query = some (.ok read)) : ∃ message, read.Of query message := by
  rcases readQuery_spec faithful query with ⟨rcode, refused⟩ | ⟨other, message, accepted, of⟩
  · cases refused.symm.trans readable
  · cases accepted.symm.trans readable
    exact ⟨message, of⟩

end Tollgate.Dns
