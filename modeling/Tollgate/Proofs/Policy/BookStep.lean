import Tollgate.Model.Policy.PinBook

/-! # A call acts on the pin book

Whatever a call reads from the counts, what it does to the pins and to the lists of fresh pins is
the action that `Learning.action` names, and that action is enabled. The rest of the argument about
pins needs only the book.
-/

namespace Tollgate

namespace Learning

variable (learning : Learning) (ties : Ties) (key host : Text) (now : ℕ)

@[simp] theorem expirePins_book : (learning.expirePins now).book = learning.book.expire now := rfl

@[simp] theorem upstreamSuppressed_book : (learning.upstreamSuppressed now).2.book = learning.book := by
  unfold upstreamSuppressed
  split <;> rfl

@[simp] theorem silentSuppressed_book : (learning.silentSuppressed now).2.book = learning.book := by
  unfold silentSuppressed
  split <;> rfl

@[simp] theorem noteSilentHost_book : (learning.noteSilentHost ties key now).2.book = learning.book := rfl

@[simp] theorem countForFlood_book : (learning.countForFlood ties key now).2.book = learning.book := rfl

@[simp] theorem logHeldBack_book (counts : FloodCounts) :
    (learning.logHeldBack ties key counts now).book = learning.book := by
  unfold logHeldBack
  dsimp only
  split_ifs <;> rfl

@[simp] theorem learnSilent_book : (learning.learnSilent key now).book = learning.book.learn .silent key now := rfl

@[simp] theorem silentBurst_book : (learning.silentBurst now).book = learning.book.takeSilent now := rfl

@[simp] theorem learnUpstream_book : (learning.learnUpstream key now).book = learning.book.learn .upstream key now :=
  rfl

@[simp] theorem upstreamBurst_book : (learning.upstreamBurst now).book = learning.book.takeUpstream now := rfl

theorem isUpstreamBurst_eq :
    learning.isUpstreamBurst now =
      decide (upstreamBurstHosts ≤ ((learning.book.window now).map Prod.fst).toFinset.card + 1) := rfl

theorem forgetPins_state (hosts : List Text) :
    (learning.forgetPins hosts).2 = (hosts.map lookupKey).foldl forgetPin learning := by
  have general : ∀ count state,
      (hosts.foldl (fun done host => (done.1 + (if lookupKey host ∈ done.2.pins then 1 else 0),
        done.2.forgetPin (lookupKey host))) (count, state)).2 = (hosts.map lookupKey).foldl forgetPin state := by
    induction hosts with
    | nil => exact fun _ _ => rfl
    | cons host rest ih => exact fun _ _ => ih _ _
  exact general 0 learning

theorem foldl_forgetPin_book (keys : List Text) :
    (keys.foldl forgetPin learning).book = keys.foldl Book.forget learning.book := by
  induction keys generalizing learning with
  | nil => rfl
  | cons key rest ih => exact ih (learning.forgetPin key)

/-- A counted refusal changes the book only when it makes its host a pin. -/
theorem countedRefusal_book :
    (learning.countedRefusal ties key now).2.book =
      if (learning.countedRefusal ties key now).1 then learning.book.learn .silent key now else learning.book := by
  have guarded (state : Learning) (counts : ℕ × ℕ) :
      (state.guardedRefusal ties key counts now).2.book =
        if (state.guardedRefusal ties key counts now).1 then state.book.learn .silent key now else state.book := by
    unfold guardedRefusal
    dsimp only
    split
    · rw [if_pos rfl]
      rfl
    · rw [if_neg Bool.false_ne_true, logHeldBack_book]
      rfl
  have pending (state : Learning) :
      (state.pendingRefusal ties key now).2.book =
        if (state.pendingRefusal ties key now).1 then state.book.learn .silent key now else state.book := by
    unfold pendingRefusal
    dsimp only
    split
    · rfl
    · split <;> rfl
  unfold countedRefusal
  dsimp only
  split
  · rw [guarded, countForFlood_book]
  · rw [pending, countForFlood_book]

theorem recordClientRejection_book :
    (learning.recordClientRejection ties host now).2.book =
      learning.book.act (if (learning.recordClientRejection ties host now).1 then .learn .client (lookupKey host) now
        else if lookupKey host = [] then .idle else .expire now) := by
  unfold recordClientRejection
  dsimp only
  split
  · rfl
  · split
    · rfl
    · split <;> rfl

theorem learnUpstreamUntrusted_book :
    (learning.learnUpstreamUntrusted host now).2.book =
      learning.book.act (if (learning.learnUpstreamUntrusted host now).1 then .learn .upstream (lookupKey host) now
        else if lookupKey host = [] then .idle
        else if learning.findsUpstreamBurst host now then .upstreamBurst now else .expire now) := by
  unfold learnUpstreamUntrusted findsUpstreamBurst
  dsimp only
  split
  · rfl
  · next named =>
    split
    · next pinned => simp [named, pinned, Book.act]
    · next free =>
      split
      · next suppressed => simp [named, free, suppressed, Book.act]
      · next heard =>
        split
        · next burst => simp [named, free, heard, burst, Book.act]
        · simp [Book.act]

theorem recordSilentRefusal_book :
    (learning.recordSilentRefusal ties host now).2.book =
      learning.book.act (if (learning.recordSilentRefusal ties host now).1 then .learn .silent (lookupKey host) now
        else if lookupKey host = [] then .idle
        else if learning.findsSilentBurst ties host now then .silentBurst now else .expire now) := by
  unfold recordSilentRefusal findsSilentBurst
  dsimp only
  split
  · rfl
  · next named =>
    split
    · next pinned => simp [named, pinned, Book.act]
    · next free =>
      split
      · next burst => simp [named, free, burst, Book.act]
      · next calm =>
        split
        · simp [named, free, calm, Book.act]
        · rw [countedRefusal_book]
          split <;> simp [named, free, calm, Book.act]

/-- What a call does to the book. -/
theorem call_book (call : Call) :
    (learning.call call).2.book = learning.book.act (learning.action call) := by
  obtain ⟨op, ties⟩ := call
  unfold action learned upkeep
  cases op with
  | recordClientRejection host now =>
    have stepped := recordClientRejection_book learning ties host now.toNat
    cases made : (learning.recordClientRejection ties host now.toNat).1 <;> simpa [call, made] using stepped
  | recordSilentRefusal host now =>
    have stepped := recordSilentRefusal_book learning ties host now.toNat
    cases made : (learning.recordSilentRefusal ties host now.toNat).1 <;> simpa [call, made] using stepped
  | learnUpstreamUntrusted host now =>
    have stepped := learnUpstreamUntrusted_book learning host now.toNat
    cases made : (learning.learnUpstreamUntrusted host now.toNat).1 <;> simpa [call, made] using stepped
  | recordInterceptedHandshake host now =>
    change (learning.recordInterceptedHandshake ties host now.toNat).book = learning.book
    unfold recordInterceptedHandshake
    dsimp only
    split <;> rfl
  | onNetworkChange now => rfl
  | forgetPins hosts =>
    exact (congrArg book (forgetPins_state learning hosts)).trans (foldl_forgetPin_book learning _)

/-- An operation makes its host a pin only while it has no live one. -/
theorem recordClientRejection_free (made : (learning.recordClientRejection ties host now).1 = true) :
    lookupKey host ∉ (learning.book.expire now).pins := by
  unfold recordClientRejection at made
  dsimp only at made
  split at made
  · contradiction
  · split at made
    · contradiction
    · assumption

theorem recordSilentRefusal_free (made : (learning.recordSilentRefusal ties host now).1 = true) :
    lookupKey host ∉ (learning.book.expire now).pins := by
  unfold recordSilentRefusal at made
  dsimp only at made
  split at made
  · contradiction
  · split at made
    · contradiction
    · assumption

theorem learnUpstreamUntrusted_free (made : (learning.learnUpstreamUntrusted host now).1 = true) :
    lookupKey host ∉ (learning.book.expire now).pins ∧
      ((learning.book.window now).map Prod.fst).toFinset.card + 1 < upstreamBurstHosts := by
  unfold learnUpstreamUntrusted at made
  dsimp only at made
  split at made
  · contradiction
  · split at made
    · contradiction
    · next free =>
      split at made
      · contradiction
      · split at made
        · contradiction
        · next calm =>
          rw [isUpstreamBurst_eq, upstreamSuppressed_book, expirePins_book, decide_eq_true_eq, not_le] at calm
          exact ⟨free, calm⟩

/-- A call that makes a host a pin was made at its time, and finds no live pin of the host. -/
theorem learned_spec {call : Call} {key : Text} {origin : Origin}
    (made : learning.learned call = some (key, origin, now)) :
    call.op.now? = some now ∧ (Action.learn origin key now).Enabled learning.book := by
  obtain ⟨op, ties⟩ := call
  unfold learned at made
  split at made
  · next success =>
    cases op with
    | recordClientRejection host time =>
      cases made
      exact ⟨rfl, recordClientRejection_free learning ties host time.toNat success, nofun⟩
    | recordSilentRefusal host time =>
      cases made
      exact ⟨rfl, recordSilentRefusal_free learning ties host time.toNat success, nofun⟩
    | learnUpstreamUntrusted host time =>
      cases made
      obtain ⟨free, calm⟩ := learnUpstreamUntrusted_free learning host time.toNat success
      exact ⟨rfl, free, fun _ => calm⟩
    | _ => contradiction
  · contradiction

theorem upkeep_spec (call : Call) :
    (learning.upkeep call).Enabled learning.book ∧ ∀ time, (learning.upkeep call).now? = some time →
      call.op.now? = some time := by
  obtain ⟨op, ties⟩ := call
  unfold upkeep
  cases op <;> dsimp only <;> repeat' split
  all_goals exact ⟨trivial, fun _ same => by first | contradiction | exact same⟩

theorem upkeep_ne_learn (call : Call) {origin : Origin} {key : Text} : learning.upkeep call ≠ .learn origin key now := by
  obtain ⟨op, ties⟩ := call
  unfold upkeep
  cases op <;> dsimp only <;> repeat' split
  all_goals exact nofun

/-- The action of a call is enabled in the book it finds, and taken at the time of the call. -/
theorem action_spec (call : Call) :
    (learning.action call).Enabled learning.book ∧ ∀ time, (learning.action call).now? = some time →
      call.op.now? = some time := by
  unfold action
  split
  · next made =>
    obtain ⟨time, enabled⟩ := learned_spec learning _ made
    exact ⟨enabled, fun _ same => time.trans same⟩
  · exact learning.upkeep_spec call

theorem action_onNetworkChange {call : Call} {moment : UInt64} (change : call.op = .onNetworkChange moment) :
    learning.action call = .networkChange moment.toNat := by
  obtain ⟨op, ties⟩ := call
  subst change
  rfl

/-- A call whose upkeep takes nothing back at most learns a host. -/
theorem action_calm {call : Call} {now : ℕ} (timed : call.op.now? = some now)
    (calm : learning.upkeep call = .idle ∨ learning.upkeep call = .expire now) :
    learning.action call = .idle ∨ learning.action call = .expire now ∨
      ∃ origin key, learning.action call = .learn origin key now := by
  cases made : learning.learned call with
  | none =>
    rw [action, made]
    exact calm.imp_right .inl
  | some learned =>
    obtain ⟨key, origin, time⟩ := learned
    obtain rfl := Option.some.inj ((learned_spec learning _ made).1.symm.trans timed)
    rw [action, made]
    exact .inr (.inr ⟨origin, key, rfl⟩)

/-- Only a call to forget pins forgets any. -/
theorem forgets_of_action {key : Text} {call : Call} {keys : List Text} (forgot : learning.action call = .forget keys)
    (named : key ∈ keys) : ∃ hosts, call.op = .forgetPins hosts ∧ key ∈ hosts.map lookupKey := by
  obtain ⟨op, ties⟩ := call
  unfold action upkeep at forgot
  split at forgot
  · contradiction
  · cases op with
    | forgetPins hosts =>
      cases forgot
      exact ⟨hosts, rfl, named⟩
    | _ =>
      dsimp only at forgot
      repeat' split at forgot
      all_goals contradiction

end Learning

namespace Learning

variable {learning : Learning} {ties : Ties} {host : Text} {now : ℕ}

/-- An upstream failure that completes a burst teaches nothing. -/
theorem learnUpstreamUntrusted_burst (burst : learning.findsUpstreamBurst host now = true) :
    learning.learnUpstreamUntrusted host now =
      (false, ((learning.expirePins now).upstreamSuppressed now).2.upstreamBurst now) := by
  simp only [findsUpstreamBurst, Bool.and_eq_true, Bool.not_eq_true', decide_eq_true_eq, decide_eq_false_iff_not] at burst
  obtain ⟨⟨⟨named, free⟩, heard⟩, many⟩ := burst
  unfold learnUpstreamUntrusted
  dsimp only
  rw [if_neg named, if_neg free, heard, if_neg Bool.false_ne_true, if_pos many]

/-- A silent refusal that completes a burst teaches nothing. -/
theorem recordSilentRefusal_burst (burst : learning.findsSilentBurst ties host now = true) :
    learning.recordSilentRefusal ties host now =
      (false, ((learning.expirePins now).noteSilentHost ties (lookupKey host) now).2.silentBurst now) := by
  simp only [findsSilentBurst, Bool.and_eq_true, Bool.not_eq_true', decide_eq_true_eq, decide_eq_false_iff_not] at burst
  obtain ⟨⟨named, free⟩, many⟩ := burst
  unfold recordSilentRefusal
  dsimp only
  rw [if_neg named, if_neg free, if_pos many]

end Learning

/-- The provenance after one more call is the one its action notes. -/
theorem latestLearning_cons (saved : HostMap ℕ) (call : Call) (past : List Call) :
    latestLearning saved (call :: past) =
      ((afterCalls saved past).action call).note (latestLearning saved past) := by
  funext host
  rw [latestLearning, Learning.action]
  cases made : (afterCalls saved past).learned call with
  | none =>
    unfold Learning.upkeep
    dsimp only
    repeat' split
    all_goals rfl
  | some learned => simp only [Action.note, Function.update_apply, eq_comm]

theorem afterCalls_cons_book (saved : HostMap ℕ) (call : Call) (past : List Call) :
    (afterCalls saved (call :: past)).book =
      (afterCalls saved past).book.act ((afterCalls saved past).action call) := Learning.call_book ..

end Tollgate
