import Tollgate.Proofs.Policy.FreshPins

/-! # Pins along a run of calls

The invariants of the pin book hold after every history of calls: the one on client pins under any
clock, the exact lists under a clock that does not go back. From the exact lists follows that the
pins learned from upstream failures stay sparse in time, and from the suppression that a burst
leaves behind that nothing is learned from upstream failures for a while.
-/

namespace Tollgate

variable {saved : HostMap ℕ} {call : Call} {calls past : List Call} {now : ℕ}

theorem Op.now_lt {op : Op} (timed : op.now? = some now) : now < 2 ^ 64 := by
  cases op with
  | forgetPins hosts => contradiction
  | _ =>
    cases timed
    exact UInt64.toNat_lt _

theorem callTimes_cons : callTimes (call :: past) = call.op.now?.toList ++ callTimes past := by
  rw [callTimes, List.filterMap_cons]
  cases call.op.now? <;> rfl

theorem lastTime_cons : lastTime (call :: past) = call.op.now?.getD (lastTime past) := by
  rw [lastTime, callTimes_cons]
  cases call.op.now? <;> rfl

theorem Ordered.tail (ordered : Ordered (call :: past)) : Ordered past := by
  rw [Ordered, callTimes_cons] at ordered
  exact (List.pairwise_append.mp ordered).2.1

/-- No call is later than the next one. -/
theorem Ordered.le_now (ordered : Ordered (call :: past)) (timed : call.op.now? = some now) :
    ∀ time ∈ callTimes past, time ≤ now := by
  rw [Ordered, callTimes_cons, timed] at ordered
  exact (List.pairwise_cons.mp ordered).1

theorem Ordered.lastTime_le (ordered : Ordered (call :: past)) (timed : call.op.now? = some now) :
    lastTime past ≤ now := by
  have bound := ordered.le_now timed
  unfold lastTime
  cases times : callTimes past with
  | nil => exact Nat.zero_le now
  | cons time rest => exact bound time (times ▸ List.mem_cons_self ..)

/-- The calls between two calls were made between their times. -/
theorem Ordered.between {later earlier : List Call} {next : Call} {time : ℕ}
    (ordered : Ordered (next :: (later ++ call :: earlier))) (timed : call.op.now? = some time)
    (nextTimed : next.op.now? = some now) : ∀ moment ∈ callTimes later, time ≤ moment ∧ moment ≤ now := by
  intro moment member
  have times : callTimes (later ++ call :: earlier) = callTimes later ++ time :: callTimes earlier := by
    rw [callTimes, List.filterMap_append, ← callTimes, ← callTimes, callTimes_cons, timed]
    rfl
  have upper := ordered.le_now nextTimed moment
  have sorted := ordered.tail
  rw [Ordered, times] at sorted
  rw [times] at upper
  exact ⟨(List.pairwise_append.mp sorted).2.2 moment member time (List.mem_cons_self ..),
    upper (List.mem_append_left _ member)⟩

theorem Ordered.of_suffix {moment : List Call} (ordered : Ordered calls) (suffix : moment <:+ calls) : Ordered moment :=
  ordered.sublist (suffix.sublist.filterMap _)

theorem mem_callTimes_of_suffix (suffix : call :: past <:+ calls) (timed : call.op.now? = some now) :
    now ∈ callTimes calls :=
  List.mem_filterMap.mpr ⟨call, suffix.subset (List.mem_cons_self ..), timed⟩

theorem unlisted_after (saved : HostMap ℕ) (calls : List Call) :
    Unlisted (afterCalls saved calls).book (latestLearning saved calls) := by
  induction calls with
  | nil => exact fun _ _ _ => ⟨nofun, nofun⟩
  | cons call past ih =>
    rw [afterCalls_cons_book, latestLearning_cons]
    exact ih.act _

/-- After a call at `now`, the lists are exact at `now`. -/
theorem Tracked.after_call {latest : Text → Option (Origin × ℕ)} {learning : Learning} {last : ℕ}
    (tracked : Tracked learning.book latest last) (call : Call)
    (ordered : ∀ now, call.op.now? = some now → last ≤ now) :
    Tracked (learning.call call).2.book ((learning.action call).note latest) (call.op.now?.getD last) := by
  obtain ⟨enabled, timed⟩ := learning.action_spec call
  have acted := tracked.act enabled fun now at_now =>
    ⟨ordered now (timed now at_now), Op.now_lt (timed now at_now)⟩
  rw [Learning.call_book]
  cases moment : (learning.action call).now? with
  | some now =>
    rw [moment] at acted
    rw [timed now moment]
    exact acted
  | none =>
    rw [moment] at acted
    apply acted.mono
    cases time : call.op.now? with
    | none => exact le_rfl
    | some now => exact ordered now time

theorem tracked_after (saved : HostMap ℕ) {calls : List Call} (ordered : Ordered calls) :
    Tracked (afterCalls saved calls).book (latestLearning saved calls) (lastTime calls) := by
  induction calls with
  | nil => exact Tracked.start saved 0
  | cons call past ih =>
    rw [latestLearning_cons, lastTime_cons]
    exact (ih ordered.tail).after_call call fun now timed => ordered.lastTime_le timed

section TakeBack

variable {ties : Ties} {host : Text} {time : ℕ} (pinned : (afterCalls saved calls).pins.lookup host = some time)

include pinned

/-- The operation behind a pin taught it at the time of the pin. -/
theorem learnedBy_eq_some_iff (ordered : Ordered calls) (origin : Origin) :
    learnedBy saved calls host = some origin ↔ latestLearning saved calls host = some (origin, time) := by
  rw [learnedBy, Option.map_eq_some_iff]
  constructor
  · rintro ⟨⟨other, learnedAt⟩, found, rfl⟩
    rw [found, (tracked_after saved ordered).agree pinned found]
  · exact fun found => ⟨_, found, rfl⟩

theorem lookup_after_expire (live : pinIsLive time now) :
    ((afterCalls saved calls).book.expire now).pins.lookup host = some time := by
  rw [Book.lookup_expire]
  exact Option.filter_eq_some_iff.mpr ⟨pinned, live⟩

/-- A call that finds no burst keeps the live pins, unless the network changes or pins are forgotten. -/
theorem lookup_after_calm (timed : call.op.now? = some now) (live : pinIsLive time now)
    (calm : (afterCalls saved calls).upkeep call = .idle ∨ (afterCalls saved calls).upkeep call = .expire now) :
    (afterCalls saved (call :: calls)).pins.lookup host = some time := by
  have kept := Book.lookup_live ((afterCalls saved calls).action_spec call).1 pinned live
    (Learning.action_calm _ timed calm)
  rw [← afterCalls_cons_book] at kept
  exact kept

theorem lookup_after_onNetworkChange {now : UInt64} (ordered : Ordered (⟨.onNetworkChange now, ties⟩ :: calls)) :
    (afterCalls saved (⟨.onNetworkChange now, ties⟩ :: calls)).pins.lookup host =
      if (learnedBy saved calls host = some .upstream ∧ now.toNat - time ≤ upstreamRecentSecs) ∨
        (learnedBy saved calls host = some .silent ∧ now.toNat - time ≤ silentRecentSecs) then none
      else some time := by
  have tracked := (tracked_after saved ordered.tail).mono (ordered.lastTime_le rfl)
  simp only [learnedBy_eq_some_iff pinned ordered.tail]
  exact tracked.lookup_takeFresh (UInt64.toNat_lt now) pinned

theorem lookup_after_learnUpstreamUntrusted {failed : Text} {now : UInt64}
    (ordered : Ordered (⟨.learnUpstreamUntrusted failed now, ties⟩ :: calls)) (live : pinIsLive time now.toNat) :
    (afterCalls saved (⟨.learnUpstreamUntrusted failed now, ties⟩ :: calls)).pins.lookup host =
      if (afterCalls saved calls).findsUpstreamBurst failed now.toNat ∧
        learnedBy saved calls host = some .upstream ∧ now.toNat - time ≤ upstreamBurstSecs then none
      else some time := by
  cases burst : (afterCalls saved calls).findsUpstreamBurst failed now.toNat with
  | true =>
    have tracked := (tracked_after saved ordered.tail).expire (ordered.lastTime_le rfl) (UInt64.toNat_lt now)
    simp only [learnedBy_eq_some_iff pinned ordered.tail, true_and]
    rw [← tracked.lookup_takeUpstream (UInt64.toNat_lt now) (lookup_after_expire pinned live)]
    change ((afterCalls saved calls).learnUpstreamUntrusted failed now.toNat).2.book.pins.lookup host = _
    rw [Learning.learnUpstreamUntrusted_burst burst, Learning.upstreamBurst_book, Learning.upstreamSuppressed_book,
      Learning.expirePins_book]
  | false =>
    rw [if_neg (by simp)]
    refine lookup_after_calm pinned rfl live ?_
    unfold Learning.upkeep
    dsimp only
    rw [burst]
    split
    · exact .inl rfl
    · exact .inr rfl

theorem lookup_after_recordSilentRefusal {refused : Text} {now : UInt64}
    (ordered : Ordered (⟨.recordSilentRefusal refused now, ties⟩ :: calls)) (live : pinIsLive time now.toNat) :
    (afterCalls saved (⟨.recordSilentRefusal refused now, ties⟩ :: calls)).pins.lookup host =
      if (afterCalls saved calls).findsSilentBurst ties refused now.toNat ∧
        learnedBy saved calls host = some .silent ∧ now.toNat - time ≤ silentBurstSecs then none
      else some time := by
  cases burst : (afterCalls saved calls).findsSilentBurst ties refused now.toNat with
  | true =>
    have tracked := (tracked_after saved ordered.tail).expire (ordered.lastTime_le rfl) (UInt64.toNat_lt now)
    simp only [learnedBy_eq_some_iff pinned ordered.tail, true_and]
    rw [← tracked.lookup_takeSilent (UInt64.toNat_lt now) (lookup_after_expire pinned live)]
    change ((afterCalls saved calls).recordSilentRefusal ties refused now.toNat).2.book.pins.lookup host = _
    rw [Learning.recordSilentRefusal_burst burst, Learning.silentBurst_book, Learning.noteSilentHost_book,
      Learning.expirePins_book]
  | false =>
    rw [if_neg (by simp)]
    refine lookup_after_calm pinned rfl live ?_
    unfold Learning.upkeep
    dsimp only
    rw [burst]
    split
    · exact .inl rfl
    · exact .inr rfl

theorem lookup_after_recordClientRejection {rejected : Text} {now : UInt64} (live : pinIsLive time now.toNat) :
    (afterCalls saved (⟨.recordClientRejection rejected now, ties⟩ :: calls)).pins.lookup host = some time := by
  refine lookup_after_calm pinned rfl live ?_
  unfold Learning.upkeep
  dsimp only
  split
  · exact .inl rfl
  · exact .inr rfl

theorem lookup_after_recordInterceptedHandshake {trusting : Text} {now : UInt64} :
    (afterCalls saved (⟨.recordInterceptedHandshake trusting now, ties⟩ :: calls)).pins.lookup host = some time := by
  have book := afterCalls_cons_book saved ⟨.recordInterceptedHandshake trusting now, ties⟩ calls
  exact (congrArg (fun book => book.pins.lookup host) book).trans pinned

theorem lookup_after_forgetPins {hosts : List Text} :
    (afterCalls saved (⟨.forgetPins hosts, ties⟩ :: calls)).pins.lookup host =
      if host ∈ hosts.map lookupKey then none else some time := by
  have book := afterCalls_cons_book saved ⟨.forgetPins hosts, ties⟩ calls
  have forgot := (Book.foldl_forget (hosts.map lookupKey) (afterCalls saved calls).book).1 host
  exact (congrArg (fun book => book.pins.lookup host) book).trans (pinned ▸ forgot)

end TakeBack

/-- The hosts whose pins were learned from upstream failures within one burst window. -/
def UpstreamWithin (book : Book) (latest : Text → Option (Origin × ℕ)) (start : ℕ) (hosts : Finset Text) : Prop :=
  ∀ host ∈ hosts, ∃ time, book.pins.lookup host = some time ∧ latest host = some (.upstream, time) ∧
    start ≤ time ∧ time ≤ start + upstreamBurstSecs

/-- No burst window holds enough of them for a burst. -/
def Sparse (book : Book) (latest : Text → Option (Origin × ℕ)) : Prop :=
  ∀ start hosts, UpstreamWithin book latest start hosts → hosts.card < upstreamBurstHosts

theorem Sparse.shrink {book smaller : Book} {latest : Text → Option (Origin × ℕ)} (sparse : Sparse book latest)
    (pins : ∀ {host time}, smaller.pins.lookup host = some time → book.pins.lookup host = some time) :
    Sparse smaller latest := by
  intro start hosts inWindow
  apply sparse start hosts
  intro host member
  obtain ⟨time, pinned, rest⟩ := inWindow host member
  exact ⟨time, pins pinned, rest⟩

/-- A host learned now leaves the pins sparse: if it is from an upstream failure, the others of its
window are in the list, and there were too few of them for a burst. -/
theorem Sparse.learn {book : Book} {latest : Text → Option (Origin × ℕ)} {origin : Origin} {key : Text}
    (sparse : Sparse book latest) (tracked : Tracked book latest now) (fits : now < 2 ^ 64)
    (few : origin = .upstream → ((book.window now).map Prod.fst).toFinset.card + 1 < upstreamBurstHosts) :
    Sparse (book.learn origin key now) (Function.update latest key (some (origin, now))) := by
  intro start hosts inWindow
  have earlier : ∀ host ∈ hosts.erase key, ∃ time, book.pins.lookup host = some time ∧
      latest host = some (.upstream, time) ∧ start ≤ time ∧ time ≤ start + upstreamBurstSecs := by
    intro host member
    obtain ⟨other, listed⟩ := Finset.mem_erase.mp member
    obtain ⟨time, pinned, found, bounds⟩ := inWindow host listed
    rw [Book.learn_pins, AList.lookup_insert_ne other] at pinned
    rw [Function.update_of_ne other] at found
    exact ⟨time, pinned, found, bounds⟩
  by_cases listed : key ∈ hosts
  · obtain ⟨time, pinned, found, first, final⟩ := inWindow key listed
    rw [Function.update_self] at found
    obtain ⟨rfl, rfl⟩ := Prod.mk.inj (Option.some.inj found)
    have inside : hosts.erase key ⊆ ((book.window now).map Prod.fst).toFinset := by
      intro host member
      obtain ⟨time, pinned, found, lower, -⟩ := earlier host member
      have counted := (tracked.mem_window fits pinned).mpr ⟨found, by omega⟩
      exact List.mem_toFinset.mpr (List.mem_map.mpr ⟨_, counted, rfl⟩)
    have bound := Finset.card_le_card inside
    have erased := Finset.card_erase_add_one listed
    have calm := few rfl
    omega
  · rw [Finset.erase_eq_of_notMem listed] at earlier
    exact sparse start hosts earlier

theorem Sparse.act {book : Book} {latest : Text → Option (Origin × ℕ)} {action : Action} {last : ℕ}
    (sparse : Sparse book latest) (tracked : Tracked book latest last) (enabled : action.Enabled book)
    (ordered : ∀ now, action.now? = some now → last ≤ now ∧ now < 2 ^ 64) :
    Sparse (book.act action) (action.note latest) := by
  have expired (now : ℕ) : Sparse (book.expire now) latest := by
    apply sparse.shrink
    intro host time pinned
    rw [Book.lookup_expire] at pinned
    exact (Option.filter_eq_some_iff.mp pinned).1
  cases action with
  | idle => exact sparse
  | expire now => exact expired now
  | learn origin key now =>
    obtain ⟨later, fits⟩ := ordered now rfl
    exact (expired now).learn (tracked.expire later fits) fits enabled.2
  | upstreamBurst now => exact (expired now).shrink fun pinned => (Book.lookup_foldl_takeBack_eq_some.mp pinned).1
  | silentBurst now => exact (expired now).shrink fun pinned => (Book.lookup_foldl_takeBack_eq_some.mp pinned).1
  | networkChange now => exact sparse.shrink fun pinned => (Book.lookup_takeFresh_eq_some.mp pinned).1.1
  | forget keys =>
    apply sparse.shrink
    intro host time pinned
    rw [Book.act, (Book.foldl_forget keys book).1] at pinned
    split at pinned
    · contradiction
    · exact pinned

theorem sparse_after (saved : HostMap ℕ) {calls : List Call} (ordered : Ordered calls) :
    Sparse (afterCalls saved calls).book (latestLearning saved calls) := by
  induction calls with
  | nil =>
    intro start hosts inWindow
    have none : hosts = ∅ := by
      apply Finset.eq_empty_of_forall_notMem
      intro host member
      obtain ⟨time, -, found, -⟩ := inWindow host member
      contradiction
    rw [none]
    decide
  | cons call past ih =>
    rw [latestLearning_cons, afterCalls_cons_book]
    obtain ⟨enabled, timed⟩ := (afterCalls saved past).action_spec call
    apply (ih ordered.tail).act (tracked_after saved ordered.tail) enabled
    intro now moment
    exact ⟨ordered.lastTime_le (timed now moment), Op.now_lt (timed now moment)⟩

namespace Learning

variable (learning : Learning) (ties : Ties) (host : Text) (now : ℕ)

private theorem countedRefusal_suppression :
    (learning.countedRefusal ties host now).2.upstreamSuppressedUntil = learning.upstreamSuppressedUntil := by
  unfold countedRefusal
  dsimp only
  split
  · unfold guardedRefusal logHeldBack
    dsimp only
    repeat' split
    all_goals rfl
  · unfold pendingRefusal
    dsimp only
    repeat' split
    all_goals rfl

private theorem recordSilentRefusal_suppression :
    (learning.recordSilentRefusal ties host now).2.upstreamSuppressedUntil = learning.upstreamSuppressedUntil := by
  have dropped (state : Learning) : (state.silentSuppressed now).2.upstreamSuppressedUntil =
      state.upstreamSuppressedUntil := by
    unfold silentSuppressed
    split <;> rfl
  unfold recordSilentRefusal
  dsimp only
  split
  · rfl
  · split
    · rfl
    · split
      · rfl
      · split
        · exact dropped _
        · exact (countedRefusal_suppression ..).trans (dropped _)

private theorem forgetPins_suppression (hosts : List Text) :
    (learning.forgetPins hosts).2.upstreamSuppressedUntil = learning.upstreamSuppressedUntil := by
  rw [forgetPins_state]
  induction hosts.map lookupKey generalizing learning with
  | nil => rfl
  | cons key rest ih => exact ih (learning.forgetPin key)

/-- While upstream failures are suppressed, one of them at most finds expired pins. -/
theorem learnUpstreamUntrusted_suppressed {stop : ℕ} (until_stop : learning.upstreamSuppressedUntil = some stop)
    (early : now < stop) (close : stop - now ≤ upstreamSuppressSecs) :
    learning.learnUpstreamUntrusted host now = (false, learning) ∨
      learning.learnUpstreamUntrusted host now = (false, learning.expirePins now) := by
  have suppressed : (learning.expirePins now).upstreamSuppressed now = (true, learning.expirePins now) := by
    have holds : suppresses upstreamSuppressSecs now (learning.expirePins now).upstreamSuppressedUntil = true := by
      rw [expirePins, until_stop]
      exact Bool.and_eq_true_iff.mpr ⟨decide_eq_true early, decide_eq_true close⟩
    rw [upstreamSuppressed, if_pos holds]
  unfold learnUpstreamUntrusted
  dsimp only
  rw [suppressed, if_pos rfl]
  split
  · exact .inl rfl
  · split <;> exact .inr rfl

/-- Only an upstream failure changes how long they are suppressed. -/
theorem call_suppressed {call : Call} {stop : ℕ} (until_stop : learning.upstreamSuppressedUntil = some stop)
    (early : ∀ now, call.op.now? = some now → now < stop ∧ stop - now ≤ upstreamSuppressSecs) :
    (learning.call call).2.upstreamSuppressedUntil = some stop := by
  obtain ⟨op, ties⟩ := call
  cases op with
  | learnUpstreamUntrusted host now =>
    obtain ⟨less, close⟩ := early now.toNat rfl
    change (learning.learnUpstreamUntrusted host now.toNat).2.upstreamSuppressedUntil = some stop
    rcases learnUpstreamUntrusted_suppressed learning host now.toNat until_stop less close with same | expired
    · rw [same, until_stop]
    · rw [expired, expirePins, until_stop]
  | recordSilentRefusal host now => exact (recordSilentRefusal_suppression ..).trans until_stop
  | forgetPins hosts => exact (forgetPins_suppression ..).trans until_stop
  | onNetworkChange now => exact until_stop
  | recordClientRejection host now =>
    refine Eq.trans ?_ until_stop
    change (learning.recordClientRejection ties host now.toNat).2.upstreamSuppressedUntil = _
    unfold recordClientRejection
    dsimp only
    repeat' split
    all_goals rfl
  | recordInterceptedHandshake host now =>
    refine Eq.trans ?_ until_stop
    change (learning.recordInterceptedHandshake ties host now.toNat).upstreamSuppressedUntil = _
    unfold recordInterceptedHandshake
    dsimp only
    split <;> rfl

end Learning

/-- A burst of upstream failures suppresses them until a fixed time. -/
theorem suppressed_of_burst {failed : Text} {time : UInt64} {ties : Ties} {earlier : List Call}
    (burst : (afterCalls saved earlier).findsUpstreamBurst failed time.toNat = true)
    (fits : time.toNat + upstreamSuppressSecs < 2 ^ 64) :
    (afterCalls saved (⟨.learnUpstreamUntrusted failed time, ties⟩ :: earlier)).upstreamSuppressedUntil =
      some (time.toNat + upstreamSuppressSecs) := by
  change ((afterCalls saved earlier).learnUpstreamUntrusted failed time.toNat).2.upstreamSuppressedUntil = _
  rw [Learning.learnUpstreamUntrusted_burst burst, Learning.upstreamBurst, Nat.mod_eq_of_lt fits]

/-- A suppression lasts through every call before its end. -/
theorem suppressed_after {later earlier : List Call} {stop : ℕ}
    (until_stop : (afterCalls saved earlier).upstreamSuppressedUntil = some stop)
    (early : ∀ time ∈ callTimes later, time < stop ∧ stop - time ≤ upstreamSuppressSecs) :
    (afterCalls saved (later ++ earlier)).upstreamSuppressedUntil = some stop := by
  induction later with
  | nil => exact until_stop
  | cons call later ih =>
    rw [callTimes_cons] at early
    have before := ih fun time member => early time (List.mem_append_right _ member)
    apply Learning.call_suppressed _ before
    intro now timed
    exact early now (List.mem_append_left _ (by simp [timed]))

/-- Until the suppression after a burst ends, an upstream failure at most finds expired pins. -/
theorem upstream_failure_ignored {later earlier : List Call} {failed host : Text} {time now : UInt64} {ties other : Ties}
    (burst : (afterCalls saved earlier).findsUpstreamBurst failed time.toNat = true)
    (fits : time.toNat + upstreamSuppressSecs < 2 ^ 64) (early : now.toNat < time.toNat + upstreamSuppressSecs)
    (ordered : Ordered (⟨.learnUpstreamUntrusted host now, other⟩ ::
      (later ++ ⟨.learnUpstreamUntrusted failed time, ties⟩ :: earlier))) :
    let learning := afterCalls saved (later ++ ⟨.learnUpstreamUntrusted failed time, ties⟩ :: earlier)
    learning.learnUpstreamUntrusted host now.toNat = (false, learning) ∨
      learning.learnUpstreamUntrusted host now.toNat = (false, learning.expirePins now.toNat) := by
  have within (moment : ℕ) (member : moment ∈ callTimes later) :
      moment < time.toNat + upstreamSuppressSecs ∧
        time.toNat + upstreamSuppressSecs - moment ≤ upstreamSuppressSecs := by
    obtain ⟨lower, upper⟩ := ordered.between rfl rfl moment member
    exact ⟨upper.trans_lt early, by omega⟩
  have since : time.toNat ≤ now.toNat := by
    apply ordered.le_now rfl
    exact List.mem_filterMap.mpr ⟨_, List.mem_append_right _ (List.mem_cons_self ..), rfl⟩
  apply Learning.learnUpstreamUntrusted_suppressed _ _ _ _ early (by omega)
  exact suppressed_after (suppressed_of_burst burst fits) within

end Tollgate
