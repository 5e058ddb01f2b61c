import Tollgate.Proofs.Policy.PinRuns
import Tollgate.Proofs.Policy.SilentFrame
import Tollgate.Proofs.Policy.SilentRefusal

/-! # When a rejection by alert makes a host a pin

The policy keeps one time for each host that a client rejected. Two other ways to learn a pin erase
it, a full map drops it when it is stale, and forgetting the host erases it too. The rule is stated
over the history of calls alone: a rejection makes its host a pin when an earlier one, shortly
before, was not settled in between. `Heard` relates the stored times to that history.
-/

namespace Tollgate.AlertRule

open Learning SilentRule

section Rule

variable (saved : HostMap ℕ)

/-- The newest call is a rejection of the host by alert while it had no live pin; its time. -/
def alert (host : Text) : List Call → Option ℕ
  | [] => none
  | call :: past =>
      match call.op with
      | .recordClientRejection name now =>
          if lookupKey name = host ∧ hasLivePin saved past host now.toNat = false then some now.toNat else none
      | _ => none

/-- A rejection of the host at `now` makes it a pin: it has no live pin, and an earlier rejection at
most ten minutes before was not settled by a later call. -/
def MakesPin (past : List Call) (host : Text) (now : ℕ) : Prop :=
  hasLivePin saved past host now = false ∧
    ∃ moment time, moment <:+ past ∧ alert saved host moment = some time ∧ now - time ≤ 600 ∧
      ∀ later, later <:+ past → moment <:+ later → later ≠ moment → settles saved host later = false

/-- The times of the unsettled rejections. -/
def alerts (host : Text) (history : List Call) : List ℕ := Machine.since (settles saved host) (alert saved host) history

end Rule

variable {saved : HostMap ℕ} {host key : Text} {call : Call} {past history : List Call} {now time last : ℕ}

theorem now_of_alert (heard : alert saved key (call :: past) = some time) : call.op.now? = some time := by
  obtain ⟨op, ties⟩ := call
  cases op with
  | recordClientRejection name moment => exact (Option.ite_none_right_eq_some.mp heard).2
  | _ => contradiction

/-- The stored times are those of unsettled rejections, and none that can still count is missing. -/
structure Heard (saved : HostMap ℕ) (history : List Call) (recent : HostMap ℕ) (last : ℕ) : Prop where
  inside : ∀ key ∈ recent, key ∈ hostKeys history
  sound : ∀ key time, recent.lookup key = some time → time ∈ alerts saved key history
  past : ∀ key, ∀ time ∈ alerts saved key history, time ≤ last
  complete : ∀ key, key ≠ [] → ∀ time ∈ alerts saved key history, ∀ now, last ≤ now →
    now - time ≤ rejectionWindowSecs → ∃ newest, recent.lookup key = some newest ∧ time ≤ newest

theorem Heard.start (saved : HostMap ℕ) : Heard saved [] ∅ 0 := ⟨nofun, nofun, nofun, nofun⟩

/-- Times of unsettled rejections stay in the past. -/
theorem Heard.past_cons {recent : HostMap ℕ} (heard : Heard saved past recent last) (later : last ≤ now)
    (timed : ∀ time, call.op.now? = some time → time ≤ now) :
    ∀ key, ∀ time ∈ alerts saved key (call :: past), time ≤ now := by
  intro key time member
  rw [alerts, Machine.since] at member
  split at member
  · contradiction
  · rcases List.mem_append.mp member with here | earlier
    · exact timed time (now_of_alert (Option.mem_toList.mp here))
    · exact (heard.past key time earlier).trans later

/-- A call that stores no time keeps the relation, if it drops exactly what it settles. -/
theorem Heard.frame {before after : HostMap ℕ} (heard : Heard saved past before last) (later : last ≤ now)
    (timed : ∀ time, call.op.now? = some time → time ≤ now)
    (quiet : ∀ key, key ≠ [] → settles saved key (call :: past) = false → alert saved key (call :: past) = none)
    (kept : ∀ key, after.lookup key = if settles saved key (call :: past) then none else before.lookup key) :
    Heard saved (call :: past) after now where
  inside key member := hostKeys_subset (heard.inside key (mem_of_lookup (kept key) member))
  past := heard.past_cons later timed
  sound key time stored := by
    rw [kept] at stored
    split at stored
    · contradiction
    · next unsettled =>
      rw [alerts, Machine.since_cons (Bool.eq_false_iff.mpr unsettled)]
      exact List.mem_append_right _ (heard.sound key time stored)
  complete key named time member moment order young := by
    cases settled : settles saved key (call :: past) with
    | true =>
      rw [alerts, Machine.since_cleared settled] at member
      contradiction
    | false =>
      rw [alerts, Machine.since_cons settled, quiet key named settled] at member
      rw [kept, settled]
      exact heard.complete key named time member moment (later.trans order) young

/-! ## The stored times after each operation -/

theorem learnUpstreamUntrusted_recent (learning : Learning) (host : Text) (now : ℕ) :
    (learning.learnUpstreamUntrusted host now).2.recent =
      if (learning.learnUpstreamUntrusted host now).1 then learning.recent.erase (lookupKey host)
      else learning.recent := by
  have suppressed : ((learning.expirePins now).upstreamSuppressed now).2.recent = learning.recent := by
    unfold upstreamSuppressed
    split <;> rfl
  unfold learnUpstreamUntrusted
  dsimp only
  split
  · rfl
  · split
    · rfl
    · split
      · exact suppressed
      · split
        · exact suppressed
        · rw [if_pos rfl, ← suppressed]
          rfl

theorem countedRefusal_recent (learning : Learning) (ties : Ties) (key : Text) (now : ℕ) :
    (learning.countedRefusal ties key now).2.recent =
      if (learning.countedRefusal ties key now).1 then learning.recent.erase key else learning.recent := by
  have logged (state : Learning) (counts : FloodCounts) :
      (state.logHeldBack ties key counts now).recent = state.recent := by
    unfold logHeldBack
    dsimp only
    split_ifs <;> rfl
  unfold countedRefusal
  dsimp only
  split
  · unfold guardedRefusal
    dsimp only
    split
    · rfl
    · exact logged _ _
  · unfold pendingRefusal
    dsimp only
    split
    · rfl
    · split <;> rfl

theorem recordSilentRefusal_recent (learning : Learning) (ties : Ties) (host : Text) (now : ℕ) :
    (learning.recordSilentRefusal ties host now).2.recent =
      if (learning.recordSilentRefusal ties host now).1 then learning.recent.erase (lookupKey host)
      else learning.recent := by
  have suppressed (state : Learning) : (state.silentSuppressed now).2.recent = state.recent := by
    unfold silentSuppressed
    split <;> rfl
  unfold recordSilentRefusal
  dsimp only
  split
  · rfl
  · split
    · rfl
    · split
      · rfl
      · split
        · exact suppressed _
        · rw [countedRefusal_recent, suppressed]
          rfl

theorem recordInterceptedHandshake_recent (learning : Learning) (ties : Ties) (host : Text) (now : ℕ) :
    (learning.recordInterceptedHandshake ties host now).recent = learning.recent := by
  unfold recordInterceptedHandshake
  dsimp only
  split <;> rfl

theorem forgetPins_recent (learning : Learning) (hosts : List Text) (key : Text) :
    (learning.forgetPins hosts).2.recent.lookup key =
      if key ∈ hosts.map lookupKey then none else learning.recent.lookup key := by
  rw [forgetPins_state]
  induction hosts.map lookupKey generalizing learning with
  | nil => rfl
  | cons name rest ih =>
    rw [List.foldl_cons, ih, forgetPin, AList.lookup_erase_eq_ite]
    by_cases same : key = name <;> simp [same]

/-- The outcomes of a rejection by alert of a host that has no live pin. -/
theorem recordClientRejection_of_free {learning : Learning} (ties : Ties) (named : lookupKey host ≠ [])
    (free : lookupKey host ∉ (learning.expirePins now).pins) :
    ((learning.recordClientRejection ties host now).1 =
      (learning.recent.lookup (lookupKey host)).any fun previous => within previous now rejectionWindowSecs) ∧
    (learning.recordClientRejection ties host now).2.recent =
      if (learning.recordClientRejection ties host now).1 then learning.recent.erase (lookupKey host)
      else (makeRoom ties (fun time => within time now rejectionWindowSecs) id learning.recent).insert
        (lookupKey host) now := by
  have recent : (learning.expirePins now).recent = learning.recent := rfl
  unfold recordClientRejection
  dsimp only
  rw [if_neg named, if_neg free, recent]
  split
  · next fresh => exact ⟨fresh.symm, rfl⟩
  · next stale => exact ⟨(Bool.eq_false_iff.mpr stale).symm, rfl⟩

/-- A rejection of a host with a live pin, or of no host, changes no stored time. -/
theorem recordClientRejection_of_pinned {learning : Learning} (ties : Ties)
    (idle : lookupKey host = [] ∨ lookupKey host ∈ (learning.expirePins now).pins) :
    (learning.recordClientRejection ties host now).1 = false ∧
      (learning.recordClientRejection ties host now).2.recent = learning.recent := by
  unfold recordClientRejection
  dsimp only
  split
  · exact ⟨rfl, rfl⟩
  · next named =>
    rw [if_pos (idle.resolve_left named)]
    exact ⟨rfl, rfl⟩

/-- Room for a host of a small run is made by dropping stale entries only, when its own is stale. -/
theorem lookup_makeRoom {V : Type} {map : HostMap V} {domain : Finset Text} {fresh : V → Bool} (ties : Ties)
    (newest : V → ℕ) (inside : ∀ key ∈ map, key ∈ domain) (member : key ∈ domain)
    (few : domain.card ≤ maxRecentRejections) (stale : ∀ value, map.lookup key = some value → fresh value = false) :
    makeRoom ties fresh newest map = map ∨ makeRoom ties fresh newest map = map.retain fun _ value => fresh value := by
  unfold makeRoom
  dsimp only
  split
  · exact .inl rfl
  · have absent : key ∉ map.retain fun _ value => fresh value := by
      intro kept
      obtain ⟨value, found⟩ := Option.isSome_iff_exists.mp (AList.lookup_isSome.mpr kept)
      rw [AList.lookup_retain, Option.filter_eq_some_iff] at found
      exact absurd found.2 (by rw [stale value found.1]; nofun)
    have room := (AList.size_lt_card (fun a kept => inside a (AList.mem_of_mem_retain kept)) member absent).trans_le few
    rw [if_pos room]
    exact .inr rfl

/-! ## Runs -/

theorem settles_of_learned {op : Op} {ties : Ties} {made : Bool} {origin : Origin × ℕ}
    (learned : (afterCalls saved past).learned ⟨op, ties⟩ = if made then some (host, origin) else none)
    (keeps : ∀ hosts, op ≠ .forgetPins hosts) :
    settles saved key (⟨op, ties⟩ :: past) = (made && decide (key = host)) := by
  rw [settles, learned, learned_any]
  cases op with
  | forgetPins hosts => exact absurd rfl (keeps hosts)
  | _ => exact Bool.or_false _

/-- A call that makes one host a pin at most, and stores no time. -/
theorem Heard.teach {op : Op} {ties : Ties} {made : Bool} {origin : Origin × ℕ} {before after : HostMap ℕ}
    (heard : Heard saved past before last) (later : last ≤ now) (timed : op.now? = some now)
    (learned : (afterCalls saved past).learned ⟨op, ties⟩ = if made then some (host, origin) else none)
    (quiet : ∀ key, key ≠ [] → (made && decide (key = host)) = false → alert saved key (⟨op, ties⟩ :: past) = none)
    (state : after = if made then before.erase host else before) : Heard saved (⟨op, ties⟩ :: past) after now := by
  have settled (key : Text) : settles saved key (⟨op, ties⟩ :: past) = (made && decide (key = host)) := by
    apply settles_of_learned learned
    rintro hosts rfl
    contradiction
  refine heard.frame later (fun time same => (Option.some.inj (timed.symm.trans same)).ge) ?_ fun key => ?_
  · intro key named unsettled
    exact quiet key named ((settled key).symm.trans unsettled)
  · rw [settled, state]
    cases made with
    | false => rfl
    | true => simp [AList.lookup_erase_eq_ite]

/-- A call that makes no host a pin. -/
theorem Heard.keep {op : Op} {ties : Ties} {recent : HostMap ℕ} (heard : Heard saved past recent last)
    (later : last ≤ now) (timed : op.now? = some now) (learned : (afterCalls saved past).learned ⟨op, ties⟩ = none)
    (quiet : ∀ key, alert saved key (⟨op, ties⟩ :: past) = none) : Heard saved (⟨op, ties⟩ :: past) recent now := by
  have unmade : (afterCalls saved past).learned ⟨op, ties⟩ = if false then some ([], .client, now) else none := learned
  exact heard.teach later timed unmade (fun key _ _ => quiet key) rfl

theorem Heard.forgetPins {ties : Ties} {hosts : List Text} (heard : Heard saved past (afterCalls saved past).recent last) :
    Heard saved (⟨.forgetPins hosts, ties⟩ :: past) (afterCalls saved (⟨.forgetPins hosts, ties⟩ :: past)).recent
      last := by
  refine heard.frame le_rfl nofun (fun _ _ _ => rfl) fun key => ?_
  have settled : settles saved key (⟨.forgetPins hosts, ties⟩ :: past) = decide (key ∈ hosts.map lookupKey) := rfl
  rw [settled]
  simp only [decide_eq_true_eq]
  exact forgetPins_recent (afterCalls saved past) hosts key

section Rejection

variable {ties : Ties} {now : UInt64} (heard : Heard saved past (afterCalls saved past).recent last)
  (later : last ≤ now.toNat)

theorem alert_rejection : alert saved key (⟨.recordClientRejection host now, ties⟩ :: past) =
    if lookupKey host = key ∧ hasLivePin saved past key now.toNat = false then some now.toNat else none := rfl

include heard later

/-- A stored time counts exactly when an unsettled rejection lies in the window. -/
theorem Heard.fresh_iff (named : key ≠ []) :
    ((afterCalls saved past).recent.lookup key).any (fun previous => within previous now.toNat rejectionWindowSecs) =
      true ↔ ∃ time ∈ alerts saved key past, now.toNat - time ≤ rejectionWindowSecs := by
  have young (time : ℕ) (stored : (afterCalls saved past).recent.lookup key = some time) :
      within time now.toNat rejectionWindowSecs = true ↔ now.toNat - time ≤ rejectionWindowSecs := by
    have order : time ≤ now.toNat := (heard.past key time (heard.sound key time stored)).trans later
    rw [within_of_le order (UInt64.toNat_lt now), decide_eq_true_eq]
  rw [Option.any_eq_true]
  constructor
  · rintro ⟨time, stored, fresh⟩
    exact ⟨time, heard.sound key time stored, (young time stored).mp fresh⟩
  · rintro ⟨time, member, recent⟩
    obtain ⟨newest, stored, order⟩ := heard.complete key named time member now.toNat later recent
    exact ⟨newest, stored, (young newest stored).mpr (by omega)⟩

/-- A first rejection stores its time, and no other time that can still count goes. -/
theorem Heard.store (few : (hostKeys (⟨.recordClientRejection host now, ties⟩ :: past)).card ≤ maxRecentRejections)
    (named : lookupKey host ≠ []) (free : lookupKey host ∉ ((afterCalls saved past).expirePins now.toNat).pins)
    (first : ((afterCalls saved past).recordClientRejection ties host now.toNat).1 = false) :
    Heard saved (⟨.recordClientRejection host now, ties⟩ :: past)
      (afterCalls saved (⟨.recordClientRejection host now, ties⟩ :: past)).recent now.toNat := by
  obtain ⟨found, state⟩ := recordClientRejection_of_free ties named free
  rw [first] at found state
  have state : (afterCalls saved (⟨.recordClientRejection host now, ties⟩ :: past)).recent =
      (makeRoom ties (fun time => within time now.toNat rejectionWindowSecs) id (afterCalls saved past).recent).insert
        (lookupKey host) now.toNat := state
  have stale (time : ℕ) (stored : (afterCalls saved past).recent.lookup (lookupKey host) = some time) :
      within time now.toNat rejectionWindowSecs = false := by
    rw [stored] at found
    exact found.symm
  have member : lookupKey host ∈ hostKeys (⟨.recordClientRejection host now, ties⟩ :: past) := by simp [hostKeys]
  have room := lookup_makeRoom ties id (fun key stored => hostKeys_subset (heard.inside key stored)) member few stale
  have unsettled (key : Text) : settles saved key (⟨.recordClientRejection host now, ties⟩ :: past) = false := by
    have learned : (afterCalls saved past).learned ⟨.recordClientRejection host now, ties⟩ =
        if ((afterCalls saved past).recordClientRejection ties host now.toNat).1 then
          some (lookupKey host, .client, now.toNat) else none := rfl
    have keeps : ∀ hosts, Op.recordClientRejection host now ≠ .forgetPins hosts := by
      intro hosts same
      cases same
    rw [settles_of_learned learned keeps, first]
    rfl
  have sub {key : Text} {time : ℕ} (stored : (makeRoom ties (fun time => within time now.toNat rejectionWindowSecs) id
      (afterCalls saved past).recent).lookup key = some time) : (afterCalls saved past).recent.lookup key = some time := by
    rcases room with same | retained
    · rwa [same] at stored
    · rw [retained, AList.lookup_retain] at stored
      exact (Option.filter_eq_some_iff.mp stored).1
  have past_le : ∀ key, ∀ time ∈ alerts saved key (⟨.recordClientRejection host now, ties⟩ :: past), time ≤ now.toNat :=
    heard.past_cons later fun time same => (Option.some.inj same).ge
  rw [state]
  refine ⟨fun key stored => ?_, fun key time stored => ?_, past_le, fun key nonempty time unheard moment order young => ?_⟩
  · rcases (AList.mem_insert _).mp stored with rfl | old
    · exact member
    · obtain ⟨time, kept⟩ := Option.isSome_iff_exists.mp (AList.lookup_isSome.mpr old)
      exact hostKeys_subset (heard.inside key (AList.lookup_isSome.mp (Option.isSome_of_eq_some (sub kept))))
  · rw [alerts, Machine.since_cons (unsettled key), List.mem_append]
    rw [AList.lookup_insert_eq_ite] at stored
    split at stored
    · next same =>
      have live : hasLivePin saved past key now.toNat = false := by
        rw [same, Bool.eq_false_iff]
        exact fun pinned => free (hasLivePin_iff.mp pinned)
      rw [alert_rejection, if_pos ⟨same.symm, live⟩]
      exact .inl (Option.mem_toList.mpr stored)
    · exact .inr (heard.sound key time (sub stored))
  · rw [AList.lookup_insert_eq_ite]
    split
    · exact ⟨now.toNat, rfl, past_le key time unheard⟩
    · next other =>
      rw [alerts, Machine.since_cons (unsettled key), alert_rejection, if_neg fun both => other both.1.symm] at unheard
      obtain ⟨newest, stored, newer⟩ := heard.complete key nonempty time unheard moment (later.trans order) young
      refine ⟨newest, ?_, newer⟩
      have fresh : within newest now.toNat rejectionWindowSecs = true := by
        have early : newest ≤ now.toNat := (heard.past key newest (heard.sound key newest stored)).trans later
        rw [within_of_le early (UInt64.toNat_lt now), decide_eq_true_eq]
        omega
      rcases room with same | retained
      · rwa [same]
      · rw [retained, AList.lookup_retain, stored]
        exact Option.filter_eq_some_iff.mpr ⟨rfl, fresh⟩

theorem Heard.recordClientRejection
    (few : (hostKeys (⟨.recordClientRejection host now, ties⟩ :: past)).card ≤ maxRecentRejections) :
    Heard saved (⟨.recordClientRejection host now, ties⟩ :: past)
      (afterCalls saved (⟨.recordClientRejection host now, ties⟩ :: past)).recent now.toNat := by
  by_cases idle : lookupKey host = [] ∨ lookupKey host ∈ ((afterCalls saved past).expirePins now.toNat).pins
  · obtain ⟨unmade, state⟩ := recordClientRejection_of_pinned ties idle
    refine heard.teach later rfl rfl (fun key named _ => ?_) ?_
    · rw [alert_rejection]
      refine if_neg fun both => ?_
      obtain ⟨rfl, live⟩ := both
      exact absurd (hasLivePin_iff.mpr (idle.resolve_left named)) (by rw [live]; nofun)
    · exact state.trans (if_neg (Bool.eq_false_iff.mp unmade)).symm
  · obtain ⟨named, free⟩ := not_or.mp idle
    cases made : ((afterCalls saved past).recordClientRejection ties host now.toNat).1 with
    | false => exact heard.store later few named free made
    | true =>
      obtain ⟨-, state⟩ := recordClientRejection_of_free ties named free
      rw [made] at state
      refine heard.teach later rfl rfl (fun key _ unsettled => ?_) (state.trans (if_pos made).symm)
      rw [alert_rejection]
      refine if_neg fun both => ?_
      exact absurd unsettled (by rw [both.1]; simp [Learning.call, made])

end Rejection

/-- After every run of a small number of hosts under a clock that does not go back, the stored times
are those of the unsettled rejections. -/
theorem heard_after (saved : HostMap ℕ) {calls : List Call} (ordered : Ordered calls)
    (few : (hostKeys calls).card ≤ maxRecentRejections) :
    Heard saved calls (afterCalls saved calls).recent (lastTime calls) := by
  induction calls with
  | nil => exact Heard.start saved
  | cons call past ih =>
    have heard := ih ordered.tail ((Finset.card_le_card hostKeys_subset).trans few)
    have later {now : ℕ} (timed : call.op.now? = some now) := ordered.lastTime_le timed
    obtain ⟨op, ties⟩ := call
    rw [lastTime_cons]
    cases op with
    | recordClientRejection host now => exact heard.recordClientRejection (later rfl) few
    | recordSilentRefusal host now =>
      exact heard.teach (later rfl) rfl rfl (fun _ _ _ => rfl) (recordSilentRefusal_recent ..)
    | recordInterceptedHandshake host now =>
      have state : (afterCalls saved (⟨.recordInterceptedHandshake host now, ties⟩ :: past)).recent =
          (afterCalls saved past).recent := recordInterceptedHandshake_recent ..
      rw [state]
      exact heard.keep (later rfl) rfl rfl fun _ => rfl
    | learnUpstreamUntrusted host now =>
      exact heard.teach (later rfl) rfl rfl (fun _ _ _ => rfl) (learnUpstreamUntrusted_recent ..)
    | onNetworkChange now => exact heard.keep (later rfl) rfl rfl fun _ => rfl
    | forgetPins hosts => exact heard.forgetPins

/-! ## The rule -/

theorem mem_callTimes_of_alert {moment : List Call} (alerted : alert saved key moment = some time)
    (suffix : moment <:+ history) : time ∈ callTimes history := by
  cases moment with
  | nil => contradiction
  | cons call past => exact mem_callTimes_of_suffix suffix (now_of_alert alerted)

theorem learned_of_alert (alerted : alert saved key (call :: past) = some time)
    (made : settles saved key (call :: past) = true) :
    (afterCalls saved past).learned call = some (key, .client, time) := by
  obtain ⟨op, ties⟩ := call
  cases op with
  | recordClientRejection host now =>
    obtain ⟨⟨rfl, -⟩, moment⟩ := Option.ite_none_right_eq_some.mp alerted
    obtain rfl := Option.some.inj moment
    rw [settles, Bool.or_false, Learning.learned, learned_any, Bool.and_eq_true] at made
    exact if_pos made.1
  | _ => contradiction

/-- A call that does not settle a host neither makes it a pin nor forgets it. -/
theorem action_of_unsettled (unsettled : settles saved key (call :: past) = false) :
    (∀ origin now, (afterCalls saved past).action call ≠ .learn origin key now) ∧
      ∀ keys, (afterCalls saved past).action call = .forget keys → key ∉ keys := by
  obtain ⟨unmade, kept⟩ := Bool.or_eq_false_iff.mp unsettled
  constructor
  · intro origin now learns
    cases made : (afterCalls saved past).learned call with
    | none =>
      rw [Learning.action, made] at learns
      exact upkeep_ne_learn _ _ call learns
    | some learned =>
      rw [Learning.action, made] at learns
      obtain ⟨-, same, -⟩ := Action.learn.inj learns
      rw [made, Option.any_some, same, decide_eq_false_iff_not] at unmade
      exact unmade rfl
  · intro keys forgets named
    obtain ⟨hosts, op, member⟩ := forgets_of_action _ forgets named
    rw [op] at kept
    exact of_decide_eq_false kept member

/-- A host that a rejection made a pin keeps it for the window, unless a call in between settles it. -/
theorem pinned_of_made {moment : List Call} (ordered : Ordered history) (alerted : alert saved key moment = some time)
    (made : settles saved key moment = true) (young : ∀ later ∈ callTimes history, later - time ≤ rejectionWindowSecs)
    (unsettled : ∀ later, later <:+ history → moment <:+ later → later ≠ moment → settles saved key later = false) :
    ∀ later, later <:+ history → moment <:+ later →
      (afterCalls saved later).pins.lookup key = some time ∧ latestLearning saved later key = some (.client, time) := by
  intro later
  induction later with
  | nil =>
    intro _ covers
    rw [List.suffix_nil.mp covers] at alerted
    contradiction
  | cons call past ih =>
    intro suffix covers
    have book := afterCalls_cons_book saved call past
    rw [latestLearning_cons]
    rcases List.suffix_cons_iff.mp covers with rfl | earlier
    · have learns : (afterCalls saved past).action call = .learn .client key time := by
        rw [Learning.action, learned_of_alert alerted made]
      rw [learns] at book ⊢
      have pins : (afterCalls saved (call :: past)).pins = _ := congrArg Book.pins book
      rw [pins]
      exact ⟨AList.lookup_insert .., note_learn ..⟩
    · obtain ⟨pinned, latest⟩ := ih ((List.suffix_cons ..).trans suffix) earlier
      have different : call :: past ≠ moment := by
        rintro rfl
        exact absurd earlier.length_le (by simp)
      obtain ⟨others, unforgotten⟩ := action_of_unsettled (unsettled _ suffix covers different)
      obtain ⟨enabled, timed⟩ := (afterCalls saved past).action_spec call
      refine ⟨?_, (note_of_ne others).trans latest⟩
      have kept : Kept (latestLearning saved past) key := by
        intro origin learnedAt found
        exact (congrArg Prod.fst (Option.some.inj (found.symm.trans latest)))
      obtain ⟨upstream, silent⟩ := unlisted_after saved past key kept time
      have pins : (afterCalls saved (call :: past)).pins = _ := congrArg Book.pins book
      rw [pins]
      rcases Book.lookup_act_of_unlisted pinned upstream silent enabled with stays | ⟨keys, forgets, named⟩ |
        ⟨now, acts, dead, -⟩
      · exact stays
      · exact absurd named (unforgotten keys forgets)
      · have order : time ≤ now := (ordered.of_suffix suffix).le_now (timed now acts) time (mem_callTimes_of_alert alerted earlier)
        have recent := young now (mem_callTimes_of_suffix suffix (timed now acts))
        rw [pinIsLive, within_of_le order (Op.now_lt (timed now acts)), decide_eq_false_iff_not] at dead
        exact absurd (recent.trans (by decide)) dead

/-- The rule in terms of the unsettled rejections. -/
theorem makesPin_iff {ties : Ties} {now : UInt64} {host : Text}
    (ordered : Ordered (⟨.recordClientRejection host now, ties⟩ :: past)) :
    MakesPin saved past key now.toNat ↔ hasLivePin saved past key now.toNat = false ∧
      ∃ time ∈ alerts saved key past, now.toNat - time ≤ rejectionWindowSecs := by
  refine and_congr_right fun free => ?_
  constructor
  · rintro ⟨moment, time, suffix, alerted, recent, unsettled⟩
    refine ⟨time, Machine.mem_since_iff.mpr ⟨moment, suffix, alerted, ?_, fun later inside covers => ?_⟩, recent⟩
    · rintro rfl
      contradiction
    · by_cases here : later = moment
      · rw [here, Bool.eq_false_iff]
        intro made
        have young (later : ℕ) (earlier : later ∈ callTimes past) : later - time ≤ rejectionWindowSecs :=
          (Nat.sub_le_sub_right (ordered.le_now rfl later earlier) time).trans recent
        obtain ⟨pinned, -⟩ := pinned_of_made ordered.tail alerted made young unsettled past (List.suffix_refl _) suffix
        have order := ordered.le_now rfl time (mem_callTimes_of_alert alerted suffix)
        rw [hasLivePin, pinned, Option.any_some, pinIsLive, within_of_le order (UInt64.toNat_lt now),
          decide_eq_false_iff_not] at free
        exact free (recent.trans (by decide))
      · exact unsettled later inside covers here
  · rintro ⟨time, member, recent⟩
    obtain ⟨moment, suffix, alerted, -, kept⟩ := Machine.mem_since_iff.mp member
    exact ⟨moment, time, suffix, alerted, recent, fun later inside covers _ => kept later inside covers⟩

/-- A rejection by alert makes its host a pin exactly by the rule over the history, with its time. -/
theorem client_alert_rule (saved : HostMap ℕ) (past : List Call) (host : Text) (now : UInt64) (ties : Ties)
    (named : lookupKey host ≠ []) (ordered : Ordered (⟨.recordClientRejection host now, ties⟩ :: past))
    (few : (hostKeys (⟨.recordClientRejection host now, ties⟩ :: past)).card ≤ 1024) :
    (((afterCalls saved past).recordClientRejection ties host now.toNat).1 = true ↔
      MakesPin saved past (lookupKey host) now.toNat) ∧
    (((afterCalls saved past).recordClientRejection ties host now.toNat).1 = true →
      ((afterCalls saved past).recordClientRejection ties host now.toNat).2.pins.lookup (lookupKey host) =
        some now.toNat) := by
  constructor
  · rw [makesPin_iff ordered, Bool.eq_false_iff, ne_eq, hasLivePin_iff]
    by_cases pinned : lookupKey host ∈ ((afterCalls saved past).expirePins now.toNat).pins
    · rw [(recordClientRejection_of_pinned ties (.inr pinned)).1]
      exact ⟨nofun, fun both => absurd pinned both.1⟩
    · have heard := heard_after saved ordered.tail ((Finset.card_le_card hostKeys_subset).trans few)
      rw [(recordClientRejection_of_free ties named pinned).1, heard.fresh_iff (ordered.lastTime_le rfl) named]
      exact (and_iff_right pinned).symm
  · intro made
    have book := (afterCalls saved past).recordClientRejection_book ties host now.toNat
    rw [if_pos made] at book
    have pins : ((afterCalls saved past).recordClientRejection ties host now.toNat).2.pins = _ := congrArg Book.pins book
    rw [pins]
    exact AList.lookup_insert ..

theorem client_alert_second :
    let rejection (now : UInt64) : Call := ⟨.recordClientRejection "a.test".toList now, Ties.first⟩
    ((afterCalls ∅ [rejection 10]).recordClientRejection Ties.first "a.test".toList 610).1 = true ∧
      MakesPin ∅ [rejection 10] "a.test".toList 610 := by
  have made : ((afterCalls ∅ [⟨.recordClientRejection "a.test".toList 10, Ties.first⟩]).recordClientRejection Ties.first
      "a.test".toList 610).1 = true := by decide
  exact ⟨made, (client_alert_rule ∅ _ _ 610 Ties.first (by decide) (by decide) (by decide)).1.mp made⟩

end Tollgate.AlertRule
