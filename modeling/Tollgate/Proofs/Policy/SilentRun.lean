import Tollgate.Proofs.Policy.SilentRefusal

/-! # The rule decides every silent refusal

In a history whose counts are mirrored, one more silent refusal decides as the rule says, and the
counts it leaves are mirrored again. With the other calls this carries the mirror through every run
on few enough hosts, so that the rule decides in each of them.
-/

namespace Tollgate.SilentRule

open Learning

section Refusal

variable {saved : HostMap ℕ} {past : List Call} {host : Text} {now : UInt64} {ties : Ties} {last : ℕ}

/-- What holds when a silent refusal is made. -/
structure Turn (saved : HostMap ℕ) (past : List Call) (host : Text) (now : UInt64) (ties : Ties) (last : ℕ) : Prop where
  mirror : Mirror saved past (afterCalls saved past) last
  later : last ≤ now.toNat
  ordered : Ordered (⟨.recordSilentRefusal host now, ties⟩ :: past)
  few : (hostKeys (⟨.recordSilentRefusal host now, ties⟩ :: past)).card ≤ maxRecentRejections
  short : past.length + 1 < 2 ^ 32
  bound : now.toNat < 2 ^ 64 - 1

theorem mem_hostKeys_refusal : lookupKey host ∈ hostKeys (⟨.recordSilentRefusal host now, ties⟩ :: past) := by
  simp [hostKeys]

theorem noted_refusal :
    noted saved (⟨.recordSilentRefusal host now, ties⟩ :: past) =
      if lookupKey host = [] ∨ hasLivePin saved past (lookupKey host) now.toNat then none
      else some (lookupKey host, now.toNat) := rfl

/-- A refusal that is no burst clears its host exactly when it makes it a pin. -/
theorem clears_refusal (calm : burst saved (⟨.recordSilentRefusal host now, ties⟩ :: past) = none) (key : Text) :
    clears saved key (⟨.recordSilentRefusal host now, ties⟩ :: past) =
      (((afterCalls saved past).recordSilentRefusal ties host now.toNat).1 && decide (key = lookupKey host)) := by
  rw [clears, calm, Bool.or_false, Option.isSome_none, Bool.false_or]
  exact learned_any

namespace Turn

variable (turn : Turn saved past host now ties last)

include turn

theorem time_le {time : ℕ} (earlier : time ∈ callTimes past) : time ≤ now.toNat := turn.ordered.le_now rfl time earlier

theorem noted_le : ∀ refusal ∈ notedSince saved past, refusal.2 ≤ now.toNat := fun _ member =>
  turn.time_le (mem_callTimes_of_since Prod.snd (fun _ _ found => newestTime_of_noted found) member)

theorem bursts_le : ∀ time ∈ bursts saved past, time ≤ now.toNat := fun _ member =>
  turn.time_le (mem_callTimes_of_since id (fun _ _ found => newestTime_of_burst found) member)

/-- A refusal that is not noted leaves every count alone. -/
theorem unnoted (unnoted : noted saved (⟨.recordSilentRefusal host now, ties⟩ :: past) = none) :
    ((afterCalls saved past).recordSilentRefusal ties host now.toNat).1 = false ∧
      Mirror saved (⟨.recordSilentRefusal host now, ties⟩ :: past)
        (afterCalls saved (⟨.recordSilentRefusal host now, ties⟩ :: past)) now.toNat := by
  have ignored : (afterCalls saved past).recordSilentRefusal ties host now.toNat = (false, afterCalls saved past) ∨
      (afterCalls saved past).recordSilentRefusal ties host now.toNat =
        (false, (afterCalls saved past).expirePins now.toNat) := by
    have reason : lookupKey host = [] ∨ hasLivePin saved past (lookupKey host) now.toNat = true := by
      by_contra other
      rw [noted_refusal, if_neg other] at unnoted
      contradiction
    unfold recordSilentRefusal
    rcases reason with unnamed | live
    · exact .inl (if_pos unnamed)
    · by_cases unnamed : lookupKey host = []
      · exact .inl (if_pos unnamed)
      · exact .inr ((if_neg unnamed).trans (if_pos (hasLivePin_iff.mp live)))
  have unmade : ((afterCalls saved past).recordSilentRefusal ties host now.toNat).1 = false := by
    rcases ignored with same | same <;> rw [same]
  refine ⟨unmade, turn.mirror.frame turn.later unnoted rfl (fun _ => rfl) ?_⟩
  have uncleared (key : Text) : clears saved key (⟨.recordSilentRefusal host now, ties⟩ :: past) = false := by
    rw [clears_refusal (burst_eq_none unnoted), unmade, Bool.false_and]
  simp only [uncleared]
  change Frame _ ((afterCalls saved past).recordSilentRefusal ties host now.toNat).2 _
  rcases ignored with same | same
  · rw [same]
    exact Frame.refl _
  · rw [same]
    constructor <;> simp [expirePins]

section Noted

variable (noted : noted saved (⟨.recordSilentRefusal host now, ties⟩ :: past) = some (lookupKey host, now.toNat))

include noted

theorem size_eq :
    (hostsWith (afterCalls saved past) (lookupKey host) now.toNat).size =
      (notedHosts saved (⟨.recordSilentRefusal host now, ties⟩ :: past) now.toNat).card :=
  turn.mirror.hosts.size_note turn.later (UInt64.toNat_lt now) noted rfl turn.noted_le

theorem burst_eq :
    burst saved (⟨.recordSilentRefusal host now, ties⟩ :: past) =
      if silentBurstHosts ≤ (hostsWith (afterCalls saved past) (lookupKey host) now.toNat).size then some now.toNat
      else none := by
  rw [burst, noted, turn.size_eq noted]

theorem recordSilentRefusal_eq :
    (afterCalls saved past).recordSilentRefusal ties host now.toNat =
      if silentBurstHosts ≤ (hostsWith (afterCalls saved past) (lookupKey host) now.toNat).size then
        (false, (notedState (afterCalls saved past) (lookupKey host) now.toNat).silentBurst now.toNat)
      else if suppresses silentSuppressSecs now.toNat (afterCalls saved past).silentSuppressedUntil then
        (false, notedState (afterCalls saved past) (lookupKey host) now.toNat)
      else { notedState (afterCalls saved past) (lookupKey host) now.toNat with
        silentSuppressedUntil := none }.countedRefusal ties (lookupKey host) now.toNat := by
  have refused : ¬ (lookupKey host = [] ∨ hasLivePin saved past (lookupKey host) now.toNat) := by
    intro reason
    rw [noted_refusal, if_pos reason] at noted
    contradiction
  obtain ⟨named, live⟩ := not_or.mp refused
  exact SilentRule.recordSilentRefusal_eq (fun key stored => hostKeys_subset (turn.mirror.hostsKeys key stored))
    mem_hostKeys_refusal turn.few named fun pinned => live (hasLivePin_iff.mpr pinned)

theorem hosts_mirror :
    HostsMirror (hostsWith (afterCalls saved past) (lookupKey host) now.toNat) saved
      (⟨.recordSilentRefusal host now, ties⟩ :: past) now.toNat :=
  turn.mirror.hosts.note turn.later (UInt64.toNat_lt now) noted rfl turn.noted_le

omit noted in
theorem hostsWith_keys : ∀ key ∈ hostsWith (afterCalls saved past) (lookupKey host) now.toNat,
    key ∈ hostKeys (⟨.recordSilentRefusal host now, ties⟩ :: past) := by
  intro key stored
  rcases (AList.mem_insert _).mp stored with same | old
  · exact same ▸ mem_hostKeys_refusal
  · exact hostKeys_subset (turn.mirror.hostsKeys key (AList.mem_of_mem_retain old))

/-- A burst clears every host, and suppresses what follows. -/
theorem burst_step (many : silentBurstHosts ≤ (hostsWith (afterCalls saved past) (lookupKey host) now.toNat).size) :
    ((afterCalls saved past).recordSilentRefusal ties host now.toNat).1 = false ∧
      counted saved (⟨.recordSilentRefusal host now, ties⟩ :: past) = none ∧
      Mirror saved (⟨.recordSilentRefusal host now, ties⟩ :: past)
        (afterCalls saved (⟨.recordSilentRefusal host now, ties⟩ :: past)) now.toNat := by
  have found := turn.burst_eq noted
  rw [if_pos many] at found
  have result := turn.recordSilentRefusal_eq noted
  rw [if_pos many] at result
  have state : afterCalls saved (⟨.recordSilentRefusal host now, ties⟩ :: past) =
      (notedState (afterCalls saved past) (lookupKey host) now.toNat).silentBurst now.toNat :=
    congrArg Prod.snd result
  have cleared (key : Text) : clears saved key (⟨.recordSilentRefusal host now, ties⟩ :: past) = true := by
    rw [clears, found, Option.isSome_some, Bool.true_or, Bool.true_or]
  refine ⟨by rw [result], ?_, ?_⟩
  · have inside : ((bursts saved (⟨.recordSilentRefusal host now, ties⟩ :: past)).any fun time =>
        now.toNat < time + silentSuppressSecs) = true := by
      rw [bursts_cons, found, List.any_append, Option.toList_some, List.any_cons,
        decide_eq_true (Nat.lt_add_of_pos_right (by decide)), Bool.true_or, Bool.true_or]
    rw [counted, noted]
    exact if_pos inside
  · rw [state]
    refine ⟨turn.hosts_mirror noted, .burst turn.bursts_le found, fun key => ?_, fun key => ?_,
      fun key => (turn.mirror.guard key).mono turn.later, turn.hostsWith_keys, fun key stored => ?_,
      fun key stored => ?_, fun key stored => hostKeys_subset (turn.mirror.trustedKeys key stored)⟩
    · rw [pendingSince_cons, cleared]
      exact Pending.empty _
    · rw [countedSince_cons, cleared]
      exact PerSecond.Window.empty _
    · exact absurd stored (AList.notMem_empty key)
    · exact absurd stored (AList.notMem_empty key)

section Calm

variable (few : ¬ silentBurstHosts ≤ (hostsWith (afterCalls saved past) (lookupKey host) now.toNat).size)

include few

theorem calm : burst saved (⟨.recordSilentRefusal host now, ties⟩ :: past) = none := by
  rw [turn.burst_eq noted, if_neg few]

/-- Without a burst, a refusal counts unless it is suppressed. -/
theorem counted_eq :
    counted saved (⟨.recordSilentRefusal host now, ties⟩ :: past) =
      if suppresses silentSuppressSecs now.toNat (afterCalls saved past).silentSuppressedUntil then none
      else some (lookupKey host, now.toNat) := by
  rw [counted, noted, turn.mirror.suppression now.toNat turn.later turn.bound, bursts_cons, turn.calm noted few]
  rfl

/-- A suppressed refusal is noted, and nothing else. -/
theorem suppressed_step
    (suppressed : suppresses silentSuppressSecs now.toNat (afterCalls saved past).silentSuppressedUntil = true) :
    ((afterCalls saved past).recordSilentRefusal ties host now.toNat).1 = false ∧
      counted saved (⟨.recordSilentRefusal host now, ties⟩ :: past) = none ∧
      Mirror saved (⟨.recordSilentRefusal host now, ties⟩ :: past)
        (afterCalls saved (⟨.recordSilentRefusal host now, ties⟩ :: past)) now.toNat := by
  have uncounted := turn.counted_eq noted few
  rw [if_pos suppressed] at uncounted
  have result := turn.recordSilentRefusal_eq noted
  rw [if_neg few, if_pos suppressed] at result
  have state : afterCalls saved (⟨.recordSilentRefusal host now, ties⟩ :: past) =
      notedState (afterCalls saved past) (lookupKey host) now.toNat := congrArg Prod.snd result
  have unmade : ((afterCalls saved past).recordSilentRefusal ties host now.toNat).1 = false := by rw [result]
  have kept (key : Text) : clears saved key (⟨.recordSilentRefusal host now, ties⟩ :: past) = false := by
    rw [clears_refusal (turn.calm noted few), unmade, Bool.false_and]
  refine ⟨unmade, uncounted, ?_⟩
  rw [state]
  refine ⟨turn.hosts_mirror noted, turn.mirror.suppression.keep turn.later (turn.calm noted few), fun key => ?_,
    fun key => ?_, fun key => (turn.mirror.guard key).mono turn.later, turn.hostsWith_keys,
    fun key stored => hostKeys_subset (turn.mirror.pendingKeys key stored),
    fun key stored => hostKeys_subset (turn.mirror.floodKeys key stored),
    fun key stored => hostKeys_subset (turn.mirror.trustedKeys key stored)⟩
  · rw [pendingSince_cons, kept, quietOf_eq_none uncounted]
    exact (turn.mirror.pending key).mono turn.later
  · rw [countedSince_cons, kept, countedOf_eq_none uncounted]
    exact (turn.mirror.flood key).mono turn.later

end Calm

end Noted

/-! A counted refusal is decided in the state that follows the note. -/

/-- The refusals counted for a flood, this one included. -/
theorem floodWith_window :
    PerSecond.Window (floodWith (afterCalls saved past) (lookupKey host) now.toNat)
      (now.toNat :: countedSince saved (lookupKey host) past) now.toNat :=
  (turn.mirror.flood (lookupKey host)).add turn.later (UInt64.toNat_lt now)
    ((Nat.add_le_add_right (Machine.length_since_le past) 1).trans_lt turn.short)

theorem flood_count :
    PerSecond.count (floodWith (afterCalls saved past) (lookupKey host) now.toNat) now.toNat =
      ((lately silentFloodSecs now.toNat (now.toNat :: countedSince saved (lookupKey host) past)).length,
        (lately silentFloodSecs now.toNat (now.toNat :: countedSince saved (lookupKey host) past)).toFinset.card) :=
  turn.floodWith_window.count_eq le_rfl (UInt64.toNat_lt now)
    ((Nat.add_le_add_right (Machine.length_since_le past) 1).trans_lt turn.short)

theorem guard_iff :
    guardHolds (afterCalls saved past) (lookupKey host) now.toNat = true ↔
      lately rejectionWindowSecs now.toNat (handshakes (lookupKey host) past) ≠ [] :=
  (turn.mirror.guard (lookupKey host)).holds_iff turn.later (UInt64.toNat_lt now)

theorem handshake_count :
    (afterCalls saved past).recentHandshakes (lookupKey host) now.toNat =
      (lately silentFloodSecs now.toNat (handshakes (lookupKey host) past)).length :=
  (turn.mirror.guard (lookupKey host)).recentHandshakes_eq turn.later (UInt64.toNat_lt now) rfl
    ((Machine.length_since_le past).trans_lt (Nat.lt_of_succ_lt turn.short))

/-- What is pending for a guarded host is out of the window. -/
theorem pending_guarded (guarded : guardHolds (afterCalls saved past) (lookupKey host) now.toNat = true) :
    Pending [] (pendingSince saved (lookupKey host) past) now.toNat where
  nodup := List.nodup_nil
  short := by decide
  le := nofun
  mem_iff time young := by
    refine ⟨nofun, fun member => ?_⟩
    obtain ⟨shaken, recent⟩ := List.exists_mem_of_ne_nil _ (turn.guard_iff.mp guarded)
    obtain ⟨stored, close⟩ := mem_lately.mp recent
    have order : time ≤ now.toNat := turn.time_le (mem_callTimes_of_since id
      (fun _ _ found => newestTime_of_countedOf (Option.filter_eq_some_iff.mp found).1) member)
    have here : shaken ∈ lately rejectionWindowSecs time (handshakes (lookupKey host) past) :=
      mem_lately.mpr ⟨stored, by omega⟩
    rw [lately_handshakes_of_pending member] at here
    contradiction

theorem quiet_of_unguarded (unguarded : guardHolds (afterCalls saved past) (lookupKey host) now.toNat = false) :
    lately rejectionWindowSecs now.toNat (handshakes (lookupKey host) past) = [] := by
  by_contra recent
  rw [turn.guard_iff.mpr recent] at unguarded
  contradiction

/-- The different quiet seconds, this one included, when no handshake guards the host. -/
theorem quiet_card (unguarded : guardHolds (afterCalls saved past) (lookupKey host) now.toNat = false) :
    (lately rejectionWindowSecs now.toNat (now.toNat :: quietSince saved (lookupKey host) past)).toFinset.card =
      (if now.toNat ∈ secondsOf (afterCalls saved past) (lookupKey host) now.toNat then 0 else 1) +
        (secondsOf (afterCalls saved past) (lookupKey host) now.toNat).length := by
  have quiet := turn.quiet_of_unguarded unguarded
  have card := (turn.mirror.pending (lookupKey host)).card_eq turn.later (UInt64.toNat_lt now)
  refine Eq.trans (congrArg Finset.card ?_) card
  ext time
  simp only [List.mem_toFinset, mem_lately, List.mem_cons]
  refine and_congr_left fun young => or_congr_right ?_
  exact (mem_pendingSince_iff turn.ordered.tail quiet young).symm

/-- The state a counted refusal is decided in. -/
def heard (saved : HostMap ℕ) (past : List Call) (host : Text) (now : UInt64) : Learning :=
  { notedState (afterCalls saved past) (lookupKey host) now.toNat with silentSuppressedUntil := none }

omit turn in
theorem countedOf_refusal
    (counted : counted saved (⟨.recordSilentRefusal host now, ties⟩ :: past) = some (lookupKey host, now.toNat))
    (key : Text) :
    countedOf saved key (⟨.recordSilentRefusal host now, ties⟩ :: past) =
      if key = lookupKey host then some now.toNat else none := by
  rw [countedOf, counted]
  simp only [eq_comm]

omit turn in
theorem quietOf_refusal
    (counted : counted saved (⟨.recordSilentRefusal host now, ties⟩ :: past) = some (lookupKey host, now.toNat)) :
    quietOf saved (lookupKey host) (⟨.recordSilentRefusal host now, ties⟩ :: past) =
      if lately rejectionWindowSecs now.toNat (handshakes (lookupKey host) past) = [] then some now.toNat else none := by
  have shaken : handshakes (lookupKey host) (⟨.recordSilentRefusal host now, ties⟩ :: past) =
      handshakes (lookupKey host) past := handshakes_cons
  rw [quietOf, countedOf_refusal counted, if_pos rfl, shaken, Option.filter_some]
  simp only [decide_eq_true_eq]

/-- What a counted refusal decides, and the counts of its host that it leaves. -/
structure Outcome (saved : HostMap ℕ) (past : List Call) (host : Text) (now : UInt64) (ties : Ties)
    (result : Bool × Learning) : Prop where
  decides : result.1 = true ↔
    (lately rejectionWindowSecs now.toNat (handshakes (lookupKey host) past) = [] ∧
      silentRefusals ≤ (lately rejectionWindowSecs now.toNat
        (now.toNat :: quietSince saved (lookupKey host) past)).toFinset.card) ∨
    (lately rejectionWindowSecs now.toNat (handshakes (lookupKey host) past) ≠ [] ∧
      silentFloodSeconds ≤ (lately silentFloodSecs now.toNat
        (now.toNat :: countedSince saved (lookupKey host) past)).toFinset.card ∧
      silentFloodRatio * (lately silentFloodSecs now.toNat (handshakes (lookupKey host) past)).length ≤
        (lately silentFloodSecs now.toNat (now.toNat :: countedSince saved (lookupKey host) past)).length)
  leaves : ∃ pending, CountedStep (heard saved past host now) result.2 (lookupKey host)
      (if result.1 then none else pending)
      (if result.1 then none else some (floodWith (afterCalls saved past) (lookupKey host) now.toNat)) ∧
    (result.1 = false → Pending (pending.getD [])
      ((quietOf saved (lookupKey host) (⟨.recordSilentRefusal host now, ties⟩ :: past)).toList ++
        pendingSince saved (lookupKey host) past) now.toNat)

/-- While a client trusts us, the flood decides. -/
theorem guarded_outcome
    (counted : counted saved (⟨.recordSilentRefusal host now, ties⟩ :: past) = some (lookupKey host, now.toNat))
    (guarded : guardHolds (afterCalls saved past) (lookupKey host) now.toNat = true) :
    Outcome saved past host now ties ((heard saved past host now).countedRefusal ties (lookupKey host) now.toNat) := by
  have floodKeys : ∀ key ∈ (heard saved past host now).silentFlood,
      key ∈ hostKeys (⟨.recordSilentRefusal host now, ties⟩ :: past) :=
    fun key stored => hostKeys_subset (turn.mirror.floodKeys key stored)
  have recent := turn.guard_iff.mp guarded
  obtain ⟨made, step⟩ := countedRefusal_guarded floodKeys mem_hostKeys_refusal turn.few ties guarded
  have flood : ((heard saved past host now).countedRefusal ties (lookupKey host) now.toNat).1 = true ↔ _ :=
    Bool.eq_iff_iff.mp made |>.trans isFlood_iff
  rw [← made] at step
  refine ⟨?_, none, ?_, fun _ => ?_⟩
  · have counts : PerSecond.count (floodWith (heard saved past host now) (lookupKey host) now.toNat) now.toNat = _ :=
      turn.flood_count
    have handshakes : (heard saved past host now).recentHandshakes (lookupKey host) now.toNat = _ :=
      turn.handshake_count
    rw [flood, counts, handshakes]
    exact ⟨fun met => .inr ⟨recent, met⟩, fun either => either.elim (fun quiet => absurd quiet.1 recent) And.right⟩
  · rw [ite_self]
    exact step
  · rw [quietOf_refusal counted, if_neg recent]
    exact turn.pending_guarded guarded

/-- Otherwise the quiet seconds decide. -/
theorem pending_outcome
    (counted : counted saved (⟨.recordSilentRefusal host now, ties⟩ :: past) = some (lookupKey host, now.toNat))
    (unguarded : guardHolds (afterCalls saved past) (lookupKey host) now.toNat = false) :
    Outcome saved past host now ties ((heard saved past host now).countedRefusal ties (lookupKey host) now.toNat) := by
  have floodKeys : ∀ key ∈ (heard saved past host now).silentFlood,
      key ∈ hostKeys (⟨.recordSilentRefusal host now, ties⟩ :: past) :=
    fun key stored => hostKeys_subset (turn.mirror.floodKeys key stored)
  have pendingKeys : ∀ key ∈ (heard saved past host now).silentPending,
      key ∈ hostKeys (⟨.recordSilentRefusal host now, ties⟩ :: past) :=
    fun key stored => hostKeys_subset (turn.mirror.pendingKeys key stored)
  have quiet := turn.quiet_of_unguarded unguarded
  have pending := turn.mirror.pending (lookupKey host)
  have card := turn.quiet_card unguarded
  obtain ⟨made, step⟩ :=
    countedRefusal_pending floodKeys mem_hostKeys_refusal turn.few ties pendingKeys unguarded
  rw [← made] at step
  have enough : ((heard saved past host now).countedRefusal ties (lookupKey host) now.toNat).1 = true ↔
      now.toNat ∉ secondsOf (afterCalls saved past) (lookupKey host) now.toNat ∧
        silentRefusals ≤ (secondsOf (afterCalls saved past) (lookupKey host) now.toNat).length + 1 := by
    rw [made]
    exact decide_eq_true_iff
  have few : (secondsOf (afterCalls saved past) (lookupKey host) now.toNat).length < silentRefusals :=
    (List.length_filter_le ..).trans_lt pending.short
  refine ⟨?_, _, step, fun unmade => ?_⟩
  · rw [enough, card]
    constructor
    · rintro ⟨first, many⟩
      rw [if_neg first]
      exact .inl ⟨quiet, by omega⟩
    · rintro (⟨-, many⟩ | ⟨recent, -⟩)
      · split at many
        · omega
        · next first => exact ⟨first, by omega⟩
      · exact absurd quiet recent
  · rw [quietOf_refusal counted, if_pos quiet]
    have fits := UInt64.toNat_lt now
    change Pending (if now.toNat ∈ secondsOf (afterCalls saved past) (lookupKey host) now.toNat then _ else _) _ _
    split
    · next again => exact pending.again turn.later fits again
    · next first =>
      refine pending.add turn.later fits first ?_
      have short : ¬ silentRefusals ≤ (secondsOf (afterCalls saved past) (lookupKey host) now.toNat).length + 1 := by
        intro many
        rw [enough.mpr ⟨first, many⟩] at unmade
        contradiction
      rw [List.length_append, List.length_singleton]
      exact not_le.mp short

theorem outcome
    (counted : counted saved (⟨.recordSilentRefusal host now, ties⟩ :: past) = some (lookupKey host, now.toNat)) :
    Outcome saved past host now ties ((heard saved past host now).countedRefusal ties (lookupKey host) now.toNat) := by
  cases guarded : guardHolds (afterCalls saved past) (lookupKey host) now.toNat with
  | true => exact turn.guarded_outcome counted guarded
  | false => exact turn.pending_outcome counted guarded

section CountedMirror

variable (noted : noted saved (⟨.recordSilentRefusal host now, ties⟩ :: past) = some (lookupKey host, now.toNat))
  (few : ¬ silentBurstHosts ≤ (hostsWith (afterCalls saved past) (lookupKey host) now.toNat).size)
  (unsuppressed : suppresses silentSuppressSecs now.toNat (afterCalls saved past).silentSuppressedUntil = false)

include noted few unsuppressed

theorem counted_of_unsuppressed :
    counted saved (⟨.recordSilentRefusal host now, ties⟩ :: past) = some (lookupKey host, now.toNat) := by
  rw [turn.counted_eq noted few, if_neg (Bool.eq_false_iff.mp unsuppressed)]

/-- A counted refusal keeps the mirror, if it does so for its own host. -/
theorem mirror_of_counted {after : Learning} {pending : Option (List ℕ)} {flood : Option PerSecond}
    (step : CountedStep (heard saved past host now) after (lookupKey host) pending flood)
    (ownPending : Pending (pending.getD [])
      (pendingSince saved (lookupKey host) (⟨.recordSilentRefusal host now, ties⟩ :: past)) now.toNat)
    (ownFlood : PerSecond.Window (flood.getD [])
      (countedSince saved (lookupKey host) (⟨.recordSilentRefusal host now, ties⟩ :: past)) now.toNat) :
    Mirror saved (⟨.recordSilentRefusal host now, ties⟩ :: past) after now.toNat := by
  have calm := turn.calm noted few
  have counted := turn.counted_of_unsuppressed noted few unsuppressed
  have kept {key : Text} (other : key ≠ lookupKey host) :
      clears saved key (⟨.recordSilentRefusal host now, ties⟩ :: past) = false := by
    rw [clears_refusal calm, decide_eq_false other, Bool.and_false]
  have uncounted {key : Text} (other : key ≠ lookupKey host) :
      countedOf saved key (⟨.recordSilentRefusal host now, ties⟩ :: past) = none := by
    rw [countedOf_refusal counted, if_neg other]
  refine ⟨?_, ?_, fun key => ?_, fun key => ?_, fun key => ?_, ?_, fun key stored => ?_, fun key stored => ?_, ?_⟩
  · rw [step.hosts]
    exact turn.hosts_mirror noted
  · rw [step.suppressed]
    exact turn.mirror.suppression.drop turn.later turn.bound unsuppressed calm
  · rw [step.pendingOf]
    split
    · next same => exact same ▸ ownPending
    · next other =>
      rw [pendingSince_cons, kept other, quietOf, uncounted other]
      exact (turn.mirror.pending key).mono turn.later
  · rw [step.floodOf]
    split
    · next same => exact same ▸ ownFlood
    · next other =>
      rw [countedSince_cons, kept other, uncounted other]
      exact (turn.mirror.flood key).mono turn.later
  · rw [step.trusted]
    exact (turn.mirror.guard key).mono turn.later
  · rw [step.hosts]
    exact turn.hostsWith_keys
  · rw [← AList.lookup_isSome, step.pendingOf] at stored
    split at stored
    · next same => exact same ▸ mem_hostKeys_refusal
    · exact hostKeys_subset (turn.mirror.pendingKeys key (AList.lookup_isSome.mp stored))
  · rw [← AList.lookup_isSome, step.floodOf] at stored
    split at stored
    · next same => exact same ▸ mem_hostKeys_refusal
    · exact hostKeys_subset (turn.mirror.floodKeys key (AList.lookup_isSome.mp stored))
  · rw [step.trusted]
    exact fun key stored => hostKeys_subset (turn.mirror.trustedKeys key stored)

theorem counted_step :
    Outcome saved past host now ties ((afterCalls saved past).recordSilentRefusal ties host now.toNat) ∧
      Mirror saved (⟨.recordSilentRefusal host now, ties⟩ :: past)
        (afterCalls saved (⟨.recordSilentRefusal host now, ties⟩ :: past)) now.toNat := by
  have counted := turn.counted_of_unsuppressed noted few unsuppressed
  have result := turn.recordSilentRefusal_eq noted
  rw [if_neg few, if_neg (Bool.eq_false_iff.mp unsuppressed)] at result
  have outcome : Outcome saved past host now ties ((afterCalls saved past).recordSilentRefusal ties host now.toNat) :=
    result ▸ turn.outcome counted
  refine ⟨outcome, ?_⟩
  obtain ⟨-, pending, step, left⟩ := outcome
  apply turn.mirror_of_counted noted few unsuppressed step
  · rw [pendingSince_cons, clears_refusal (turn.calm noted few), decide_eq_true rfl, Bool.and_true]
    cases made : ((afterCalls saved past).recordSilentRefusal ties host now.toNat).1 with
    | true => exact Pending.empty _
    | false => exact left made
  · rw [countedSince_cons, clears_refusal (turn.calm noted few), decide_eq_true rfl, Bool.and_true,
      countedOf_refusal counted, if_pos rfl]
    cases made : ((afterCalls saved past).recordSilentRefusal ties host now.toNat).1 with
    | true => exact PerSecond.Window.empty _
    | false => exact turn.floodWith_window

end CountedMirror

/-- A silent refusal makes its host a pin exactly by the rule, and the counts mirror the history again. -/
theorem decides :
    (((afterCalls saved past).recordSilentRefusal ties host now.toNat).1 = true ↔
      MakesPin saved past ⟨.recordSilentRefusal host now, ties⟩) ∧
      Mirror saved (⟨.recordSilentRefusal host now, ties⟩ :: past)
        (afterCalls saved (⟨.recordSilentRefusal host now, ties⟩ :: past)) now.toNat := by
  have never (unmade : ((afterCalls saved past).recordSilentRefusal ties host now.toNat).1 = false)
      (uncounted : counted saved (⟨.recordSilentRefusal host now, ties⟩ :: past) = none) :
      ((afterCalls saved past).recordSilentRefusal ties host now.toNat).1 = true ↔
        MakesPin saved past ⟨.recordSilentRefusal host now, ties⟩ := by
    rw [unmade]
    refine ⟨nofun, ?_⟩
    rintro ⟨name, time, found, -⟩
    rw [uncounted] at found
    contradiction
  by_cases ignored : lookupKey host = [] ∨ hasLivePin saved past (lookupKey host) now.toNat
  · have unnoted : noted saved (⟨.recordSilentRefusal host now, ties⟩ :: past) = none := if_pos ignored
    obtain ⟨unmade, mirror⟩ := turn.unnoted unnoted
    exact ⟨never unmade (counted_eq_none unnoted), mirror⟩
  · have found : noted saved (⟨.recordSilentRefusal host now, ties⟩ :: past) = some (lookupKey host, now.toNat) :=
      if_neg ignored
    by_cases many : silentBurstHosts ≤ (hostsWith (afterCalls saved past) (lookupKey host) now.toNat).size
    · obtain ⟨unmade, uncounted, mirror⟩ := turn.burst_step found many
      exact ⟨never unmade uncounted, mirror⟩
    · cases suppressed : suppresses silentSuppressSecs now.toNat (afterCalls saved past).silentSuppressedUntil with
      | true =>
        obtain ⟨unmade, uncounted, mirror⟩ := turn.suppressed_step found many suppressed
        exact ⟨never unmade uncounted, mirror⟩
      | false =>
        have counted := turn.counted_of_unsuppressed found many suppressed
        obtain ⟨outcome, mirror⟩ := turn.counted_step found many suppressed
        refine ⟨outcome.decides.trans ⟨fun met => ⟨_, _, counted, met⟩, ?_⟩, mirror⟩
        rintro ⟨name, time, same, met⟩
        cases Option.some.inj (counted.symm.trans same)
        exact met

end Turn

end Refusal

/-- The runs the rule is about: an honest clock, few hosts and countably many calls. -/
structure Small (calls : List Call) : Prop where
  ordered : Ordered calls
  few : (hostKeys calls).card ≤ maxRecentRejections
  short : calls.length < 2 ^ 32
  bound : ∀ time ∈ callTimes calls, time < 2 ^ 64 - 1

theorem Small.tail {call : Call} {past : List Call} (small : Small (call :: past)) : Small past where
  ordered := small.ordered.tail
  few := (Finset.card_le_card hostKeys_subset).trans small.few
  short := Nat.lt_of_succ_lt small.short
  bound time member := small.bound time (by rw [callTimes_cons]; exact List.mem_append_right _ member)

/-- After every small run the counts of a policy mirror its history. -/
theorem mirror_after (saved : HostMap ℕ) {calls : List Call} (small : Small calls) :
    Mirror saved calls (afterCalls saved calls) (lastTime calls) := by
  induction calls with
  | nil => exact Mirror.start saved
  | cons call past ih =>
    have mirror := ih small.tail
    have later {now : ℕ} (timed : call.op.now? = some now) := small.ordered.lastTime_le timed
    obtain ⟨op, ties⟩ := call
    rw [lastTime_cons]
    cases op with
    | recordClientRejection host now => exact mirror.recordClientRejection (later rfl)
    | recordSilentRefusal host now =>
      have bound : now.toNat < 2 ^ 64 - 1 := small.bound _ (by rw [callTimes_cons]; exact List.mem_cons_self ..)
      have turn : Turn saved past host now ties (lastTime past) :=
        ⟨mirror, later rfl, small.ordered, small.few, small.short, bound⟩
      exact turn.decides.2
    | recordInterceptedHandshake host now =>
      exact mirror.recordInterceptedHandshake (later rfl) small.few small.short
    | learnUpstreamUntrusted host now => exact mirror.learnUpstreamUntrusted (later rfl)
    | onNetworkChange now => exact mirror.onNetworkChange (later rfl)
    | forgetPins hosts => exact mirror.forgetPins

end Tollgate.SilentRule
