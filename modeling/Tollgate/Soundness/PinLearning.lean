import Tollgate.Proofs.Policy.SilentRun

/-! # Learned pins, over every run of a policy

A silent refusal makes its host a pin exactly by the documented rule, over whole histories. Pins that
clients taught are never taken back automatically, under any clock. Under a clock that does not go
back, a burst or a network change takes back exactly the fresh pins of its kind, and the pins
learned from upstream failures never come close enough together for a network that intercepts to
leave three of them behind.
-/

namespace Tollgate

/-- Learning from silent refusals is the documented rule. -/
theorem silent_refusal_rule (saved : HostMap ℕ) (past : List Call) (host : Text) (now : UInt64) (ties : Ties)
    (ordered : Ordered (⟨.recordSilentRefusal host now, ties⟩ :: past))
    (few : (SilentRule.hostKeys (⟨.recordSilentRefusal host now, ties⟩ :: past)).card ≤ 1024)
    (short : past.length + 1 < 2 ^ 32)
    (bound : ∀ time ∈ callTimes (⟨.recordSilentRefusal host now, ties⟩ :: past), time < 2 ^ 64 - 1) :
    ((afterCalls saved past).recordSilentRefusal ties host now.toNat).1 = true ↔
      SilentRule.MakesPin saved past ⟨.recordSilentRefusal host now, ties⟩ := by
  have small : SilentRule.Small (⟨.recordSilentRefusal host now, ties⟩ :: past) := ⟨ordered, few, short, bound⟩
  have turn : SilentRule.Turn saved past host now ties (lastTime past) :=
    ⟨SilentRule.mirror_after saved small.tail, ordered.lastTime_le rfl, ordered, few, short,
      bound _ (by rw [callTimes_cons]; exact List.mem_cons_self ..)⟩
  exact turn.decides.1

/-- The third of three refusals in different seconds makes the host a pin. -/
theorem silent_refusal_third :
    let refusal (now : UInt64) : Call := ⟨.recordSilentRefusal "a.test".toList now, Ties.first⟩
    ((afterCalls ∅ [refusal 20, refusal 10]).recordSilentRefusal Ties.first "a.test".toList 30).1 = true ∧
      SilentRule.MakesPin ∅ [refusal 20, refusal 10] (refusal 30) := by
  have made : ((afterCalls ∅ [⟨.recordSilentRefusal "a.test".toList 20, Ties.first⟩,
      ⟨.recordSilentRefusal "a.test".toList 10, Ties.first⟩]).recordSilentRefusal Ties.first "a.test".toList 30).1 =
        true := by decide
  exact ⟨made, (silent_refusal_rule ∅ _ _ 30 _ (by decide) (by decide) (by decide)
    (by decide)).mp made⟩

/-- A pin that was saved or that a client taught goes only when its host is forgotten, or in a call other than a
network change that finds it expired. -/
theorem client_pin_not_taken_back (saved : HostMap ℕ) (calls : List Call) (call : Call) (host : Text) (time : ℕ)
    (pinned : (afterCalls saved calls).pins.lookup host = some time)
    (origin : learnedBy saved calls host = none ∨ learnedBy saved calls host = some .client) :
    (afterCalls saved (call :: calls)).pins.lookup host = some time ∨
      (∃ hosts, call.op = .forgetPins hosts ∧ host ∈ hosts.map lookupKey) ∨
      ∃ now, call.op.now? = some now ∧ pinIsLive time now = false ∧ ∀ moment, call.op ≠ .onNetworkChange moment := by
  have kept : Kept (latestLearning saved calls) host := by
    intro other learnedAt found
    rw [learnedBy, found] at origin
    rcases origin with none | client
    · contradiction
    · exact Option.some.inj client
  obtain ⟨upstream, silent⟩ := unlisted_after saved calls host kept time
  obtain ⟨enabled, timed⟩ := (afterCalls saved calls).action_spec call
  have acted := Book.lookup_act_of_unlisted pinned upstream silent enabled
  rw [← afterCalls_cons_book] at acted
  rcases acted with stays | ⟨keys, forgot, named⟩ | ⟨now, taken, dead, other⟩
  · exact .inl stays
  · exact .inr (.inl (Learning.forgets_of_action _ forgot named))
  · refine .inr (.inr ⟨now, timed now taken, dead, fun moment change => other ?_⟩)
    have acts := (afterCalls saved calls).action_onNetworkChange change
    rw [acts] at taken
    rw [acts, Option.some.inj taken]

/-- Two alerts make a host a pin, and the network changes when the pin has long expired. -/
theorem client_pin_survives_network_change :
    let rejection : Call := ⟨.recordClientRejection "a.test".toList 5, Ties.first⟩
    let change : Call := ⟨.onNetworkChange 3000000, Ties.first⟩
    (afterCalls ∅ [rejection, rejection]).pins.lookup "a.test".toList = some 5 ∧
      (afterCalls ∅ [change, rejection, rejection]).pins.lookup "a.test".toList = some 5 := by
  intro rejection change
  have pinned : (afterCalls ∅ [rejection, rejection]).pins.lookup "a.test".toList = some 5 := by decide
  refine ⟨pinned, ?_⟩
  rcases client_pin_not_taken_back ∅ _ change _ 5 pinned (.inr (by decide)) with
    stays | ⟨hosts, forgets, -⟩ | ⟨now, -, -, other⟩
  · exact stays
  · cases forgets
  · exact absurd rfl (other _)

/-- What each call does to a pin, under a clock that does not go back. -/
theorem take_back_exact (saved : HostMap ℕ) (calls : List Call) (call : Call) (ordered : Ordered (call :: calls))
    (host : Text) (time : ℕ) (pinned : (afterCalls saved calls).pins.lookup host = some time) :
    match call.op with
    | .onNetworkChange now =>
        (afterCalls saved (call :: calls)).pins.lookup host =
          if (learnedBy saved calls host = some .upstream ∧ now.toNat - time ≤ 300) ∨
            (learnedBy saved calls host = some .silent ∧ now.toNat - time ≤ 60) then none else some time
    | .learnUpstreamUntrusted failed now =>
        pinIsLive time now.toNat → (afterCalls saved (call :: calls)).pins.lookup host =
          if (afterCalls saved calls).findsUpstreamBurst failed now.toNat ∧
            learnedBy saved calls host = some .upstream ∧ now.toNat - time ≤ 60 then none else some time
    | .recordSilentRefusal refused now =>
        pinIsLive time now.toNat → (afterCalls saved (call :: calls)).pins.lookup host =
          if (afterCalls saved calls).findsSilentBurst call.ties refused now.toNat ∧
            learnedBy saved calls host = some .silent ∧ now.toNat - time ≤ 10 then none else some time
    | .recordClientRejection _ now =>
        pinIsLive time now.toNat → (afterCalls saved (call :: calls)).pins.lookup host = some time
    | .recordInterceptedHandshake _ _ => (afterCalls saved (call :: calls)).pins.lookup host = some time
    | .forgetPins hosts =>
        (afterCalls saved (call :: calls)).pins.lookup host =
          if host ∈ hosts.map lookupKey then none else some time := by
  obtain ⟨op, ties⟩ := call
  cases op with
  | onNetworkChange now => exact lookup_after_onNetworkChange pinned ordered
  | learnUpstreamUntrusted failed now => exact lookup_after_learnUpstreamUntrusted pinned ordered
  | recordSilentRefusal refused now => exact lookup_after_recordSilentRefusal pinned ordered
  | recordClientRejection rejected now => exact lookup_after_recordClientRejection pinned
  | recordInterceptedHandshake trusting now => exact lookup_after_recordInterceptedHandshake pinned
  | forgetPins hosts => exact lookup_after_forgetPins pinned

/-- A network change takes back a pin learned from an upstream failure 95 seconds before. -/
theorem network_change_takes_upstream_pin :
    let failure : Call := ⟨.learnUpstreamUntrusted "a.test".toList 5, Ties.first⟩
    let change : Call := ⟨.onNetworkChange 100, Ties.first⟩
    (afterCalls ∅ [failure]).pins.lookup "a.test".toList = some 5 ∧
      (afterCalls ∅ [change, failure]).pins.lookup "a.test".toList =
        if (learnedBy ∅ [failure] "a.test".toList = some .upstream ∧ 100 - 5 ≤ 300) ∨
          (learnedBy ∅ [failure] "a.test".toList = some .silent ∧ 100 - 5 ≤ 60) then none else some 5 :=
  ⟨by decide, take_back_exact ∅ [⟨.learnUpstreamUntrusted "a.test".toList 5, Ties.first⟩]
    ⟨.onNetworkChange 100, Ties.first⟩ (by decide) "a.test".toList 5 (by decide)⟩

/-- No closed minute holds the learning times of three upstream pins, and after a burst upstream
failures teach nothing for ten minutes. -/
theorem upstream_pins_sparse (saved : HostMap ℕ) (calls : List Call) (ordered : Ordered calls) :
    (∀ (start : ℕ) (hosts : Finset Text),
      (∀ host ∈ hosts, ∃ time, (afterCalls saved calls).pins.lookup host = some time ∧
        learnedBy saved calls host = some .upstream ∧ start ≤ time ∧ time ≤ start + 60) → hosts.card < 3) ∧
    ∀ (later earlier : List Call) (failed : Text) (time : UInt64) (ties : Ties),
      calls = later ++ ⟨.learnUpstreamUntrusted failed time, ties⟩ :: earlier →
      (afterCalls saved earlier).findsUpstreamBurst failed time.toNat = true → time.toNat + 600 < 2 ^ 64 →
      ∀ (host : Text) (now : UInt64) (ties : Ties), Ordered (⟨.learnUpstreamUntrusted host now, ties⟩ :: calls) →
        now.toNat < time.toNat + 600 →
        ((afterCalls saved calls).learnUpstreamUntrusted host now.toNat).1 = false ∧
          ∀ other learnedAt,
            ((afterCalls saved calls).learnUpstreamUntrusted host now.toNat).2.pins.lookup other = some learnedAt →
              (afterCalls saved calls).pins.lookup other = some learnedAt := by
  constructor
  · intro start hosts inWindow
    apply sparse_after saved ordered start hosts
    intro host member
    obtain ⟨time, pinned, origin, bounds⟩ := inWindow host member
    exact ⟨time, pinned, (learnedBy_eq_some_iff pinned ordered .upstream).mp origin, bounds⟩
  · rintro later earlier failed time ties rfl burst fits host now _ next early
    rcases upstream_failure_ignored burst fits early next with same | expired
    · rw [same]
      exact ⟨rfl, fun _ _ kept => kept⟩
    · rw [expired]
      refine ⟨rfl, fun other learnedAt kept => ?_⟩
      rw [Learning.expirePins, AList.lookup_retain] at kept
      exact (Option.filter_eq_some_iff.mp kept).1

/-- Two hosts in one minute are pins; a third would be a burst, and a fourth is ignored after it. -/
theorem upstream_burst_of_three :
    let failure (name : String) (now : UInt64) : Call := ⟨.learnUpstreamUntrusted name.toList now, Ties.first⟩
    (Finset.card {"a.test".toList, "b.test".toList} < 3) ∧
      ((afterCalls ∅ [failure "c.test" 30, failure "b.test" 20, failure "a.test" 10]).learnUpstreamUntrusted
        "d.test".toList 600).1 = false := by
  refine ⟨(upstream_pins_sparse ∅ [⟨.learnUpstreamUntrusted "b.test".toList 20, Ties.first⟩,
    ⟨.learnUpstreamUntrusted "a.test".toList 10, Ties.first⟩] (by decide)).1 10 _ ?_, ?_⟩
  · intro host member
    rcases Finset.mem_insert.mp member with rfl | last
    · exact ⟨10, by decide, by decide, by decide, by decide⟩
    · obtain rfl := Finset.mem_singleton.mp last
      exact ⟨20, by decide, by decide, by decide, by decide⟩
  · exact ((upstream_pins_sparse ∅ [⟨.learnUpstreamUntrusted "c.test".toList 30, Ties.first⟩,
      ⟨.learnUpstreamUntrusted "b.test".toList 20, Ties.first⟩,
      ⟨.learnUpstreamUntrusted "a.test".toList 10, Ties.first⟩] (by decide)).2 [] _ _ 30 _ rfl
      (by decide) (by decide) "d.test".toList 600 Ties.first (by decide) (by decide)).1

end Tollgate
