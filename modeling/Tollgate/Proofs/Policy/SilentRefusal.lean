import Tollgate.Proofs.Policy.SilentFrame

/-! # A noted silent refusal

A noted refusal completes a burst, is suppressed, or counts. The first part says what a counted
refusal decides and which counts it leaves, without the history; the second reads this in the
history, which gives both the decision of the rule and the mirror after the call.
-/

namespace Tollgate.SilentRule

open Learning

variable {saved : HostMap ℕ} {host key : Text} {past history : List Call} {now time last : ℕ} {ties : Ties}

/-- What a counted refusal does: only the counts of its host change. -/
structure CountedStep (before after : Learning) (key : Text) (pending : Option (List ℕ)) (flood : Option PerSecond) :
    Prop where
  hosts : after.silentHosts = before.silentHosts
  suppressed : after.silentSuppressedUntil = before.silentSuppressedUntil
  trusted : after.trusted = before.trusted
  pendingOf : ∀ other, after.silentPending.lookup other = if other = key then pending
    else before.silentPending.lookup other
  floodOf : ∀ other, after.silentFlood.lookup other = if other = key then flood else before.silentFlood.lookup other

variable {learning : Learning} {domain : Finset Text}

/-- The refusals of a host with one more, in the flood window. -/
def floodWith (learning : Learning) (key : Text) (now : ℕ) : PerSecond :=
  PerSecond.add ((learning.silentFlood.lookup key).getD []) now

/-- The pending seconds of a host that are still in the window. -/
def secondsOf (learning : Learning) (key : Text) (now : ℕ) : List ℕ :=
  ((learning.silentPending.lookup key).getD []).filter fun time => within time now rejectionWindowSecs

def guardHolds (learning : Learning) (key : Text) (now : ℕ) : Bool :=
  ((learning.trusted.lookup key).map Trusted.last).any fun time => within time now rejectionWindowSecs

theorem isFlood_iff {counts : ℕ × ℕ} {handshakes : ℕ} :
    FloodCounts.isFlood ⟨counts.1, counts.2, handshakes⟩ = true ↔
      silentFloodSeconds ≤ counts.2 ∧ silentFloodRatio * handshakes ≤ counts.1 := by
  rw [FloodCounts.isFlood, Bool.and_eq_true, decide_eq_true_eq, decide_eq_true_eq, Nat.mul_comm]

/-- While the guard holds, the refusals counted for a flood decide. -/
theorem guardedRefusal_spec (learning : Learning) (ties : Ties) (key : Text) (counts : ℕ × ℕ) (now : ℕ) :
    let flood := FloodCounts.isFlood ⟨counts.1, counts.2, learning.recentHandshakes key now⟩
    (learning.guardedRefusal ties key counts now).1 = flood ∧
      CountedStep learning (learning.guardedRefusal ties key counts now).2 key none
        (if flood then none else learning.silentFlood.lookup key) := by
  have same : recentHandshakes { learning with silentPending := learning.silentPending.erase key } key now =
      learning.recentHandshakes key now := rfl
  unfold guardedRefusal
  dsimp only
  rw [same]
  split
  · next flooded =>
    refine ⟨flooded.symm, rfl, rfl, rfl, fun other => ?_, fun other => ?_⟩
    · simp only [learnSilent, AList.lookup_erase_eq_ite]
      split <;> rfl
    · simp only [learnSilent, AList.lookup_erase_eq_ite]
  · next calm =>
    refine ⟨(Bool.eq_false_iff.mpr calm).symm, ?_⟩
    unfold logHeldBack
    dsimp only
    split_ifs
    all_goals
      refine ⟨rfl, rfl, rfl, fun other => AList.lookup_erase_eq_ite .., fun other => ?_⟩
      split
      · next here => rw [here]
      · rfl

/-- With no guard, the pending seconds decide. -/
theorem pendingRefusal_spec (ties : Ties) (now : ℕ) (pendingKeys : ∀ key ∈ learning.silentPending, key ∈ domain) (member : key ∈ domain)
    (few : domain.card ≤ maxRecentRejections) :
    let seconds := secondsOf learning key now
    let enough := decide (now ∉ seconds ∧ silentRefusals ≤ seconds.length + 1)
    (learning.pendingRefusal ties key now).1 = enough ∧
      CountedStep learning (learning.pendingRefusal ties key now).2 key
        (if enough then none else some (if now ∈ seconds then seconds else seconds ++ [now]))
        (if enough then none else learning.silentFlood.lookup key) := by
  unfold pendingRefusal
  dsimp only
  rw [roomFor_eq _ _ _ pendingKeys member few, ← secondsOf]
  have floodSame (other : Text) : learning.silentFlood.lookup other =
      if other = key then learning.silentFlood.lookup key else learning.silentFlood.lookup other := by
    split
    · next here => rw [here]
    · rfl
  split
  · next again =>
    rw [decide_eq_false fun both => both.1 again]
    exact ⟨rfl, rfl, rfl, rfl, AList.lookup_insert_eq_ite _ _ _, floodSame⟩
  · next first =>
    rw [List.length_append, List.length_singleton]
    split
    · next short =>
      rw [decide_eq_false fun both => absurd both.2 (not_le.mpr short)]
      exact ⟨rfl, rfl, rfl, rfl, AList.lookup_insert_eq_ite _ _ _, floodSame⟩
    · next enough =>
      rw [decide_eq_true ⟨first, not_lt.mp enough⟩]
      refine ⟨rfl, rfl, rfl, rfl, fun other => ?_, fun other => AList.lookup_erase_eq_ite ..⟩
      simp only [learnSilent, AList.lookup_erase_eq_ite, AList.lookup_insert_eq_ite]
      split <;> rfl

/-- A counted refusal is guarded or pending, once it is counted for a flood. -/
theorem countedRefusal_eq (floodKeys : ∀ key ∈ learning.silentFlood, key ∈ domain) (member : key ∈ domain)
    (few : domain.card ≤ maxRecentRejections) :
    let flooded := { learning with silentFlood := learning.silentFlood.insert key (floodWith learning key now) }
    learning.countedRefusal ties key now =
      if guardHolds learning key now then
        flooded.guardedRefusal ties key (PerSecond.count (floodWith learning key now) now) now
      else flooded.pendingRefusal ties key now := by
  have flood : learning.countForFlood ties key now =
      (PerSecond.count (floodWith learning key now) now,
        { learning with silentFlood := learning.silentFlood.insert key (floodWith learning key now) }) := by
    unfold countForFlood
    dsimp only
    rw [roomFor_eq _ _ _ floodKeys member few]
    rfl
  unfold countedRefusal
  rw [flood]
  rfl

theorem CountedStep.of_flooded {after : Learning} {pending : Option (List ℕ)} {flood : Option PerSecond} {added : PerSecond}
    (step : CountedStep { learning with silentFlood := learning.silentFlood.insert key added } after key pending flood) :
    CountedStep learning after key pending flood where
  hosts := step.hosts
  suppressed := step.suppressed
  trusted := step.trusted
  pendingOf := step.pendingOf
  floodOf other := by
    rw [step.floodOf]
    split
    · rfl
    · next different => exact AList.lookup_insert_ne different

section Counted

variable (floodKeys : ∀ key ∈ learning.silentFlood, key ∈ domain) (member : key ∈ domain)
  (few : domain.card ≤ maxRecentRejections)

include floodKeys member few

theorem countedRefusal_guarded (ties : Ties) (guarded : guardHolds learning key now = true) :
    let counts := PerSecond.count (floodWith learning key now) now
    let flood := FloodCounts.isFlood ⟨counts.1, counts.2, learning.recentHandshakes key now⟩
    (learning.countedRefusal ties key now).1 = flood ∧
      CountedStep learning (learning.countedRefusal ties key now).2 key none
        (if flood then none else some (floodWith learning key now)) := by
  rw [countedRefusal_eq floodKeys member few, if_pos guarded]
  have spec := guardedRefusal_spec { learning with
    silentFlood := learning.silentFlood.insert key (floodWith learning key now) } ties key
    (PerSecond.count (floodWith learning key now) now) now
  dsimp only at spec
  rw [AList.lookup_insert] at spec
  exact ⟨spec.1, spec.2.of_flooded⟩

theorem countedRefusal_pending (ties : Ties) (pendingKeys : ∀ key ∈ learning.silentPending, key ∈ domain)
    (unguarded : guardHolds learning key now = false) :
    let seconds := secondsOf learning key now
    let enough := decide (now ∉ seconds ∧ silentRefusals ≤ seconds.length + 1)
    (learning.countedRefusal ties key now).1 = enough ∧
      CountedStep learning (learning.countedRefusal ties key now).2 key
        (if enough then none else some (if now ∈ seconds then seconds else seconds ++ [now]))
        (if enough then none else some (floodWith learning key now)) := by
  rw [countedRefusal_eq floodKeys member few, if_neg (Bool.eq_false_iff.mp unguarded)]
  let flooded : Learning :=
    { learning with silentFlood := learning.silentFlood.insert key (floodWith learning key now) }
  have keys : ∀ key ∈ flooded.silentPending, key ∈ domain := pendingKeys
  obtain ⟨made, step⟩ := pendingRefusal_spec ties now keys member few
  rw [AList.lookup_insert] at step
  exact ⟨made, step.of_flooded⟩

end Counted

/-- The hosts kept for burst detection after a noted refusal. -/
def hostsWith (learning : Learning) (key : Text) (now : ℕ) : HostMap ℕ :=
  (learning.silentHosts.retain fun _ time => within time now silentBurstSecs).insert key now

/-- The state after a refusal is noted. -/
def notedState (learning : Learning) (key : Text) (now : ℕ) : Learning :=
  { learning.expirePins now with silentHosts := hostsWith learning key now }

/-- A refusal of a host without a live pin: a burst, a suppressed refusal or a counted one. -/
theorem recordSilentRefusal_eq (hostsKeys : ∀ key ∈ learning.silentHosts, key ∈ domain)
    (member : lookupKey host ∈ domain) (few : domain.card ≤ maxRecentRejections) (named : lookupKey host ≠ [])
    (free : lookupKey host ∉ (learning.expirePins now).pins) :
    learning.recordSilentRefusal ties host now =
      if silentBurstHosts ≤ (hostsWith learning (lookupKey host) now).size then
        (false, (notedState learning (lookupKey host) now).silentBurst now)
      else if suppresses silentSuppressSecs now learning.silentSuppressedUntil then
        (false, notedState learning (lookupKey host) now)
      else { notedState learning (lookupKey host) now with silentSuppressedUntil := none }.countedRefusal ties
        (lookupKey host) now := by
  have inside : ∀ key ∈ learning.silentHosts.retain (fun _ time => within time now silentBurstSecs), key ∈ domain :=
    fun key stored => hostsKeys key (AList.mem_of_mem_retain stored)
  have noted : (learning.expirePins now).noteSilentHost ties (lookupKey host) now =
      ((hostsWith learning (lookupKey host) now).size, notedState learning (lookupKey host) now) := by
    unfold noteSilentHost
    dsimp only
    rw [expirePins, roomFor_eq _ _ _ inside member few]
    rfl
  unfold recordSilentRefusal
  dsimp only
  rw [if_neg named, if_neg free, noted]
  dsimp only
  cases holds : suppresses silentSuppressSecs now learning.silentSuppressedUntil with
  | true =>
    have suppressed : (notedState learning (lookupKey host) now).silentSuppressed now =
        (true, notedState learning (lookupKey host) now) := if_pos holds
    rw [suppressed]
    rfl
  | false =>
    have heard : (notedState learning (lookupKey host) now).silentSuppressed now =
        (false, { notedState learning (lookupKey host) now with silentSuppressedUntil := none }) :=
      if_neg (Bool.eq_false_iff.mp holds)
    rw [heard]
    rfl

theorem hasLivePin_iff : hasLivePin saved past key now = true ↔ key ∈ ((afterCalls saved past).expirePins now).pins := by
  rw [hasLivePin, expirePins, ← AList.lookup_isSome, AList.lookup_retain]
  cases (afterCalls saved past).pins.lookup key with
  | none => rfl
  | some time => cases live : pinIsLive time now <;> simp [Option.filter, live]

end Tollgate.SilentRule
