import Tollgate.Proofs.Policy.SilentMirror

/-! # Calls that note no silent refusal

Every call but a noted refusal, a handshake and a network change leaves the counts of silent
refusals alone, except that it drops those of the hosts it clears. `Frame` says so of two states,
and `Mirror.frame` carries the mirror over such a call. Handshakes and network changes follow.
-/

namespace Tollgate.SilentRule

open Learning

variable {saved : HostMap ℕ} {host key : Text} {call : Call} {past history : List Call} {now time last : ℕ}

/-- The counts of a policy agree with its history. -/
structure Mirror (saved : HostMap ℕ) (history : List Call) (learning : Learning) (last : ℕ) : Prop where
  hosts : HostsMirror learning.silentHosts saved history last
  suppression : SuppressionMirror learning.silentSuppressedUntil saved history last
  pending : ∀ key, Pending ((learning.silentPending.lookup key).getD []) (pendingSince saved key history) last
  flood : ∀ key, PerSecond.Window ((learning.silentFlood.lookup key).getD []) (countedSince saved key history) last
  guard : ∀ key, Guard (learning.trusted.lookup key) (handshakes key history) last
  hostsKeys : ∀ key ∈ learning.silentHosts, key ∈ hostKeys history
  pendingKeys : ∀ key ∈ learning.silentPending, key ∈ hostKeys history
  floodKeys : ∀ key ∈ learning.silentFlood, key ∈ hostKeys history
  trustedKeys : ∀ key ∈ learning.trusted, key ∈ hostKeys history

theorem Mirror.start (saved : HostMap ℕ) : Mirror saved [] (Learning.start saved) 0 where
  hosts := ⟨nofun, fun _ _ _ => by simp [mem_notedHosts, notedSince, Machine.since, Learning.start]⟩
  suppression := fun _ _ _ => rfl
  pending _ := Pending.empty 0
  flood _ := PerSecond.Window.empty 0
  guard _ := rfl
  hostsKeys := nofun
  pendingKeys := nofun
  floodKeys := nofun
  trustedKeys := nofun

/-- The same counts, but for the pending refusals and those counted for a flood of some hosts. -/
structure Frame (before after : Learning) (gone : Text → Bool) : Prop where
  hosts : after.silentHosts = before.silentHosts
  suppressed : after.silentSuppressedUntil = before.silentSuppressedUntil
  trusted : after.trusted = before.trusted
  pending : ∀ key, after.silentPending.lookup key = if gone key then none else before.silentPending.lookup key
  flood : ∀ key, after.silentFlood.lookup key = if gone key then none else before.silentFlood.lookup key

theorem Frame.refl (learning : Learning) : Frame learning learning fun _ => false := by
  constructor <;> simp

theorem mem_of_lookup {V : Type} {before after : HostMap V} {gone : Bool}
    (kept : after.lookup key = if gone then none else before.lookup key) (member : key ∈ after) : key ∈ before := by
  rw [← AList.lookup_isSome, kept] at member
  cases gone with
  | true => contradiction
  | false => exact AList.lookup_isSome.mp member

theorem hostKeys_subset : hostKeys past ⊆ hostKeys (call :: past) := by
  intro key member
  rw [hostKeys, List.mem_toFinset, List.filterMap_cons]
  have earlier := List.mem_toFinset.mp member
  split
  · exact earlier
  · exact List.mem_cons_of_mem _ earlier

theorem notedHosts_cons (unnoted : noted saved (call :: past) = none)
    (stays : isNetworkChange (call :: past) = false) :
    notedHosts saved (call :: past) = notedHosts saved past := by
  funext now
  rw [notedHosts, notedSince, Machine.since_cons stays, unnoted]
  rfl

/-- A call that notes nothing keeps the mirror, if it drops exactly what it clears. -/
theorem Mirror.frame {before after : Learning} (mirror : Mirror saved past before last) (later : last ≤ now)
    (unnoted : noted saved (call :: past) = none) (stays : isNetworkChange (call :: past) = false)
    (unshaken : ∀ key, handshake key (call :: past) = none)
    (frame : Frame before after fun key => clears saved key (call :: past)) : Mirror saved (call :: past) after now where
  hosts := by
    rw [frame.hosts]
    have kept := mirror.hosts.mono later
    exact ⟨kept.le, fun moment order host => by
      rw [notedHosts_cons unnoted stays]
      exact kept.mem_iff moment order host⟩
  suppression := by
    rw [frame.suppressed]
    exact mirror.suppression.keep later (burst_eq_none unnoted)
  pending key := by
    rw [frame.pending, pendingSince_cons, unshaken, quietOf_eq_none (counted_eq_none unnoted)]
    cases clears saved key (call :: past) with
    | true => exact Pending.empty now
    | false => exact (mirror.pending key).mono later
  flood key := by
    rw [frame.flood, countedSince_cons, countedOf_eq_none (counted_eq_none unnoted)]
    cases clears saved key (call :: past) with
    | true => exact PerSecond.Window.empty now
    | false => exact (mirror.flood key).mono later
  guard key := by
    rw [frame.trusted, handshakes_cons, unshaken]
    exact (mirror.guard key).mono later
  hostsKeys key member := hostKeys_subset (mirror.hostsKeys key (frame.hosts ▸ member))
  pendingKeys key member := hostKeys_subset (mirror.pendingKeys key (mem_of_lookup (frame.pending key) member))
  floodKeys key member := hostKeys_subset (mirror.floodKeys key (mem_of_lookup (frame.flood key) member))
  trustedKeys key member := hostKeys_subset (mirror.trustedKeys key (frame.trusted ▸ member))

/-! ## The frames of the operations -/

theorem recordClientRejection_frame (learning : Learning) (ties : Ties) (host : Text) (now : ℕ) :
    Frame learning (learning.recordClientRejection ties host now).2 fun key =>
      (learning.recordClientRejection ties host now).1 && decide (key = lookupKey host) := by
  unfold recordClientRejection
  dsimp only
  split
  · exact Frame.refl learning
  · split
    · constructor <;> simp [expirePins]
    · split
      · constructor <;> simp [expirePins, AList.lookup_erase_eq_ite]
      · constructor <;> simp [expirePins]

theorem learnUpstreamUntrusted_frame (learning : Learning) (host : Text) (now : ℕ) :
    Frame learning (learning.learnUpstreamUntrusted host now).2 fun key =>
      (learning.learnUpstreamUntrusted host now).1 && decide (key = lookupKey host) := by
  have suppressed : Frame learning ((learning.expirePins now).upstreamSuppressed now).2 fun _ => false := by
    unfold upstreamSuppressed
    split <;> constructor <;> simp [expirePins]
  unfold learnUpstreamUntrusted
  dsimp only
  split
  · exact Frame.refl learning
  · split
    · constructor <;> simp [expirePins]
    · split
      · simpa using suppressed
      · split
        · constructor <;> simp [upstreamBurst, suppressed.hosts, suppressed.suppressed, suppressed.trusted,
            suppressed.pending, suppressed.flood]
        · constructor <;> simp [learnUpstream, suppressed.hosts, suppressed.suppressed, suppressed.trusted,
            suppressed.pending, suppressed.flood, AList.lookup_erase_eq_ite]

theorem forgetPins_frame (learning : Learning) (hosts : List Text) :
    Frame learning (learning.forgetPins hosts).2 fun key => decide (key ∈ hosts.map lookupKey) := by
  rw [forgetPins_state]
  induction hosts.map lookupKey generalizing learning with
  | nil => exact Frame.refl learning
  | cons name rest ih =>
    have later := ih (learning.forgetPin name)
    refine ⟨later.hosts, later.suppressed, later.trusted, fun key => ?_, fun key => ?_⟩
    · rw [List.foldl_cons, later.pending, forgetPin, AList.lookup_erase_eq_ite]
      by_cases same : key = name <;> simp [same]
    · rw [List.foldl_cons, later.flood, forgetPin, AList.lookup_erase_eq_ite]
      by_cases same : key = name <;> simp [same]

/-- A call that is no refusal clears the host it makes a pin, and those its operation names. -/
theorem clears_of_unnoted (unnoted : noted saved (call :: past) = none) :
    clears saved key (call :: past) =
      (((afterCalls saved past).learned call).any (fun made => made.1 = key) ||
        match call.op with
        | .onNetworkChange _ => true
        | .forgetPins hosts => key ∈ hosts.map lookupKey
        | _ => false) := by
  rw [clears, burst_eq_none unnoted]
  rfl

theorem learned_any {made : Bool} {name : Text} {origin : Origin × ℕ} :
    ((if made then some (name, origin) else none).any fun made => decide (made.1 = key)) =
      (made && decide (key = name)) := by
  cases made with
  | false => rfl
  | true => simp [eq_comm]

theorem Mirror.recordClientRejection {ties : Ties} {now : UInt64} (later : last ≤ now.toNat)
    (mirror : Mirror saved past (afterCalls saved past) last) :
    Mirror saved (⟨.recordClientRejection host now, ties⟩ :: past)
      (afterCalls saved (⟨.recordClientRejection host now, ties⟩ :: past)) now.toNat := by
  apply mirror.frame later rfl rfl fun _ => rfl
  have cleared (key : Text) : clears saved key (⟨.recordClientRejection host now, ties⟩ :: past) =
      (((afterCalls saved past).recordClientRejection ties host now.toNat).1 && decide (key = lookupKey host)) := by
    rw [clears_of_unnoted rfl, Bool.or_false]
    exact learned_any
  simp only [cleared]
  exact recordClientRejection_frame (afterCalls saved past) ties host now.toNat

theorem Mirror.learnUpstreamUntrusted {ties : Ties} {now : UInt64} (later : last ≤ now.toNat)
    (mirror : Mirror saved past (afterCalls saved past) last) :
    Mirror saved (⟨.learnUpstreamUntrusted host now, ties⟩ :: past)
      (afterCalls saved (⟨.learnUpstreamUntrusted host now, ties⟩ :: past)) now.toNat := by
  apply mirror.frame later rfl rfl fun _ => rfl
  have cleared (key : Text) : clears saved key (⟨.learnUpstreamUntrusted host now, ties⟩ :: past) =
      (((afterCalls saved past).learnUpstreamUntrusted host now.toNat).1 && decide (key = lookupKey host)) := by
    rw [clears_of_unnoted rfl, Bool.or_false]
    exact learned_any
  simp only [cleared]
  exact learnUpstreamUntrusted_frame (afterCalls saved past) host now.toNat

theorem Mirror.forgetPins {ties : Ties} {hosts : List Text} (mirror : Mirror saved past (afterCalls saved past) last) :
    Mirror saved (⟨.forgetPins hosts, ties⟩ :: past) (afterCalls saved (⟨.forgetPins hosts, ties⟩ :: past)) last := by
  apply mirror.frame le_rfl rfl rfl fun _ => rfl
  have cleared (key : Text) : clears saved key (⟨.forgetPins hosts, ties⟩ :: past) =
      decide (key ∈ hosts.map lookupKey) := by
    rw [clears_of_unnoted rfl]
    rfl
  simp only [cleared]
  exact forgetPins_frame (afterCalls saved past) hosts

/-- A network change forgets every count but the handshakes. -/
theorem Mirror.onNetworkChange {ties : Ties} {now : UInt64} (later : last ≤ now.toNat)
    (mirror : Mirror saved past (afterCalls saved past) last) :
    Mirror saved (⟨.onNetworkChange now, ties⟩ :: past) (afterCalls saved (⟨.onNetworkChange now, ties⟩ :: past))
      now.toNat := by
  have cleared (key : Text) : clears saved key (⟨.onNetworkChange now, ties⟩ :: past) = true := by
    rw [clears_of_unnoted rfl, Bool.or_true]
  refine ⟨⟨nofun, ?_⟩, mirror.suppression.keep later rfl, fun key => ?_, fun key => ?_,
    fun key => (mirror.guard key).mono later, nofun, nofun, nofun,
    fun key member => hostKeys_subset (mirror.trustedKeys key member)⟩
  · intro moment order key
    rw [mem_notedHosts, notedSince, Machine.since_cleared rfl]
    constructor
    · rintro ⟨_, stored, _⟩
      contradiction
    · rintro ⟨_, member, _⟩
      contradiction
  · rw [pendingSince_cons, cleared]
    exact Pending.empty _
  · rw [countedSince_cons, cleared]
    exact PerSecond.Window.empty _

/-- A map whose keys are hosts of a small run has room for one more of them. -/
theorem roomFor_eq {V : Type} {map : HostMap V} {domain : Finset Text} (ties : Ties) (fresh : V → Bool) (newest : V → ℕ)
    (inside : ∀ key ∈ map, key ∈ domain) (member : key ∈ domain) (few : domain.card ≤ maxRecentRejections) :
    roomFor ties fresh newest key map = map := by
  unfold roomFor
  split
  · rfl
  · next absent =>
    have room := (AList.size_lt_card inside member absent).trans_le few
    rw [makeRoom, if_pos room]

theorem recordInterceptedHandshake_eq {learning : Learning} {domain : Finset Text} (ties : Ties)
    (inside : ∀ key ∈ learning.trusted, key ∈ domain) (member : lookupKey host ∈ domain)
    (few : domain.card ≤ maxRecentRejections) (named : lookupKey host ≠ []) :
    learning.recordInterceptedHandshake ties host now =
      { learning with
        silentPending := learning.silentPending.erase (lookupKey host)
        trusted := learning.trusted.insert (lookupKey host)
          ⟨now, PerSecond.add (((learning.trusted.lookup (lookupKey host)).map Trusted.recent).getD []) now⟩ } := by
  unfold recordInterceptedHandshake
  dsimp only
  rw [if_neg named, roomFor_eq _ _ _ inside member few]

theorem clears_handshake {ties : Ties} {now : UInt64} :
    clears saved key (⟨.recordInterceptedHandshake host now, ties⟩ :: past) = false := by
  rw [clears_of_unnoted rfl]
  rfl

theorem handshake_cons {ties : Ties} {now : UInt64} (named : lookupKey host ≠ []) :
    handshake key (⟨.recordInterceptedHandshake host now, ties⟩ :: past) =
      if key = lookupKey host then some now.toNat else none := by
  by_cases same : key = lookupKey host
  · simp [handshake, same, named]
  · simp [handshake, same, Ne.symm same]

/-- A handshake is one more of its host, and forgets what is pending for it. -/
theorem Mirror.shake {ties : Ties} {now : UInt64} (later : last ≤ now.toNat)
    (mirror : Mirror saved past (afterCalls saved past) last)
    (few : (hostKeys (⟨.recordInterceptedHandshake host now, ties⟩ :: past)).card ≤ maxRecentRejections)
    (short : past.length + 1 < 2 ^ 32) (named : lookupKey host ≠ []) :
    Mirror saved (⟨.recordInterceptedHandshake host now, ties⟩ :: past)
      (afterCalls saved (⟨.recordInterceptedHandshake host now, ties⟩ :: past)) now.toNat := by
  have member : lookupKey host ∈ hostKeys (⟨.recordInterceptedHandshake host now, ties⟩ :: past) := by
    simp [hostKeys]
  have state : afterCalls saved (⟨.recordInterceptedHandshake host now, ties⟩ :: past) = _ :=
    recordInterceptedHandshake_eq ties (fun key stored => hostKeys_subset (mirror.trustedKeys key stored)) member few
      named
  rw [state]
  refine ⟨?_, mirror.suppression.keep later rfl, fun key => ?_, fun key => ?_, fun key => ?_,
    fun key stored => hostKeys_subset (mirror.hostsKeys key stored), fun key stored => ?_,
    fun key stored => hostKeys_subset (mirror.floodKeys key stored), fun key stored => ?_⟩
  · have kept := mirror.hosts.mono later
    refine ⟨kept.le, fun moment order host => ?_⟩
    rw [notedHosts_cons rfl rfl]
    exact kept.mem_iff moment order host
  · rw [pendingSince_cons, clears_handshake, handshake_cons named, AList.lookup_erase_eq_ite, quietOf_eq_none rfl]
    split
    · exact Pending.empty _
    · exact (mirror.pending key).mono later
  · rw [countedSince_cons, clears_handshake, countedOf_eq_none rfl]
    exact (mirror.flood key).mono later
  · rw [handshakes_cons, handshake_cons named]
    split
    · next same =>
      rw [same, AList.lookup_insert]
      have small : (handshakes (lookupKey host) past).length + 1 < 2 ^ 32 :=
        (Nat.add_le_add_right (Machine.length_since_le past) 1).trans_lt short
      exact (mirror.guard (lookupKey host)).shake later (UInt64.toNat_lt now) small
    · next other =>
      rw [AList.lookup_insert_ne other]
      exact (mirror.guard key).mono later
  · exact hostKeys_subset (mirror.pendingKeys key (AList.mem_erase.mp stored).2)
  · rcases (AList.mem_insert _).mp stored with same | old
    · exact same ▸ member
    · exact hostKeys_subset (mirror.trustedKeys key old)

theorem Mirror.recordInterceptedHandshake {ties : Ties} {now : UInt64} (later : last ≤ now.toNat)
    (mirror : Mirror saved past (afterCalls saved past) last)
    (few : (hostKeys (⟨.recordInterceptedHandshake host now, ties⟩ :: past)).card ≤ maxRecentRejections)
    (short : past.length + 1 < 2 ^ 32) :
    Mirror saved (⟨.recordInterceptedHandshake host now, ties⟩ :: past)
      (afterCalls saved (⟨.recordInterceptedHandshake host now, ties⟩ :: past)) now.toNat := by
  by_cases unnamed : lookupKey host = []
  · have same : afterCalls saved (⟨.recordInterceptedHandshake host now, ties⟩ :: past) = afterCalls saved past :=
      if_pos unnamed
    rw [same]
    apply mirror.frame later rfl rfl
    · intro key
      simp only [handshake, unnamed]
      exact if_neg fun both => both.2 both.1.symm
    · simp only [clears_handshake]
      exact Frame.refl _
  · exact mirror.shake later few short unnamed

end Tollgate.SilentRule
