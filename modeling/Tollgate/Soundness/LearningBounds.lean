import Mathlib.Order.Interval.Finset.Nat
import Tollgate.Proofs.Policy.BookStep

/-! # The learning state stays small

Whatever hosts are refused and whatever the clock says, each map of the learning state holds at most 1024
hosts: a host is entered only after a full map gave up at least one. The lists in the maps are short as well,
since a list is trimmed to its window whenever something is added to it, and no second is entered twice.
-/

namespace Tollgate

/-- A map with at most as many hosts as there is room for, all with values of one kind. -/
structure Roomy {V : Type} (valid : V → Prop) (map : HostMap V) : Prop where
  size : map.size ≤ maxRecentRejections
  values : ∀ host value, map.lookup host = some value → valid value

namespace Roomy

variable {V : Type} {valid : V → Prop} {map smaller : HostMap V} {host : Text} {value : V}

theorem empty : Roomy valid (∅ : HostMap V) := ⟨Nat.zero_le _, nofun⟩

/-- A map with fewer entries. -/
theorem shrink (roomy : Roomy valid map)
    (less : ∀ host value, smaller.lookup host = some value → map.lookup host = some value) : Roomy valid smaller := by
  refine ⟨le_trans (AList.size_le_of_subset ?_) roomy.size, fun host value found => roomy.values host value (less _ _ found)⟩
  intro host member
  obtain ⟨value, found⟩ := Option.isSome_iff_exists.mp (AList.lookup_isSome.mpr member)
  exact AList.lookup_isSome.mp (Option.isSome_of_eq_some (less host value found))

theorem erase (roomy : Roomy valid map) (host : Text) : Roomy valid (map.erase host) := by
  apply roomy.shrink
  intro other value found
  rw [AList.lookup_erase_eq_ite] at found
  split at found
  · contradiction
  · exact found

theorem retain (roomy : Roomy valid map) (keep : Text → V → Bool) : Roomy valid (map.retain keep) := by
  apply roomy.shrink
  intro other value found
  rw [AList.lookup_retain] at found
  exact (Option.filter_eq_some_iff.mp found).1

/-- A full map gives up at least one host. -/
theorem makeRoom (roomy : Roomy valid map) (ties : Ties) (fresh : V → Bool) (last : V → ℕ) :
    Roomy valid (Tollgate.makeRoom ties fresh last map) ∧
      (Tollgate.makeRoom ties fresh last map).size < maxRecentRejections := by
  unfold Tollgate.makeRoom
  split
  · next room => exact ⟨roomy, room⟩
  · have kept := roomy.retain fun _ value => fresh value
    dsimp only
    split
    · next room => exact ⟨kept, room⟩
    · next full =>
      split
      · next oldest found =>
        obtain ⟨time, member, -⟩ := ties.least found
        obtain ⟨entry, inside, same⟩ := List.mem_map.mp member
        cases same
        have present : entry.1 ∈ map.retain fun _ value => fresh value :=
          AList.mem_keys.mpr (List.mem_map.mpr ⟨entry, inside, rfl⟩)
        exact ⟨kept.erase _, lt_of_lt_of_le (AList.size_erase_lt present) kept.size⟩
      · next none =>
        have nonempty : (map.retain fun _ value => fresh value).entries ≠ [] := by
          intro empty
          rw [AList.size, empty] at full
          exact full (Nat.succ_pos 1023)
        have listed : (map.retain fun _ value => fresh value).entries.map (fun entry => (entry.1, last entry.2)) ≠ [] :=
          fun empty => nonempty (List.map_eq_nil_iff.mp empty)
        have some := ties.found listed
        rw [none] at some
        contradiction

theorem insert (roomy : Roomy valid map) (room : host ∈ map ∨ map.size < maxRecentRejections) (good : valid value) :
    Roomy valid (map.insert host value) := by
  constructor
  · rcases room with member | free
    · exact (AList.size_insert_of_mem member value).trans roomy.size
    · exact (AList.size_insert_le map host value).trans free
  · intro other stored found
    rw [AList.lookup_insert_eq_ite] at found
    split at found
    · exact Option.some.inj found ▸ good
    · exact roomy.values other stored found

/-- Room is made for a host that has no entry. -/
theorem roomFor (roomy : Roomy valid map) (ties : Ties) (fresh : V → Bool) (last : V → ℕ) (host : Text) :
    Roomy valid (Learning.roomFor ties fresh last host map) ∧
      (host ∈ Learning.roomFor ties fresh last host map ∨
        (Learning.roomFor ties fresh last host map).size < maxRecentRejections) := by
  unfold Learning.roomFor
  split
  · next member => exact ⟨roomy, .inl member⟩
  · exact ⟨(roomy.makeRoom ties fresh last).1, .inr (roomy.makeRoom ties fresh last).2⟩

end Roomy

/-- One entry for each second, and no more of them than the window and the clock tolerance span. -/
structure PerSecond.Short (seconds : PerSecond) : Prop where
  once : (seconds.map Prod.fst).Nodup
  length : seconds.length ≤ silentFloodSecs + 1 + clockToleranceSecs

theorem mem_span_of_within {time now maxAge : ℕ} (met : within time now maxAge = true) :
    time ∈ Finset.Icc (now - maxAge) (now + clockToleranceSecs) := by
  rw [within, Bool.and_eq_true, decide_eq_true_eq, decide_eq_true_eq] at met
  have near : saturatingAdd 64 now clockToleranceSecs ≤ now + clockToleranceSecs := Nat.min_le_left ..
  rw [Finset.mem_Icc]
  omega

theorem PerSecond.Short.add {seconds : PerSecond} (once : (seconds.map Prod.fst).Nodup) (now : ℕ) :
    Short (seconds.add now) := by
  have kept : ((seconds.filter fun second => within second.1 now silentFloodSecs).map Prod.fst).Nodup :=
    once.sublist (List.filter_sublist.map _)
  have counted : ((seconds.add now).map Prod.fst).Nodup := List.nodup_bump kept
  refine ⟨counted, ?_⟩
  have inside : ∀ time ∈ (seconds.add now).map Prod.fst,
      time ∈ Finset.Icc (now - silentFloodSecs) (now + clockToleranceSecs) := by
    intro time member
    rw [PerSecond.add, List.keys_bump] at member
    have old : ∀ time ∈ (seconds.filter fun second => within second.1 now silentFloodSecs).map Prod.fst,
        time ∈ Finset.Icc (now - silentFloodSecs) (now + clockToleranceSecs) := by
      intro time member
      obtain ⟨second, found, rfl⟩ := List.mem_map.mp member
      exact mem_span_of_within (List.mem_filter.mp found).2
    split at member
    · exact old time member
    · rcases List.mem_append.mp member with before | here
      · exact old time before
      · rw [List.mem_singleton.mp here, Finset.mem_Icc]
        omega
  calc (seconds.add now).length = ((seconds.add now).map Prod.fst).toFinset.card := by
        rw [List.toFinset_card_of_nodup counted, List.length_map]
    _ ≤ (Finset.Icc (now - silentFloodSecs) (now + clockToleranceSecs)).card :=
        Finset.card_le_card fun time member => inside time (List.mem_toFinset.mp member)
    _ ≤ silentFloodSecs + 1 + clockToleranceSecs := by
        rw [Nat.card_Icc]
        omega

/-- The bounds of the learning state. -/
structure Learning.Bounds (learning : Learning) : Prop where
  recent : Roomy (fun _ => True) learning.recent
  pending : Roomy (fun seconds => seconds.length < silentRefusals ∧ seconds.Nodup) learning.silentPending
  hosts : Roomy (fun _ => True) learning.silentHosts
  flood : Roomy PerSecond.Short learning.silentFlood
  trusted : Roomy (fun trusted => PerSecond.Short trusted.recent) learning.trusted
  logged : Roomy (fun _ => True) learning.heldBackLogged

namespace Learning.Bounds

variable {learning : Learning}

theorem start (saved : HostMap ℕ) : Bounds (.start saved) := ⟨.empty, .empty, .empty, .empty, .empty, .empty⟩

/-- The bounds do not speak of the pins and their lists. -/
theorem expirePins (bounds : Bounds learning) (now : ℕ) : Bounds (learning.expirePins now) :=
  ⟨bounds.recent, bounds.pending, bounds.hosts, bounds.flood, bounds.trusted, bounds.logged⟩

theorem recordClientRejection (bounds : Bounds learning) (ties : Ties) (host : Text) (now : ℕ) :
    Bounds (learning.recordClientRejection ties host now).2 := by
  unfold Learning.recordClientRejection
  dsimp only
  split
  · exact bounds
  · split
    · exact bounds.expirePins now
    · split
      · exact ⟨bounds.recent.erase _, bounds.pending.erase _, bounds.hosts, bounds.flood.erase _, bounds.trusted,
          bounds.logged⟩
      · obtain ⟨roomy, room⟩ := bounds.recent.makeRoom ties (fun time => within time now rejectionWindowSecs) id
        exact ⟨roomy.insert (.inr room) trivial, bounds.pending, bounds.hosts, bounds.flood, bounds.trusted,
          bounds.logged⟩

theorem learnUpstreamUntrusted (bounds : Bounds learning) (host : Text) (now : ℕ) :
    Bounds (learning.learnUpstreamUntrusted host now).2 := by
  have cleared : Bounds ((learning.expirePins now).upstreamSuppressed now).2 := by
    unfold upstreamSuppressed
    split
    · exact bounds.expirePins now
    · exact ⟨bounds.recent, bounds.pending, bounds.hosts, bounds.flood, bounds.trusted, bounds.logged⟩
  unfold Learning.learnUpstreamUntrusted
  dsimp only
  split
  · exact bounds
  · split
    · exact bounds.expirePins now
    · split
      · exact cleared
      · split
        · exact ⟨cleared.recent, cleared.pending, cleared.hosts, cleared.flood, cleared.trusted, cleared.logged⟩
        · exact ⟨cleared.recent.erase _, cleared.pending.erase _, cleared.hosts, cleared.flood.erase _, cleared.trusted,
            cleared.logged⟩

theorem noteSilentHost (bounds : Bounds learning) (ties : Ties) (host : Text) (now : ℕ) :
    Bounds (learning.noteSilentHost ties host now).2 := by
  have kept := bounds.hosts.retain fun _ time => within time now silentBurstSecs
  obtain ⟨roomy, room⟩ := kept.roomFor ties (fun _ => true) id host
  exact ⟨bounds.recent, bounds.pending, roomy.insert room trivial, bounds.flood, bounds.trusted, bounds.logged⟩

theorem silentBurst (bounds : Bounds learning) (now : ℕ) : Bounds (learning.silentBurst now) :=
  ⟨bounds.recent, .empty, bounds.hosts, .empty, bounds.trusted, bounds.logged⟩

theorem silentSuppressed (bounds : Bounds learning) (now : ℕ) : Bounds (learning.silentSuppressed now).2 := by
  unfold Learning.silentSuppressed
  split
  · exact bounds
  · exact ⟨bounds.recent, bounds.pending, bounds.hosts, bounds.flood, bounds.trusted, bounds.logged⟩

theorem countForFlood (bounds : Bounds learning) (ties : Ties) (host : Text) (now : ℕ) :
    Bounds (learning.countForFlood ties host now).2 := by
  obtain ⟨roomy, room⟩ := bounds.flood.roomFor ties (fun refusals => 0 < (PerSecond.count refusals now).2)
    PerSecond.last host
  refine ⟨bounds.recent, bounds.pending, bounds.hosts, roomy.insert room (.add ?_ now), bounds.trusted, bounds.logged⟩
  cases found : (roomFor ties (fun refusals => decide (0 < (PerSecond.count refusals now).2)) PerSecond.last host
    learning.silentFlood).lookup host with
  | none => exact List.nodup_nil
  | some seconds => exact (roomy.values host seconds found).once

theorem learnSilent (bounds : Bounds learning) (host : Text) (now : ℕ) : Bounds (learning.learnSilent host now) :=
  ⟨bounds.recent.erase _, bounds.pending.erase _, bounds.hosts, bounds.flood.erase _, bounds.trusted, bounds.logged⟩

theorem logHeldBack (bounds : Bounds learning) (ties : Ties) (host : Text) (counts : FloodCounts) (now : ℕ) :
    Bounds (learning.logHeldBack ties host counts now) := by
  unfold Learning.logHeldBack
  dsimp only
  split
  · exact bounds
  · split
    · exact bounds
    · obtain ⟨roomy, room⟩ :=
        bounds.logged.roomFor ties (fun time => within time now (silentHeldBackLogSecs - 1)) id host
      exact ⟨bounds.recent, bounds.pending, bounds.hosts, bounds.flood, bounds.trusted, roomy.insert room trivial⟩

theorem guardedRefusal (bounds : Bounds learning) (ties : Ties) (key : Text) (refusals : ℕ × ℕ) (now : ℕ) :
    Bounds (learning.guardedRefusal ties key refusals now).2 := by
  have cleared : Bounds { learning with silentPending := learning.silentPending.erase key } :=
    ⟨bounds.recent, bounds.pending.erase key, bounds.hosts, bounds.flood, bounds.trusted, bounds.logged⟩
  unfold Learning.guardedRefusal
  dsimp only
  split
  · exact cleared.learnSilent key now
  · exact cleared.logHeldBack ties key _ now

/-- A list that grows to the number that makes a pin is forgotten with the pin. -/
theorem pendingRefusal (bounds : Bounds learning) (ties : Ties) (key : Text) (now : ℕ) :
    Bounds (learning.pendingRefusal ties key now).2 := by
  obtain ⟨roomy, room⟩ := bounds.pending.roomFor ties
    (fun seconds => seconds.any fun time => within time now rejectionWindowSecs) (fun seconds => seconds.maximum.unbotD 0) key
  have kept : ∀ pending : HostMap (List ℕ), Roomy (fun seconds => seconds.length < silentRefusals ∧ seconds.Nodup) pending →
      (((pending.lookup key).getD []).filter fun time => within time now rejectionWindowSecs).length < silentRefusals ∧
        (((pending.lookup key).getD []).filter fun time => within time now rejectionWindowSecs).Nodup := by
    intro pending roomy
    cases found : pending.lookup key with
    | none => exact ⟨Nat.succ_pos 2, List.nodup_nil⟩
    | some seconds =>
      obtain ⟨short, once⟩ := roomy.values key seconds found
      exact ⟨lt_of_le_of_lt (List.length_filter_le ..) short, once.filter _⟩
  unfold Learning.pendingRefusal
  dsimp only
  generalize roomFor ties _ _ key learning.silentPending = pending at roomy room ⊢
  obtain ⟨short, once⟩ := kept pending roomy
  split
  · exact ⟨bounds.recent, roomy.insert room ⟨short, once⟩, bounds.hosts, bounds.flood, bounds.trusted, bounds.logged⟩
  · next first =>
    split
    · next few =>
      have longer := once.append (List.nodup_singleton now) (List.disjoint_singleton.mpr first)
      exact ⟨bounds.recent, roomy.insert room ⟨few, longer⟩, bounds.hosts, bounds.flood, bounds.trusted, bounds.logged⟩
    · refine ⟨bounds.recent.erase _, roomy.shrink ?_, bounds.hosts, bounds.flood.erase _, bounds.trusted, bounds.logged⟩
      intro host seconds found
      rw [Learning.learnSilent, AList.lookup_erase_eq_ite, AList.lookup_insert_eq_ite] at found
      split at found
      · contradiction
      · exact found

theorem countedRefusal (bounds : Bounds learning) (ties : Ties) (key : Text) (now : ℕ) :
    Bounds (learning.countedRefusal ties key now).2 := by
  unfold Learning.countedRefusal
  dsimp only
  split
  · exact (bounds.countForFlood ties key now).guardedRefusal ties key _ now
  · exact (bounds.countForFlood ties key now).pendingRefusal ties key now

theorem recordSilentRefusal (bounds : Bounds learning) (ties : Ties) (host : Text) (now : ℕ) :
    Bounds (learning.recordSilentRefusal ties host now).2 := by
  have noted := (bounds.expirePins now).noteSilentHost ties (lookupKey host) now
  unfold Learning.recordSilentRefusal
  dsimp only
  split
  · exact bounds
  · split
    · exact bounds.expirePins now
    · split
      · exact noted.silentBurst now
      · split
        · exact noted.silentSuppressed now
        · exact (noted.silentSuppressed now).countedRefusal ties (lookupKey host) now

theorem recordInterceptedHandshake (bounds : Bounds learning) (ties : Ties) (host : Text) (now : ℕ) :
    Bounds (learning.recordInterceptedHandshake ties host now) := by
  unfold Learning.recordInterceptedHandshake
  dsimp only
  split
  · exact bounds
  · obtain ⟨roomy, room⟩ := bounds.trusted.roomFor ties
      (fun trusted => within trusted.last now rejectionWindowSecs) Trusted.last (lookupKey host)
    refine ⟨bounds.recent, bounds.pending.erase _, bounds.hosts, bounds.flood, roomy.insert room (.add ?_ now),
      bounds.logged⟩
    cases found : (roomFor ties (fun trusted => within trusted.last now rejectionWindowSecs) Trusted.last
      (lookupKey host) learning.trusted).lookup (lookupKey host) with
    | none => exact List.nodup_nil
    | some trusted => exact (roomy.values _ trusted found).once

theorem onNetworkChange (bounds : Bounds learning) (now : ℕ) : Bounds (learning.onNetworkChange now) :=
  ⟨bounds.recent, .empty, .empty, .empty, bounds.trusted, bounds.logged⟩

theorem forgetPins (bounds : Bounds learning) (hosts : List Text) : Bounds (learning.forgetPins hosts).2 := by
  rw [forgetPins_state]
  induction hosts.map lookupKey generalizing learning with
  | nil => exact bounds
  | cons key rest ih =>
    apply ih
    exact ⟨bounds.recent.erase key, bounds.pending.erase key, bounds.hosts, bounds.flood.erase key, bounds.trusted,
      bounds.logged⟩

/-- Every operation keeps the bounds. -/
theorem call (bounds : Bounds learning) (call : Call) : Bounds (learning.call call).2 := by
  unfold Learning.call
  cases call.op with
  | recordClientRejection host now => exact bounds.recordClientRejection call.ties host now.toNat
  | recordSilentRefusal host now => exact bounds.recordSilentRefusal call.ties host now.toNat
  | recordInterceptedHandshake host now => exact bounds.recordInterceptedHandshake call.ties host now.toNat
  | learnUpstreamUntrusted host now => exact bounds.learnUpstreamUntrusted host now.toNat
  | onNetworkChange now => exact bounds.onNetworkChange now.toNat
  | forgetPins hosts => exact bounds.forgetPins hosts

/-- Every history of operations keeps the bounds. -/
theorem afterCalls (saved : HostMap ℕ) (calls : List Call) : Bounds (afterCalls saved calls) := by
  induction calls with
  | nil => exact start saved
  | cons call past ih => exact ih.call call

end Learning.Bounds

/-- Under any traffic and any clock, every map and every list of the learning state is short. -/
theorem learning_state_bounded (saved : HostMap ℕ) (calls : List Call) :
    let learning := afterCalls saved calls
    (learning.recent.size ≤ 1024 ∧ learning.silentPending.size ≤ 1024 ∧ learning.silentHosts.size ≤ 1024 ∧
      learning.silentFlood.size ≤ 1024 ∧ learning.trusted.size ≤ 1024 ∧ learning.heldBackLogged.size ≤ 1024) ∧
    (∀ host seconds, learning.silentPending.lookup host = some seconds → seconds.length ≤ 2 ∧ seconds.Nodup) ∧
    (∀ host refusals, learning.silentFlood.lookup host = some refusals →
      (refusals.map Prod.fst).Nodup ∧ refusals.length ≤ 3661) ∧
    ∀ host trusted, learning.trusted.lookup host = some trusted →
      (trusted.recent.map Prod.fst).Nodup ∧ trusted.recent.length ≤ 3661 := by
  intro learning
  have bounds : learning.Bounds := .afterCalls saved calls
  refine ⟨⟨bounds.recent.size, bounds.pending.size, bounds.hosts.size, bounds.flood.size, bounds.trusted.size,
    bounds.logged.size⟩, ?_, ?_, ?_⟩
  · intro host seconds found
    obtain ⟨short, once⟩ := bounds.pending.values host seconds found
    exact ⟨Nat.le_of_lt_succ short, once⟩
  · intro host refusals found
    obtain ⟨once, short⟩ := bounds.flood.values host refusals found
    exact ⟨once, short⟩
  · intro host trusted found
    obtain ⟨once, short⟩ := bounds.trusted.values host trusted found
    exact ⟨once, short⟩

end Tollgate
