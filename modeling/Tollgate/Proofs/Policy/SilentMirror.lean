import Tollgate.Proofs.Policy.SilentHistory

/-! # The counts of a policy mirror its history

For each count the policy keeps there is a list of times in its history, and inside the window that
the count is for the two agree. `Mirror` collects these relations; the lemmas before it say what one
call does to each of them.
-/

namespace Tollgate.SilentRule

open Learning

variable {saved : HostMap ℕ} {host key : Text} {call : Call} {past history : List Call} {now time last : ℕ}

/-- The hosts kept for burst detection are those noted in the window. -/
structure HostsMirror (hosts : HostMap ℕ) (saved : HostMap ℕ) (history : List Call) (last : ℕ) : Prop where
  le : ∀ key time, hosts.lookup key = some time → time ≤ last
  mem_iff : ∀ now, last ≤ now → ∀ key, (∃ time, hosts.lookup key = some time ∧ now - time ≤ silentBurstSecs) ↔
    key ∈ notedHosts saved history now

/-- Silent refusals are ignored exactly shortly after a burst. -/
def SuppressionMirror (stop : Option ℕ) (saved : HostMap ℕ) (history : List Call) (last : ℕ) : Prop :=
  ∀ now, last ≤ now → now < 2 ^ 64 - 1 →
    suppresses silentSuppressSecs now stop = (bursts saved history).any fun time => now < time + silentSuppressSecs

/-- The pending seconds of a host, in the window of its last refusal. -/
structure Pending (stored times : List ℕ) (last : ℕ) : Prop where
  nodup : stored.Nodup
  short : stored.length < silentRefusals
  le : ∀ time ∈ stored, time ≤ last
  mem_iff : ∀ time, last - time ≤ rejectionWindowSecs → (time ∈ stored ↔ time ∈ times)

/-- The handshakes kept for a host. -/
def Guard : Option Trusted → List ℕ → ℕ → Prop
  | none, times, _ => times = []
  | some trusted, times, last =>
      trusted.last ∈ times ∧ (∀ time ∈ times, time ≤ trusted.last) ∧ PerSecond.Window trusted.recent times last

theorem mem_notedHosts : key ∈ notedHosts saved history now ↔
    ∃ time, (key, time) ∈ notedSince saved history ∧ now - time ≤ silentBurstSecs := by
  simp [notedHosts]

theorem HostsMirror.mono {hosts : HostMap ℕ} (mirror : HostsMirror hosts saved history last) (later : last ≤ now) :
    HostsMirror hosts saved history now where
  le key time stored := (mirror.le key time stored).trans later
  mem_iff moment order := mirror.mem_iff moment (later.trans order)

theorem Pending.mono {stored times : List ℕ} (pending : Pending stored times last) (later : last ≤ now) :
    Pending stored times now where
  nodup := pending.nodup
  short := pending.short
  le time member := (pending.le time member).trans later
  mem_iff time young := pending.mem_iff time (by omega)

theorem Pending.empty (last : ℕ) : Pending [] [] last := ⟨List.nodup_nil, by decide, nofun, fun _ _ => Iff.rfl⟩

theorem Guard.mono {trusted : Option Trusted} {times : List ℕ} (guard : Guard trusted times last)
    (later : last ≤ now) : Guard trusted times now := by
  cases trusted with
  | none => exact guard
  | some trusted => exact ⟨guard.1, guard.2.1, guard.2.2.mono later⟩

/-- The map with a noted refusal: old hosts go, the refused one is noted now. -/
theorem HostsMirror.note {hosts : HostMap ℕ} (mirror : HostsMirror hosts saved past last) (later : last ≤ now)
    (fits : now < 2 ^ 64) (noted : noted saved (call :: past) = some (key, now))
    (stays : isNetworkChange (call :: past) = false)
    (bounded : ∀ refusal ∈ notedSince saved past, refusal.2 ≤ now) :
    HostsMirror ((hosts.retain fun _ time => within time now silentBurstSecs).insert key now) saved (call :: past)
      now := by
  have sinceCons : notedSince saved (call :: past) = (key, now) :: notedSince saved past := by
    rw [notedSince, Machine.since_cons stays, noted]
    rfl
  have keptOther {host : Text} (other : host ≠ key) (time : ℕ) :
      ((hosts.retain fun _ time => within time now silentBurstSecs).insert key now).lookup host = some time ↔
        hosts.lookup host = some time ∧ now - time ≤ silentBurstSecs := by
    rw [AList.lookup_insert_ne other, AList.lookup_retain, Option.filter_eq_some_iff]
    refine and_congr_right fun stored => ?_
    rw [within_of_le ((mirror.le host time stored).trans later) fits, decide_eq_true_eq]
  constructor
  · intro host time stored
    rcases eq_or_ne host key with rfl | other
    · rw [AList.lookup_insert] at stored
      exact (Option.some.inj stored).ge
    · exact (mirror.le host time ((keptOther other time).mp stored).1).trans later
  · intro moment order host
    rw [mem_notedHosts, sinceCons]
    rcases eq_or_ne host key with rfl | other
    · rw [AList.lookup_insert]
      constructor
      · rintro ⟨time, stored, young⟩
        cases stored
        exact ⟨now, List.mem_cons_self .., young⟩
      · rintro ⟨time, member, young⟩
        rcases List.mem_cons.mp member with same | old
        · exact ⟨now, rfl, (Prod.mk.inj same).2 ▸ young⟩
        · have order := bounded _ old
          exact ⟨now, rfl, by omega⟩
    · have earlier := mirror.mem_iff moment (later.trans order) host
      rw [mem_notedHosts] at earlier
      simp only [keptOther other, List.mem_cons, Prod.mk.injEq, other, false_and, false_or, ← earlier]
      constructor
      · rintro ⟨time, ⟨stored, -⟩, young⟩
        exact ⟨time, stored, young⟩
      · rintro ⟨time, stored, young⟩
        exact ⟨time, ⟨stored, by omega⟩, young⟩

/-- The number of hosts kept after a noted refusal. -/
theorem HostsMirror.size_note {hosts : HostMap ℕ} (mirror : HostsMirror hosts saved past last) (later : last ≤ now)
    (fits : now < 2 ^ 64) (noted : noted saved (call :: past) = some (key, now))
    (stays : isNetworkChange (call :: past) = false)
    (bounded : ∀ refusal ∈ notedSince saved past, refusal.2 ≤ now) :
    ((hosts.retain fun _ time => within time now silentBurstSecs).insert key now).size =
      (notedHosts saved (call :: past) now).card := by
  rw [AList.size_eq_card]
  congr 1
  ext host
  rw [List.mem_toFinset, ← AList.mem_keys, ← (mirror.note later fits noted stays bounded).mem_iff now le_rfl host,
    ← AList.lookup_isSome, Option.isSome_iff_exists]
  refine exists_congr fun time => ?_
  rw [iff_self_and]
  intro stored
  rcases eq_or_ne host key with rfl | other
  · rw [AList.lookup_insert] at stored
    cases stored
    omega
  · rw [AList.lookup_insert_ne other, AList.lookup_retain, Option.filter_eq_some_iff] at stored
    obtain ⟨old, recent⟩ := stored
    rw [within_of_le ((mirror.le host time old).trans later) fits] at recent
    exact of_decide_eq_true recent

theorem SuppressionMirror.keep {stop : Option ℕ} (mirror : SuppressionMirror stop saved past last) (later : last ≤ now)
    (calm : burst saved (call :: past) = none) : SuppressionMirror stop saved (call :: past) now := by
  intro moment order bound
  rw [bursts_cons, calm]
  exact mirror moment (later.trans order) bound

/-- A suppression that no longer holds may be dropped. -/
theorem SuppressionMirror.drop {stop : Option ℕ} (mirror : SuppressionMirror stop saved past last) (later : last ≤ now)
    (bound : now < 2 ^ 64 - 1) (ended : suppresses silentSuppressSecs now stop = false)
    (calm : burst saved (call :: past) = none) : SuppressionMirror none saved (call :: past) now := by
  intro moment order _
  rw [mirror now later bound, List.any_eq_false] at ended
  rw [bursts_cons, calm]
  refine (List.any_eq_false.mpr fun time member => ?_).symm
  have passed := ended time member
  simp only [decide_eq_true_eq] at passed ⊢
  omega

/-- A burst suppresses from its time on. -/
theorem SuppressionMirror.burst (bounded : ∀ time ∈ bursts saved past, time ≤ now)
    (found : burst saved (call :: past) = some now) :
    SuppressionMirror (some (saturatingAdd 64 now silentSuppressSecs)) saved (call :: past) now := by
  intro moment order bound
  rw [bursts_cons, found, Bool.eq_iff_iff, List.any_eq_true]
  have stop : suppresses silentSuppressSecs moment (some (saturatingAdd 64 now silentSuppressSecs)) = true ↔
      moment < now + silentSuppressSecs := by
    unfold suppresses saturatingAdd
    rw [Option.any_some, Bool.and_eq_true, decide_eq_true_eq, decide_eq_true_eq]
    omega
  rw [stop]
  constructor
  · exact fun early => ⟨now, by simp, decide_eq_true early⟩
  · rintro ⟨time, member, early⟩
    have early := of_decide_eq_true early
    rcases List.mem_append.mp member with here | old
    · simp only [Option.toList_some, List.mem_singleton] at here
      omega
    · have order := bounded time old
      omega

section Pending

variable {stored times : List ℕ} (pending : Pending stored times last) (later : last ≤ now) (fits : now < 2 ^ 64)

include pending later fits

theorem Pending.mem_filter (time : ℕ) :
    time ∈ stored.filter (fun time => within time now rejectionWindowSecs) ↔
      time ∈ times ∧ now - time ≤ rejectionWindowSecs := by
  rw [List.mem_filter]
  constructor
  · rintro ⟨member, recent⟩
    rw [within_of_le ((pending.le time member).trans later) fits, decide_eq_true_eq] at recent
    exact ⟨(pending.mem_iff time (by omega)).mp member, recent⟩
  · rintro ⟨member, young⟩
    have kept := (pending.mem_iff time (by omega)).mpr member
    exact ⟨kept, (within_of_le ((pending.le time kept).trans later) fits).trans (decide_eq_true young)⟩

/-- The different seconds of a host, one more refusal included. -/
theorem Pending.card_eq :
    (lately rejectionWindowSecs now (now :: times)).toFinset.card =
      (if now ∈ stored.filter fun time => within time now rejectionWindowSecs then 0 else 1) +
        (stored.filter fun time => within time now rejectionWindowSecs).length := by
  have nodup := pending.nodup.filter fun time => within time now rejectionWindowSecs
  have seconds : (lately rejectionWindowSecs now (now :: times)).toFinset =
      insert now (stored.filter fun time => within time now rejectionWindowSecs).toFinset := by
    ext time
    simp only [mem_lately, List.mem_toFinset, Finset.mem_insert, pending.mem_filter later fits, List.mem_cons]
    constructor
    · rintro ⟨rfl | old, young⟩
      · exact .inl rfl
      · exact .inr ⟨old, young⟩
    · rintro (rfl | ⟨old, young⟩)
      · exact ⟨.inl rfl, by omega⟩
      · exact ⟨.inr old, young⟩
  rw [seconds]
  split
  · next again =>
    rw [Finset.insert_eq_of_mem (List.mem_toFinset.mpr again), List.toFinset_card_of_nodup nodup, Nat.zero_add]
  · next first =>
    rw [Finset.card_insert_of_notMem (fun member => first (List.mem_toFinset.mp member)),
      List.toFinset_card_of_nodup nodup, Nat.add_comm]

theorem Pending.again (again : now ∈ stored.filter fun time => within time now rejectionWindowSecs) :
    Pending (stored.filter fun time => within time now rejectionWindowSecs) (now :: times) now where
  nodup := pending.nodup.filter _
  short := (List.length_filter_le ..).trans_lt pending.short
  le time member := (pending.le time (List.mem_filter.mp member).1).trans later
  mem_iff time young := by
    rw [pending.mem_filter later fits, List.mem_cons]
    constructor
    · exact fun old => .inr old.1
    · rintro (rfl | old)
      · exact (pending.mem_filter later fits _).mp again
      · exact ⟨old, young⟩

theorem Pending.add (first : now ∉ stored.filter fun time => within time now rejectionWindowSecs)
    (few : ((stored.filter fun time => within time now rejectionWindowSecs) ++ [now]).length < silentRefusals) :
    Pending ((stored.filter fun time => within time now rejectionWindowSecs) ++ [now]) (now :: times) now where
  nodup := by
    refine List.nodup_append.mpr ⟨pending.nodup.filter _, List.nodup_singleton now, ?_⟩
    intro time member other here same
    rw [same, List.mem_singleton.mp here] at member
    exact first member
  short := few
  le time member := by
    rcases List.mem_append.mp member with old | new
    · exact (pending.le time (List.mem_filter.mp old).1).trans later
    · exact (List.mem_singleton.mp new).le
  mem_iff time young := by
    rw [List.mem_append, pending.mem_filter later fits, List.mem_singleton, List.mem_cons, or_comm]
    exact or_congr_right (and_iff_left young)

end Pending

section Guard

variable {trusted : Option Trusted} {times : List ℕ} (guard : Guard trusted times last) (later : last ≤ now)
  (fits : now < 2 ^ 64)

include guard later fits

/-- The guard holds exactly while a handshake is in the window. -/
theorem Guard.holds_iff :
    ((trusted.map Trusted.last).any fun time => within time now rejectionWindowSecs) = true ↔
      lately rejectionWindowSecs now times ≠ [] := by
  cases trusted with
  | none =>
    have none : times = [] := guard
    simp [none, lately]
  | some trusted =>
    obtain ⟨member, newest, window⟩ := guard
    rw [Option.map_some, Option.any_some, within_of_le ((window.times_le _ member).trans later) fits,
      decide_eq_true_eq]
    constructor
    · intro recent empty
      exact List.not_mem_nil (empty ▸ mem_lately.mpr ⟨member, recent⟩)
    · intro nonempty
      obtain ⟨time, kept⟩ := List.exists_mem_of_ne_nil _ nonempty
      obtain ⟨old, recent⟩ := mem_lately.mp kept
      have order := newest time old
      omega

/-- The handshakes a flood must outnumber. -/
theorem Guard.recentHandshakes_eq {learning : Learning} (kept : learning.trusted.lookup key = trusted)
    (small : times.length < 2 ^ 32) :
    learning.recentHandshakes key now = (lately silentFloodSecs now times).length := by
  unfold recentHandshakes
  rw [kept]
  cases trusted with
  | none =>
    have none : times = [] := guard
    simp [none, lately]
  | some trusted => exact congrArg Prod.fst (guard.2.2.count_eq later fits small)

/-- One more handshake. -/
theorem Guard.shake (small : times.length + 1 < 2 ^ 32) :
    Guard (some ⟨now, PerSecond.add ((trusted.map Trusted.recent).getD []) now⟩) (now :: times) now := by
  cases trusted with
  | none =>
    have none : times = [] := guard
    subst none
    refine ⟨List.mem_cons_self .., ?_, (PerSecond.Window.empty last).add later fits small⟩
    intro time member
    exact (List.mem_singleton.mp member).le
  | some trusted =>
    obtain ⟨-, -, window⟩ := guard
    have added := window.add later fits small
    exact ⟨List.mem_cons_self .., added.times_le, added⟩

end Guard

end Tollgate.SilentRule
