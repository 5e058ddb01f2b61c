import Tollgate.Model.Policy.Policy
import Tollgate.Proofs.Policy.PinRuns

/-! # Pins that are saved and loaded

A pin's host is a lookup key, and loading takes the lookup key again. As long as that changes no key,
the loaded map has the same lookups as the saved one: the file lists each pin once, in an order that
depends only on the pins.
-/

namespace Tollgate

/-- Pins that survive being saved: each key is its own key, and times fit 64 bits. -/
def Durable (pins : HostMap ℕ) : Prop :=
  ∀ key time, pins.lookup key = some time → lookupKey key = key ∧ key ≠ [] ∧ time < 2 ^ 64

variable {book : Book} {action : Action} {host : Text} {time : ℕ}

/-- A pin after an action was there before, or has just been learned. -/
theorem Book.lookup_of_act (pinned : (book.act action).pins.lookup host = some time) :
    book.pins.lookup host = some time ∨ ∃ origin, action = .learn origin host time := by
  have expired {now : ℕ} (kept : (book.expire now).pins.lookup host = some time) : book.pins.lookup host = some time := by
    rw [Book.lookup_expire] at kept
    exact (Option.filter_eq_some_iff.mp kept).1
  cases action with
  | idle => exact .inl pinned
  | expire now => exact .inl (expired pinned)
  | learn origin key now =>
    rw [Book.act, Book.learn_pins, AList.lookup_insert_eq_ite] at pinned
    split at pinned
    · next same =>
      cases pinned
      exact .inr ⟨origin, by rw [same]⟩
    · exact .inl (expired pinned)
  | upstreamBurst now => exact .inl (expired (Book.lookup_foldl_takeBack_eq_some.mp pinned).1)
  | silentBurst now => exact .inl (expired (Book.lookup_foldl_takeBack_eq_some.mp pinned).1)
  | networkChange now => exact .inl (Book.lookup_takeFresh_eq_some.mp pinned).1.1
  | forget keys =>
    rw [Book.act, (Book.foldl_forget keys book).1] at pinned
    split at pinned
    · cases pinned
    · exact .inl pinned

/-- What a call learns is the key of its host. -/
theorem Learning.learned_key {learning : Learning} {call : Call} {key : Text} {origin : Origin} {now : ℕ}
    (made : learning.learned call = some (key, origin, now)) :
    ∃ host ∈ call.op.host?, key = lookupKey host ∧ key ≠ [] := by
  obtain ⟨op, ties⟩ := call
  unfold Learning.learned at made
  split at made
  · next success =>
    cases op with
    | recordClientRejection host time =>
      cases made
      refine ⟨host, rfl, rfl, fun empty => ?_⟩
      simp [Learning.call, Learning.recordClientRejection, empty] at success
    | recordSilentRefusal host time =>
      cases made
      refine ⟨host, rfl, rfl, fun empty => ?_⟩
      simp [Learning.call, Learning.recordSilentRefusal, empty] at success
    | learnUpstreamUntrusted host time =>
      cases made
      refine ⟨host, rfl, rfl, fun empty => ?_⟩
      simp [Learning.call, Learning.learnUpstreamUntrusted, empty] at success
    | _ => contradiction
  · contradiction

theorem Durable.call {learning : Learning} {call : Call} (durable : Durable learning.pins)
    (stable : ∀ host ∈ call.op.host?, StableHost host) : Durable (learning.call call).2.pins := by
  intro key time pinned
  have acted : (learning.book.act (learning.action call)).pins.lookup key = some time := by
    rw [← learning.call_book call]
    exact pinned
  rcases Book.lookup_of_act acted with old | ⟨origin, learns⟩
  · exact durable key time old
  · cases made : learning.learned call with
    | none =>
      rw [Learning.action, made] at learns
      exact absurd learns (learning.upkeep_ne_learn _ call)
    | some learned =>
      obtain ⟨learnedKey, by_, now⟩ := learned
      rw [Learning.action, made] at learns
      cases learns
      obtain ⟨host, given, rfl, nonempty⟩ := Learning.learned_key made
      exact ⟨stable host given, nonempty, Op.now_lt (Learning.learned_spec learning _ made).1⟩

theorem durable_after {saved : HostMap ℕ} (durable : Durable saved) {calls : List Call}
    (stable : ∀ call ∈ calls, ∀ host ∈ call.op.host?, StableHost host) : Durable (afterCalls saved calls).pins := by
  induction calls with
  | nil => exact durable
  | cons call past ih =>
    obtain ⟨newest, earlier⟩ := List.forall_mem_cons.mp stable
    exact (ih earlier).call newest

/-- What collecting a list of entries finds: the last entry of each key. -/
theorem collectPins_concat (entries : List PinEntry) (entry : PinEntry) :
    Policy.collectPins (entries ++ [entry]) =
      if (lookupKey entry.host).isEmpty then Policy.collectPins entries
      else (Policy.collectPins entries).insert (lookupKey entry.host) entry.learnedAt.toNat := by
  rw [Policy.collectPins, List.foldl_append]
  rfl

theorem durable_collectPins {entries : List PinEntry} (stable : ∀ entry ∈ entries, StableHost entry.host) :
    Durable (Policy.collectPins entries) := by
  induction entries using List.reverseRecOn with
  | nil => exact nofun
  | append_singleton entries entry ih =>
    have earlier := ih fun other member => stable other (List.mem_append_left _ member)
    rw [collectPins_concat]
    split
    · exact earlier
    · next nonempty =>
      intro key time pinned
      rw [AList.lookup_insert_eq_ite] at pinned
      split at pinned
      · next same =>
        cases pinned
        subst same
        exact ⟨stable entry (by simp), by simpa using nonempty, UInt64.toNat_lt _⟩
      · exact earlier key time pinned

/-- Collecting a list that names each of its stable keys once finds exactly the list. -/
theorem lookup_collectPins {pins : List LearnedAt} (once : (pins.map Prod.fst).Nodup)
    (good : ∀ pin ∈ pins, lookupKey pin.1 = pin.1 ∧ pin.1 ≠ [] ∧ pin.2 < 2 ^ 64) {key : Text} {time : ℕ} :
    (Policy.collectPins (pins.map fun pin => ⟨pin.1, UInt64.ofNat pin.2⟩)).lookup key = some time ↔
      (key, time) ∈ pins := by
  induction pins using List.reverseRecOn with
  | nil => simp [Policy.collectPins]
  | append_singleton pins pin ih =>
    obtain ⟨stable, nonempty, small⟩ := good pin (by simp)
    rw [List.map_append, List.nodup_append] at once
    have earlier := ih once.1 fun other member => good other (List.mem_append_left _ member)
    rw [List.map_append, List.map_singleton, collectPins_concat, stable, if_neg (by simpa using nonempty),
      AList.lookup_insert_eq_ite, UInt64.toNat_ofNat_of_lt' small, List.mem_append, List.mem_singleton]
    split
    · next same =>
      subst same
      have free : (pin.1, time) ∉ pins := fun member =>
        once.2.2 _ (List.mem_map_of_mem member) _ (by simp) rfl
      simp [free, Prod.ext_iff, eq_comm]
    · next other =>
      rw [earlier]
      simp [Prod.ext_iff, other]

namespace Policy

instance : Std.Total PinLe := ⟨by
  rintro ⟨left, first⟩ ⟨right, second⟩
  rcases lt_trichotomy left right with below | rfl | above
  · exact .inl (.inl below)
  · rcases le_total first second with earlier | later
    · exact .inl (.inr ⟨rfl, earlier⟩)
    · exact .inr (.inr ⟨rfl, later⟩)
  · exact .inr (.inl above)⟩

instance : IsTrans LearnedAt PinLe := ⟨by
  rintro ⟨a, first⟩ ⟨b, second⟩ ⟨c, third⟩ (below | ⟨rfl, earlier⟩) (lower | ⟨rfl, later⟩)
  · exact .inl (below.trans lower)
  · exact .inl below
  · exact .inl lower
  · exact .inr ⟨rfl, earlier.trans later⟩⟩

instance : Std.Antisymm PinLe := ⟨by
  rintro ⟨a, first⟩ ⟨b, second⟩ (below | ⟨same, earlier⟩) (above | ⟨equal, later⟩)
  · exact absurd (lt_trans below above) (lt_irrefl _)
  · exact absurd below (not_lt_of_ge (le_of_eq equal))
  · exact absurd above (not_lt_of_ge (le_of_eq same))
  · exact Prod.ext same (le_antisymm earlier later)⟩

variable {policy other : Policy}

theorem learnedPins_perm (policy : Policy) :
    policy.learnedPins.Perm (policy.learning.pins.entries.map fun entry => (entry.1, entry.2)) :=
  List.perm_insertionSort ..

theorem mem_learnedPins {key : Text} {time : ℕ} :
    (key, time) ∈ policy.learnedPins ↔ policy.learning.pins.lookup key = some time := by
  rw [policy.learnedPins_perm.mem_iff, List.mem_map]
  constructor
  · rintro ⟨entry, member, same⟩
    cases same
    exact AList.mem_lookup_iff.mpr member
  · intro pinned
    exact ⟨⟨key, time⟩, AList.mem_lookup_iff.mp pinned, rfl⟩

theorem learnedPins_once (policy : Policy) : (policy.learnedPins.map Prod.fst).Nodup := by
  rw [(policy.learnedPins_perm.map Prod.fst).nodup_iff, List.map_map]
  exact policy.learning.pins.keys_nodup

/-- The list of pins depends on the lookups only. -/
theorem learnedPins_congr (same : ∀ key, policy.learning.pins.lookup key = other.learning.pins.lookup key) :
    policy.learnedPins = other.learnedPins := by
  have entries : policy.learning.pins.entries.Perm other.learning.pins.entries := by
    refine List.lookup_ext policy.learning.pins.nodupKeys other.learning.pins.nodupKeys fun key time => ?_
    have found := same key
    unfold AList.lookup at found
    rw [found]
  refine List.Perm.eq_of_pairwise' (List.pairwise_insertionSort PinLe _) (List.pairwise_insertionSort PinLe _) ?_
  exact policy.learnedPins_perm.trans ((entries.map _).trans other.learnedPins_perm.symm)

/-- Durable pins are found again in the file that lists them. -/
theorem lookup_parsePins {format : PinsFormat} (faithful : format.Faithful) (durable : Durable policy.learning.pins)
    (key : Text) :
    (parsePins format (policy.learnedPinsJson format)).lookup key = policy.learning.pins.lookup key := by
  rw [parsePins, learnedPinsJson, faithful]
  dsimp only
  rw [if_pos rfl]
  apply Option.ext
  intro time
  rw [← mem_learnedPins]
  refine lookup_collectPins policy.learnedPins_once fun pin member => ?_
  exact durable pin.1 pin.2 (mem_learnedPins.mp member)

end Policy

end Tollgate
