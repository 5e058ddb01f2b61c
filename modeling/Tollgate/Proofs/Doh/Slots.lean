import Tollgate.Proofs.Doh.Marks
import Tollgate.ToMathlib.Retain

/-! # The shared connection

Resets are numbered by the epochs they make, and each number is with one reset: on its way or returned.
A connection in the slot that began before a reset is one that this reset has yet to drop, provided
that connections are stored only in the epoch in which their connect began.
-/

namespace Tollgate.Doh

open List

/-- The number of a reset that has begun. -/
def Phase.number : Phase → List ℕ
  | reset (.clear number) | reset (.drop number) | reset (.notify number) => [number]
  | _ => []

@[simp] theorem Phase.number_notify (phase : Phase) : phase.notify.number = phase.number := by cases phase <;> rfl

/-- The connect of an attempt began after it read the epoch. -/
def ColdStage.Ordered (epoch : ℕ) : ColdStage → Prop
  | start loaded => loaded ≤ epoch
  | connect loaded sender | check loaded sender | store loaded sender => loaded ≤ sender.began
  | _ => True

def Phase.Ordered (epoch : ℕ) : Phase → Prop
  | cold _ stage => stage.Ordered epoch
  | _ => True

theorem Phase.Ordered.notify {epoch : ℕ} {phase : Phase} (ordered : phase.Ordered epoch) :
    phase.notify.Ordered epoch := by
  cases phase <;> exact ordered

theorem Phase.Ordered.mono {epoch later : ℕ} (le : epoch ≤ later) {phase : Phase} (ordered : phase.Ordered epoch) :
    phase.Ordered later := by
  cases phase with
  | cold watch stage =>
    cases stage with
    | start loaded => exact ordered.trans le
    | _ => exact ordered
  | _ => trivial

theorem Phase.Begins.number {phase : Phase} (begins : phase.Begins) : phase.number = [] := by
  cases begins <;> rfl

theorem Phase.Begins.ordered {phase : Phase} (begins : phase.Begins) (epoch : ℕ) : phase.Ordered epoch := by
  cases begins <;> trivial

namespace Shared

variable {shared next : Shared} {locked : Bool} {phase after : Phase} {choice : Choice}

theorem epoch_le (stepped : shared.advance locked phase choice = some (next, after)) : shared.epoch ≤ next.epoch := by
  cases advanced_of_advance stepped with
  | reset stage => cases stage <;> simp [stepReset, cleared]
  | mark mark stage => exact (shared.stepMark_keeps mark stage).1.ge
  | markUp => exact le_refl _
  | query queried => exact le_refl _

theorem ordered_of_advance (ordered : phase.Ordered shared.epoch)
    (stepped : shared.advance locked phase choice = some (next, after)) : after.Ordered next.epoch := by
  cases advanced_of_advance stepped with
  | reset stage => cases stage <;> trivial
  | mark mark stage =>
    obtain ⟨-, -, -, ends | ⟨later, goes⟩⟩ := shared.stepMark_keeps mark stage
    · rw [ends]
      trivial
    · rw [goes]
      trivial
  | markUp => trivial
  | query queried =>
    cases queried with
    | loads watch => exact le_refl _
    | starts watch loaded => exact ordered
    | connects watch loaded sender => exact ordered
    | passes watch sender current => exact ordered
    | _ => trivial

/-- A step hands a number on, or makes the next one. -/
theorem Advanced.number (advanced : shared.Advanced phase next after) :
    (next.epoch = shared.epoch ∧ (after.number ++ next.returned).Perm (phase.number ++ shared.returned)) ∨
      (next.epoch = shared.epoch + 1 ∧
        after.number ++ next.returned = (shared.epoch + 1) :: (phase.number ++ shared.returned)) := by
  cases advanced with
  | reset stage =>
    cases stage with
    | increment => exact .inr ⟨rfl, rfl⟩
    | clear number => exact .inl ⟨rfl, .refl _⟩
    | drop number => exact .inl ⟨rfl, .refl _⟩
    | notify number => exact .inl ⟨rfl, perm_append_singleton ..⟩
  | mark mark stage =>
    obtain ⟨epoch, -, returned, ends | ⟨later, goes⟩⟩ := shared.stepMark_keeps mark stage
    · rw [ends, returned]
      exact .inl ⟨epoch, .refl _⟩
    · rw [goes, returned]
      exact .inl ⟨epoch, .refl _⟩
  | markUp => exact .inl ⟨rfl, .refl _⟩
  | query queried =>
    left
    cases queried <;> exact ⟨rfl, .refl _⟩

end Shared

namespace Slot

theorem openSender_sender (slot : Slot) (now : Reading) (closed : Bool) :
    (slot.openSender now closed).2.sender = none ∨ (slot.openSender now closed).2.sender = slot.sender := by
  unfold openSender
  split
  · exact .inr rfl
  · split
    · exact .inr rfl
    · split
      · exact .inl rfl
      · exact .inr rfl

theorem touch_sender (slot : Slot) (generation : ℕ) (now : Reading) :
    (slot.touch generation now).sender = slot.sender := by
  unfold touch
  split <;> rfl

theorem discard_sender (slot : Slot) (generation : ℕ) :
    (slot.discard generation).sender = none ∨ (slot.discard generation).sender = slot.sender := by
  unfold discard
  split
  · exact .inl rfl
  · exact .inr rfl

theorem reset_sender (slot : Slot) : slot.reset.sender = none := by
  unfold reset
  split
  · rfl
  · next empty => exact Option.not_isSome_iff_eq_none.mp empty

end Slot

/-- A query drops the connection, leaves it, or stores its own. -/
theorem Shared.Queried.sender {shared : Shared} {phase after : Phase} {slot : Slot}
    (queried : shared.Queried phase slot after) :
    slot.sender = none ∨ slot.sender = shared.slot.sender ∨
      ∃ watch loaded sender, phase = .cold watch (.store loaded sender) ∧ slot.sender = some sender := by
  cases queried with
  | opens now closed | misses watch now closed =>
    rcases shared.slot.openSender_sender now closed with gone | same
    · exact .inl gone
    · exact .inr (.inl same)
  | @finds watch now closed generation sender slot found =>
    have senders := shared.slot.openSender_sender now closed
    rw [found] at senders
    rcases senders with gone | same
    · exact .inl gone
    · exact .inr (.inl same)
  | touches generation now => exact .inr (.inl (shared.slot.touch_sender generation now))
  | marks taken epoch now | retries taken =>
    rcases shared.slot.discard_sender taken.generation with gone | same
    · exact .inl gone
    · exact .inr (.inl same)
  | stores watch loaded sender now => exact .inr (.inr ⟨watch, loaded, sender, rfl, rfl⟩)
  | _ => exact .inr (.inl rfl)

namespace World

variable {world next : World} {event : Event}

/-- Every number is with one reset, and a connection from before a reset is one it has yet to drop. -/
structure Shares (world : World) : Prop where
  ordered : ∀ phase ∈ world.calls, phase.Ordered world.shared.epoch
  numbered : ∀ number, (world.calls.flatMap Phase.number ++ world.shared.returned).count number ≤
    if number ≤ world.shared.epoch then 1 else 0
  fresh : ∀ sender ∈ world.shared.slot.sender, ∀ number, sender.began < number → number ≤ world.shared.epoch →
    .reset (.clear number) ∈ world.calls ∨ .reset (.drop number) ∈ world.calls

theorem shares_start : start.Shares := by
  refine ⟨nofun, fun number => ?_, nofun⟩
  exact Nat.zero_le _

theorem Shares.begin {phase : Phase} (shares : world.Shares) (begins : phase.Begins) : (world.begin phase).Shares := by
  refine ⟨?_, fun number => ?_, fun sender held number before begun => ?_⟩
  · intro other member
    rcases mem_append.mp member with old | new
    · exact shares.ordered other old
    · obtain rfl := mem_singleton.mp new
      exact begins.ordered _
  · simp only [World.begin, flatMap_append, flatMap_singleton, begins.number, append_nil]
    exact shares.numbered number
  · rcases shares.fresh sender held number before begun with clears | drops
    · exact .inl (mem_append_left _ clears)
    · exact .inr (mem_append_left _ drops)

theorem number_woken (calls : List Phase) (phase : Phase) :
    (woken calls phase).flatMap Phase.number = calls.flatMap Phase.number := by
  unfold woken
  split
  · simp only [flatMap_map, Phase.number_notify]
  · rfl

theorem getElem?_woken {calls : List Phase} {call : ℕ} {phase : Phase} (found : calls[call]? = some phase) :
    (woken calls phase)[call]? = some phase := by
  unfold woken
  split
  · rw [getElem?_map, found]
    rfl
  · exact found

section Step

variable {call : ℕ} {phase after : Phase} {shared : Shared}

theorem Shares.numbered_of_step (shares : world.Shares) (found : world.calls[call]? = some phase)
    (advanced : world.shared.Advanced phase shared after) (number : ℕ) :
    (((woken world.calls phase).set call after).flatMap Phase.number ++ shared.returned).count number ≤
      if number ≤ shared.epoch then 1 else 0 := by
  have traded := count_flatMap_set Phase.number (getElem?_woken found) after number
  have known := shares.numbered number
  rw [number_woken] at traded
  rw [count_append] at known ⊢
  rcases advanced.number with ⟨epoch, handed⟩ | ⟨epoch, made⟩
  · have counts := handed.count_eq number
    rw [count_append, count_append] at counts
    rw [epoch]
    omega
  · have counts := congrArg (count number) made
    rw [count_append, count_cons, count_append] at counts
    rw [epoch]
    by_cases new : number = world.shared.epoch + 1
    · subst new
      simp only [beq_self_eq_true, if_true, le_refl] at counts ⊢
      rw [if_neg (by omega)] at known
      omega
    · have other : (world.shared.epoch + 1 == number) = false := beq_eq_false_iff_ne.mpr (Ne.symm new)
      have same : (number ≤ world.shared.epoch + 1) = (number ≤ world.shared.epoch) := by
        apply propext
        omega
      rw [other] at counts
      simp only [same]
      simp only [Bool.false_eq_true, if_false] at counts
      omega

/-- A step that neither stores a connection nor makes an epoch, and is not one a connection waits for. -/
theorem Shares.fresh_of_step (shares : world.Shares) (found : world.calls[call]? = some phase)
    (slot : shared.slot.sender = none ∨ shared.slot.sender = world.shared.slot.sender)
    (clear : ∀ number, phase ≠ .reset (.clear number)) (drop : ∀ number, phase ≠ .reset (.drop number)) :
    ∀ sender ∈ shared.slot.sender, ∀ number, sender.began < number → number ≤ world.shared.epoch →
      .reset (.clear number) ∈ (woken world.calls phase).set call after ∨
        .reset (.drop number) ∈ (woken world.calls phase).set call after := by
  intro sender held number before begun
  rcases slot with gone | same
  · rw [gone] at held
    cases held
  · rw [same] at held
    rcases shares.fresh sender held number before begun with clears | drops
    · exact .inl (mem_of_step found clears (clear number).symm rfl)
    · exact .inr (mem_of_step found drops (drop number).symm rfl)

theorem Shares.fresh_of_reset {stage : ResetStage} (shares : world.Shares)
    (found : world.calls[call]? = some (.reset stage)) :
    ∀ sender ∈ (world.shared.stepReset stage).1.slot.sender, ∀ number, sender.began < number →
      number ≤ (world.shared.stepReset stage).1.epoch →
        .reset (.clear number) ∈ (woken world.calls (.reset stage)).set call (world.shared.stepReset stage).2 ∨
          .reset (.drop number) ∈ (woken world.calls (.reset stage)).set call (world.shared.stepReset stage).2 := by
  cases stage with
  | increment =>
    intro sender held number before begun
    rcases Nat.le_succ_iff.mp begun with old | rfl
    · exact shares.fresh_of_step found (.inr rfl) nofun nofun sender held number before old
    · exact .inl (mem_stepped found)
  | clear own =>
    intro sender held number before begun
    rcases shares.fresh sender held number before begun with clears | drops
    · by_cases mine : number = own
      · subst mine
        exact .inr (mem_stepped found)
      · refine .inl (mem_of_step found clears ?_ rfl)
        rintro ⟨⟩
        exact mine rfl
    · exact .inr (mem_of_step found drops nofun rfl)
  | drop own =>
    intro sender held
    rw [Shared.stepReset, Slot.reset_sender] at held
    cases held
  | notify own => exact shares.fresh_of_step found (.inr rfl) nofun nofun

end Step

theorem Shares.step (shares : world.Shares) (current : world.StoresCurrent event)
    (stepped : world.step event = some next) : next.Shares := by
  rcases step_cases stepped with ⟨phase, begins, rfl⟩ | ⟨call, choice, phase, shared, after, rfl, found, ran, rfl⟩
  · exact shares.begin begins
  · have advanced := Shared.advanced_of_advance ran
    have ordered := shares.ordered phase (mem_of_getElem? found)
    refine ⟨?_, shares.numbered_of_step found advanced, ?_⟩
    · apply forall_of_step shares.ordered (Shared.ordered_of_advance ordered ran)
      · exact fun other => Phase.Ordered.mono (Shared.epoch_le ran)
      · exact fun other => Phase.Ordered.notify
    · cases advanced with
      | reset stage => exact shares.fresh_of_reset found
      | mark mark stage =>
        obtain ⟨epoch, slot, -⟩ := world.shared.stepMark_keeps mark stage
        rw [epoch]
        exact shares.fresh_of_step found (.inr (congrArg Slot.sender slot)) nofun nofun
      | markUp => exact shares.fresh_of_step found (.inr rfl) nofun nofun
      | query queried =>
        have clear : ∀ number, phase ≠ .reset (.clear number) := by
          rintro number rfl
          cases queried
        have drop : ∀ number, phase ≠ .reset (.drop number) := by
          rintro number rfl
          cases queried
        rcases queried.sender with gone | same | ⟨watch, loaded, sender, rfl, stored⟩
        · exact shares.fresh_of_step found (.inl gone) clear drop
        · exact shares.fresh_of_step found (.inr same) clear drop
        · intro other held number before begun
          rw [stored] at held
          obtain rfl := Option.some.inj held
          have same : world.shared.epoch = loaded := current watch loaded sender found
          have late : loaded ≤ sender.began := ordered
          change number ≤ world.shared.epoch at begun
          omega

theorem shares_after {history : List Event} (along : Machine.Along World.step World.start StoresCurrent history)
    (ran : World.after history = some world) : world.Shares :=
  Machine.run_invariant Shares shares_start (fun _ _ _ shares current stepped => shares.step current stepped) along ran

/-- A reset that has returned has nothing left to do. -/
theorem Shares.of_returned (shares : world.Shares) {number : ℕ} (returned : number ∈ world.shared.returned) :
    .reset (.clear number) ∉ world.calls ∧ .reset (.drop number) ∉ world.calls := by
  have once := shares.numbered number
  have counted : 0 < world.shared.returned.count number := count_pos_iff.mpr returned
  have absent : number ∉ world.calls.flatMap Phase.number := by
    apply count_eq_zero.mp
    rw [count_append] at once
    split at once <;> omega
  refine ⟨fun clears => absent ?_, fun drops => absent ?_⟩
  · exact mem_flatMap.mpr ⟨_, clears, mem_singleton_self _⟩
  · exact mem_flatMap.mpr ⟨_, drops, mem_singleton_self _⟩

/-- The number of a reset that has returned is an epoch. -/
theorem Shares.returned_le (shares : world.Shares) {number : ℕ} (returned : number ∈ world.shared.returned) :
    number ≤ world.shared.epoch := by
  have once := shares.numbered number
  have counted : 0 < world.shared.returned.count number := count_pos_iff.mpr returned
  rw [count_append] at once
  by_contra later
  rw [if_neg later] at once
  omega

end World

end Tollgate.Doh
