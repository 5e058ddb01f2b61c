import Tollgate.Model.Doh.Ledger
import Tollgate.Proofs.Doh.Slots
import Tollgate.Soundness.DohResets

/-! # Late queries and newer connections

The generation of the slot is at least that of every connection installed so far, and it is that of the
connection in the slot if there is one. So a generation names one connection, and what a query does late
with the generation it got leaves a newer connection alone. The calls of an upstream go through the slot
only by these sections, with generations they got, so the same holds of them.
-/

namespace Tollgate.Doh

open List

namespace Slot

variable (slot : Slot)

/-- A section that installs nothing: the generation does not go back, and a connection that is still there
is the old one under the old generation. -/
structure Kept (slot next : Slot) : Prop where
  generation_le : slot.generation ≤ next.generation
  same : ∀ sender, next.sender = some sender → slot.sender = some sender ∧ next.generation = slot.generation

theorem kept_refl : slot.Kept slot := ⟨le_refl _, fun _ held => ⟨held, rfl⟩⟩

theorem kept_emptied {generation : ℕ} (le : slot.generation ≤ generation) (lastUsed : Reading) :
    slot.Kept ⟨none, generation, lastUsed⟩ := ⟨le, nofun⟩

theorem kept_touch (generation : ℕ) (now : Reading) : slot.Kept (slot.touch generation now) := by
  unfold touch
  split
  · exact ⟨le_refl _, fun _ held => ⟨held, rfl⟩⟩
  · exact slot.kept_refl

theorem kept_discard (generation : ℕ) : slot.Kept (slot.discard generation) := by
  unfold discard
  split
  · exact slot.kept_emptied (le_refl _) _
  · exact slot.kept_refl

theorem kept_reset : slot.Kept slot.reset := by
  unfold reset
  split
  · exact slot.kept_emptied (Nat.le_succ _) _
  · exact slot.kept_refl

/-- What `open_sender` hands out is the connection in the slot, which stays there. -/
theorem openSender_spec (now : Reading) (closed : Bool) :
    slot.Kept (slot.openSender now closed).2 ∧
      ∀ generation sender, (slot.openSender now closed).1 = some (generation, sender) →
        generation = slot.generation ∧ slot.sender = some sender ∧ (slot.openSender now closed).2 = slot := by
  unfold openSender
  split
  · exact ⟨slot.kept_refl, nofun⟩
  · next sender there =>
    split
    · exact ⟨slot.kept_refl, nofun⟩
    · split
      · exact ⟨slot.kept_emptied (le_refl _) _, nofun⟩
      · refine ⟨slot.kept_refl, ?_⟩
        rintro generation found ⟨⟩
        exact ⟨rfl, there, rfl⟩

theorem touch_of_ne {generation : ℕ} (other : slot.generation ≠ generation) (now : Reading) :
    slot.touch generation now = slot := if_neg other

theorem discard_of_ne {generation : ℕ} (other : slot.generation ≠ generation) : slot.discard generation = slot :=
  if_neg other

end Slot

namespace Ledger

variable {ledger : Ledger}

/-- The books agree with the slot. -/
structure Kept (ledger : Ledger) : Prop where
  increasing : (ledger.installed.map Installed.generation).Pairwise (· < ·)
  bounded : ∀ connection ∈ ledger.installed, connection.generation ≤ ledger.slot.generation
  /-- The slot holds what the books say, under its own generation. -/
  held : ∀ sender, ledger.slot.sender = some sender → ∃ place, ledger.held = some place ∧
    ledger.installed[place]? = some ⟨ledger.slot.generation, sender⟩
  empty : ledger.slot.sender = none → ledger.held = none
  handed : ∀ handed ∈ ledger.handed, ledger.installed[handed.place]? = some ⟨handed.generation, handed.sender⟩

theorem kept_start : start.Kept := ⟨.nil, nofun, nofun, fun _ => rfl, nofun⟩

theorem Kept.keep (kept : ledger.Kept) {slot : Slot} (keeps : ledger.slot.Kept slot) : (ledger.keep slot).Kept := by
  refine ⟨kept.increasing, fun connection member => ?_, fun sender there => ?_, fun gone => ?_, kept.handed⟩
  · exact (kept.bounded connection member).trans keeps.generation_le
  · obtain ⟨old, same⟩ := keeps.same sender there
    obtain ⟨place, held, found⟩ := kept.held sender old
    refine ⟨place, ?_, ?_⟩
    · have present : slot.sender.isSome := Option.isSome_of_mem there
      exact (if_pos present).trans held
    · exact found.trans (congrArg (fun generation => some (Installed.mk generation sender)) same.symm)
  · have absent : ¬slot.sender.isSome := by
      rw [show slot.sender = none from gone]
      exact Bool.false_ne_true
    exact if_neg absent

theorem Kept.give (kept : ledger.Kept) {sender : Connection} (there : ledger.slot.sender = some sender) :
    (ledger.give (some (ledger.slot.generation, sender))).Kept := by
  refine ⟨kept.increasing, kept.bounded, kept.held, kept.empty, fun handed member => ?_⟩
  rcases mem_append.mp member with old | new
  · exact kept.handed handed old
  · obtain ⟨place, held, found⟩ := kept.held sender there
    rw [held] at new
    obtain rfl := mem_singleton.mp new
    exact found

theorem Kept.install (kept : ledger.Kept) (sender : Connection) (now : Reading) :
    (ledger.step (.install sender now)).Kept := by
  have own : (ledger.installed ++ [⟨ledger.slot.generation + 1, sender⟩])[ledger.installed.length]? =
      some ⟨ledger.slot.generation + 1, sender⟩ := getElem?_concat_length
  refine ⟨?_, ?_, ?_, nofun, ?_⟩
  · apply map_append ▸ pairwise_append.mpr
    refine ⟨kept.increasing, pairwise_singleton _ _, ?_⟩
    intro earlier member later last
    obtain ⟨connection, installed, rfl⟩ := mem_map.mp member
    obtain rfl := mem_singleton.mp last
    exact Nat.lt_succ_of_le (kept.bounded connection installed)
  · intro connection member
    rcases mem_append.mp member with old | new
    · exact (kept.bounded connection old).trans (Nat.le_succ _)
    · obtain rfl := mem_singleton.mp new
      exact le_refl _
  · rintro held ⟨⟩
    exact ⟨_, rfl, own⟩
  · intro handed member
    rcases mem_append.mp member with old | new
    · exact List.getElem?_append_left (List.getElem?_eq_some_iff.mp (kept.handed handed old)).1 ▸ kept.handed handed old
    · obtain rfl := mem_singleton.mp new
      exact own

theorem step_openSender (ledger : Ledger) (now : Reading) (closed : Bool) :
    ledger.step (.openSender now closed) =
      (ledger.keep (ledger.slot.openSender now closed).2).give (ledger.slot.openSender now closed).1 := rfl

theorem Kept.step (kept : ledger.Kept) (taken : Section) : (ledger.step taken).Kept := by
  cases taken with
  | openSender now closed =>
    obtain ⟨keeps, gives⟩ := ledger.slot.openSender_spec now closed
    have before := kept.keep keeps
    rw [step_openSender]
    cases found : (ledger.slot.openSender now closed).1 with
    | none => exact before
    | some given =>
      obtain ⟨generation, sender⟩ := given
      obtain ⟨rfl, there, stays⟩ := gives generation sender found
      rw [stays] at before ⊢
      exact before.give there
  | install sender now => exact kept.install sender now
  | touch generation now => exact kept.keep (ledger.slot.kept_touch generation now)
  | discard generation => exact kept.keep (ledger.slot.kept_discard generation)
  | reset => exact kept.keep ledger.slot.kept_reset

theorem kept_after (history : List Section) : (after history).Kept := by
  induction history with
  | nil => exact kept_start
  | cons taken past ih => exact ih.step taken

/-- A generation is that of one connection. -/
theorem Kept.place_unique (kept : ledger.Kept) {first second : ℕ} {left right : Installed}
    (here : ledger.installed[first]? = some left) (there : ledger.installed[second]? = some right)
    (same : left.generation = right.generation) : first = second := by
  have nodup : (ledger.installed.map Installed.generation).Nodup := kept.increasing.imp fun lt => lt.ne
  obtain ⟨bound, -⟩ := List.getElem?_eq_some_iff.mp here
  apply (List.getElem?_inj (by rwa [length_map]) nodup).mp
  rw [getElem?_map, getElem?_map, here, there, Option.map_some, Option.map_some, same]

/-- Generations of installed connections increase; a generation that was handed out is that of the
connection it came with and of no other; and while the slot holds another connection, a late `touch` or
`discard` with that generation changes nothing. -/
theorem late_use_spares_newer (history : List Section) :
    ((after history).installed.map Installed.generation).Pairwise (· < ·) ∧
      (after history).slot.sender =
        ((after history).held.bind fun place => (after history).installed[place]?).map Installed.sender ∧
      ∀ handed ∈ (after history).handed,
        (after history).installed[handed.place]? = some ⟨handed.generation, handed.sender⟩ ∧
        (∀ place connection, (after history).installed[place]? = some connection →
          connection.generation = handed.generation → place = handed.place) ∧
        ∀ place, (after history).held = some place → place ≠ handed.place →
          (∀ now, (after history).slot.touch handed.generation now = (after history).slot) ∧
            (after history).slot.discard handed.generation = (after history).slot := by
  have kept := kept_after history
  generalize after history = ledger at kept
  refine ⟨kept.increasing, ?_, fun handed member => ⟨kept.handed handed member, ?_, ?_⟩⟩
  · cases there : ledger.slot.sender with
    | none => rw [kept.empty there, Option.bind_none, Option.map_none]
    | some sender =>
      obtain ⟨place, held, found⟩ := kept.held sender there
      rw [held, Option.bind_some, found, Option.map_some]
  · intro place connection found same
    exact kept.place_unique found (kept.handed handed member) same
  · intro place held different
    cases there : ledger.slot.sender with
    | none => exact absurd (held.symm.trans (kept.empty there)) nofun
    | some sender =>
      obtain ⟨current, same, found⟩ := kept.held sender there
      obtain rfl := Option.some.inj (held.symm.trans same)
      have other : ledger.slot.generation ≠ handed.generation := fun equal =>
        different (kept.place_unique found (kept.handed handed member) equal)
      exact ⟨ledger.slot.touch_of_ne other, ledger.slot.discard_of_ne other⟩

end Ledger

/-- The generation that a call still has from the slot. -/
def Phase.got : Phase → Option ℕ
  | .registering attempt _ | .loading attempt _ _ => attempt.map Taken.generation
  | .warm _ taken | .cold _ (.exchange taken) | .discarding taken _ => some taken.generation
  | .touching generation => some generation
  | _ => none

theorem Phase.got_notify (phase : Phase) : phase.notify.got = phase.got := by
  cases phase with
  | cold watch stage => cases stage <;> rfl
  | _ => rfl

theorem Phase.Begins.got {phase : Phase} (begins : phase.Begins) : phase.got = none := by cases begins <;> rfl

namespace Ledger

variable {history : List Section}

/-- A generation was handed out in a history. -/
def Gave (history : List Section) (generation : ℕ) : Prop :=
  ∃ handed ∈ (after history).handed, handed.generation = generation

theorem after_cons (taken : Section) (history : List Section) :
    after (taken :: history) = (after history).step taken := rfl

theorem handed_sublist_step (ledger : Ledger) (taken : Section) : ledger.handed <+ (ledger.step taken).handed := by
  cases taken with
  | openSender now closed =>
    rw [step_openSender]
    cases (ledger.slot.openSender now closed).1 with
    | none => exact .refl _
    | some given => exact sublist_append_left ..
  | install sender now => exact sublist_append_left ..
  | touch generation now | discard generation | reset => exact .refl _

theorem Gave.cons {generation : ℕ} (gave : Gave history generation) (taken : Section) :
    Gave (taken :: history) generation := by
  obtain ⟨handed, member, same⟩ := gave
  exact ⟨handed, (handed_sublist_step _ taken).mem member, same⟩

/-- `open_sender` does to the slot of the ledger what it does to the slot, and what it gives is booked. -/
theorem after_openSender (history : List Section) (now : Reading) (closed : Bool) :
    (after (.openSender now closed :: history)).slot = ((after history).slot.openSender now closed).2 ∧
      ∀ generation sender, ((after history).slot.openSender now closed).1 = some (generation, sender) →
        Gave (.openSender now closed :: history) generation := by
  rw [after_cons, step_openSender]
  constructor
  · cases ((after history).slot.openSender now closed).1 <;> rfl
  · intro generation sender found
    obtain ⟨rfl, there, stays⟩ := ((after history).slot.openSender_spec now closed).2 generation sender found
    obtain ⟨place, held, -⟩ := (kept_after history).held sender there
    refine ⟨⟨(after history).slot.generation, sender, place⟩, ?_, rfl⟩
    have still : ((after history).keep (after history).slot).held = some place :=
      (if_pos (Option.isSome_of_mem there)).trans held
    rw [after_cons, step_openSender, found, stays]
    apply mem_append_right
    rw [still]
    exact mem_singleton_self _

end Ledger

/-- A step of a call is at most one section of the slot, with a generation that the call has, and the
generation it then has is an old one or handed out in the section. -/
theorem Shared.Queried.section {shared : Shared} {phase after : Phase} {slot : Slot}
    (queried : shared.Queried phase slot after) {history : List Section}
    (same : (Ledger.after history).slot = shared.slot) (got : ∀ generation ∈ phase.got, Ledger.Gave history generation) :
    ∃ taken : Option Section, (Ledger.after (taken.toList ++ history)).slot = slot ∧
      ∀ generation ∈ after.got, Ledger.Gave (taken.toList ++ history) generation := by
  cases queried with
  | opens now closed =>
    obtain ⟨reached, gave⟩ := Ledger.after_openSender history now closed
    rw [same] at reached gave
    refine ⟨some (.openSender now closed), reached, fun generation member => ?_⟩
    obtain ⟨taken, mapped, rfl⟩ := Option.map_eq_some_iff.mp member
    obtain ⟨given, found, rfl⟩ := Option.map_eq_some_iff.mp mapped
    exact gave given.1 given.2 found
  | @finds watch now closed generation sender slot found =>
    obtain ⟨reached, gave⟩ := Ledger.after_openSender history now closed
    rw [same, found] at reached gave
    refine ⟨some (.openSender now closed), reached, fun other member => ?_⟩
    obtain rfl := Option.some.inj member
    exact gave generation sender rfl
  | misses watch now closed =>
    obtain ⟨reached, -⟩ := Ledger.after_openSender history now closed
    rw [same] at reached
    exact ⟨some (.openSender now closed), reached, nofun⟩
  | stores watch loaded sender now =>
    refine ⟨some (.install sender now), same ▸ rfl, fun generation member => ?_⟩
    obtain rfl := Option.some.inj member
    exact ⟨_, mem_append_right _ (mem_singleton_self _), same ▸ rfl⟩
  | touches generation now => exact ⟨some (.touch generation now), same ▸ rfl, nofun⟩
  | marks taken epoch now | retries taken => exact ⟨some (.discard taken.generation), same ▸ rfl, nofun⟩
  | registers warm stops => exact ⟨none, same, got⟩
  | loadsWarm taken stops notified => exact ⟨none, same, got⟩
  | warmReady watch taken | warmBreaks watch taken | warmTimesOut watch taken | coldReady watch taken =>
    exact ⟨none, same, got⟩
  | _ => exact ⟨none, same, nofun⟩

theorem Shared.Advanced.section {shared next : Shared} {phase after : Phase} {history : List Section}
    (advanced : shared.Advanced phase next after) (same : (Ledger.after history).slot = shared.slot)
    (got : ∀ generation ∈ phase.got, Ledger.Gave history generation) :
    ∃ taken : Option Section, (Ledger.after (taken.toList ++ history)).slot = next.slot ∧
      ∀ generation ∈ after.got, Ledger.Gave (taken.toList ++ history) generation := by
  cases advanced with
  | reset stage =>
    cases stage with
    | drop number => exact ⟨some .reset, congrArg Slot.reset same, nofun⟩
    | _ => exact ⟨none, same, nofun⟩
  | mark mark stage =>
    obtain ⟨-, slot, -, ends | ⟨later, goes⟩⟩ := shared.stepMark_keeps mark stage
    · rw [ends]
      exact ⟨none, same.trans slot.symm, nofun⟩
    · rw [goes]
      exact ⟨none, same.trans slot.symm, nofun⟩
  | markUp => exact ⟨none, same, nofun⟩
  | query queried => exact queried.section same got

namespace World

variable {world : World}

/-- The sections lead to the slot of the world, and every generation that a call has was handed out. -/
def Follows (world : World) (history : List Section) : Prop :=
  (Ledger.after history).slot = world.shared.slot ∧
    ∀ phase ∈ world.calls, ∀ generation ∈ phase.got, Ledger.Gave history generation

theorem follows_start : start.Follows [] := ⟨rfl, fun _ member => absurd member not_mem_nil⟩

/-- A step is at most one section. -/
theorem Follows.step {next : World} {event : Event} {history : List Section} (follows : world.Follows history)
    (stepped : world.step event = some next) : ∃ taken : Option Section, next.Follows (taken.toList ++ history) := by
  obtain ⟨same, got⟩ := follows
  rcases step_cases stepped with ⟨phase, begins, rfl⟩ | ⟨call, choice, phase, shared, after, rfl, found, advanced, rfl⟩
  · refine ⟨none, same, fun other member generation has => ?_⟩
    rcases mem_append.mp member with old | new
    · exact got other old generation has
    · obtain rfl := mem_singleton.mp new
      rw [begins.got] at has
      cases has
  · obtain ⟨taken, reached, gave⟩ :=
      Shared.Advanced.section (Shared.advanced_of_advance advanced) same (got phase (mem_of_getElem? found))
    refine ⟨taken, reached, forall_of_step got gave ?_ ?_⟩
    · intro other has generation member
      cases taken with
      | none => exact has generation member
      | some taken => exact (has generation member).cons taken
    · intro other has
      rw [Phase.got_notify]
      exact has

theorem Follows.run {next : World} {events later : List Event} {history : List Section}
    (follows : world.Follows history) (ran : World.after events = some world)
    (reached : World.after (later ++ events) = some next) :
    ∃ more, next.Follows (more ++ history) ∧ more.length ≤ later.length := by
  induction later generalizing next with
  | nil =>
    obtain rfl := Option.some.inj (ran.symm.trans reached)
    exact ⟨[], follows, Nat.le_refl _⟩
  | cons event later ih =>
    obtain ⟨middle, earlier, stepped⟩ := Machine.run_cons.mp reached
    obtain ⟨more, there, short⟩ := ih earlier
    obtain ⟨taken, here⟩ := there.step stepped
    refine ⟨taken.toList ++ more, ?_, ?_⟩
    · rw [append_assoc]
      exact here
    · have one : taken.toList.length ≤ 1 := by cases taken <;> simp
      rw [length_append, length_cons]
      omega

/-- Whatever the calls of an upstream do, they use the slot by sections, at most one a step and each with a
generation that was handed out before; what they do later only adds sections. -/
theorem calls_use_slot_by_sections {next : World} {events later : List Event} (ran : World.after events = some world)
    (reached : World.after (later ++ events) = some next) :
    ∃ history more, world.Follows history ∧ next.Follows (more ++ history) ∧ history.length ≤ events.length ∧
      more.length ≤ later.length := by
  obtain ⟨history, follows, short⟩ := follows_start.run rfl ((append_nil events).symm ▸ ran)
  rw [append_nil] at follows
  obtain ⟨more, grows, brief⟩ := follows.run ran reached
  exact ⟨history, more, follows, grows, short, brief⟩

/-- A query has stored its connection and waits for the answer on it. -/
def waiting : List Event := goes 0 2 2000 ++ connecting 0

/-- While it waits, a reset drops its connection and another query installs the next one. -/
theorem calls_use_slot_by_sections_sample :
    ∃ world next, World.after waiting = some world ∧ World.after ((answered 2 ++ wholeReset 1) ++ waiting) = some next ∧
      world.shared.slot.sender = some ⟨0⟩ ∧ next.shared.slot.sender = some ⟨1⟩ ∧ next.shared.slot.generation = 3 ∧
        next.calls.map Phase.got = [some 1, none, none] ∧
          ∃ history more, next.Follows (more ++ history) ∧ Ledger.Gave history 1 ∧ history ≠ [] ∧ more ≠ [] := by
  obtain ⟨world, ran, before, waits⟩ : ∃ world, World.after waiting = some world ∧
      world.shared.slot.sender = some ⟨0⟩ ∧ world.calls.map Phase.got = [some 1] := by
    refine ⟨(World.after waiting).getD .start, ?_⟩
    decide
  obtain ⟨next, reached, sender, generation, got⟩ : ∃ next,
      World.after ((answered 2 ++ wholeReset 1) ++ waiting) = some next ∧ next.shared.slot.sender = some ⟨1⟩ ∧
        next.shared.slot.generation = 3 ∧ next.calls.map Phase.got = [some 1, none, none] := by
    refine ⟨(World.after ((answered 2 ++ wholeReset 1) ++ waiting)).getD .start, ?_⟩
    decide
  obtain ⟨history, more, follows, grows, -, -⟩ := calls_use_slot_by_sections ran reached
  refine ⟨world, next, ran, reached, before, sender, generation, got, history, more, grows, ?_, ?_, ?_⟩
  · obtain ⟨phase, member, holds⟩ := mem_map.mp (waits ▸ mem_singleton_self (some 1))
    exact follows.2 phase member 1 holds
  · rintro rfl
    rw [← follows.1] at before
    cases before
  · rintro rfl
    rw [← grows.1, nil_append, follows.1, before] at sender
    cases sender

end World

end Tollgate.Doh
