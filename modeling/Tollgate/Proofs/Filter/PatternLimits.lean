import Tollgate.Proofs.Filter.LineEffects
import Mathlib.Data.Finset.Union

/-! # Which patterns the limits keep

The patterns are considered one after the other, exceptions first. One is admitted while there is room:
fewer than `maxWildcardPatterns` were admitted before it and, if every lookup would try it, fewer than
`maxUnkeyedPatterns` such ones. The loop of `limitPatterns` keeps exactly the admitted patterns and counts
each other one once.
-/

namespace Tollgate

/-- The patterns that every lookup tries. -/
def unkeyedOf (entries : List (Kind × Text)) : List (Kind × Text) := entries.filter fun entry => isUnkeyed entry.2

/-- Whether a pattern fits beside those admitted before it. -/
def Room (kept : List (Kind × Text)) (entry : Kind × Text) : Prop :=
  kept.length < maxWildcardPatterns ∧ (isUnkeyed entry.2 = true → (unkeyedOf kept).length < maxUnkeyedPatterns)

instance (kept : List (Kind × Text)) (entry : Kind × Text) : Decidable (Room kept entry) :=
  inferInstanceAs (Decidable (_ ∧ _))

def admitNext (kept : List (Kind × Text)) (entry : Kind × Text) : List (Kind × Text) :=
  if Room kept entry then kept ++ [entry] else kept

/-- The patterns that are admitted, in the order in which they are considered. -/
def admitted (entries : List (Kind × Text)) : List (Kind × Text) := entries.foldl admitNext []

theorem admitted_append (entries more : List (Kind × Text)) :
    admitted (entries ++ more) = more.foldl admitNext (admitted entries) := List.foldl_append

theorem admitted_concat (entries : List (Kind × Text)) (entry : Kind × Text) :
    admitted (entries ++ [entry]) = admitNext (admitted entries) entry := admitted_append ..

theorem admitted_sublist (entries : List (Kind × Text)) : (admitted entries).Sublist entries := by
  induction entries using List.reverseRecOn with
  | nil => exact List.Sublist.refl _
  | append_singleton entries entry ih =>
    rw [admitted_concat, admitNext]
    split
    · exact ih.append_right _
    · exact ih.trans (List.sublist_append_left ..)

theorem admitted_length_le (entries : List (Kind × Text)) : (admitted entries).length ≤ maxWildcardPatterns := by
  induction entries using List.reverseRecOn with
  | nil => exact Nat.zero_le _
  | append_singleton entries entry ih =>
    rw [admitted_concat, admitNext]
    split
    · next room =>
      rw [List.length_append, List.length_singleton]
      exact room.1
    · exact ih

theorem unkeyedOf_concat (entries : List (Kind × Text)) (entry : Kind × Text) :
    unkeyedOf (entries ++ [entry]) = unkeyedOf entries ++ if isUnkeyed entry.2 = true then [entry] else [] := by
  rw [unkeyedOf, List.filter_append, List.filter_singleton, Bool.cond_eq_ite]
  rfl

theorem admitted_unkeyed_length_le (entries : List (Kind × Text)) :
    (unkeyedOf (admitted entries)).length ≤ maxUnkeyedPatterns := by
  induction entries using List.reverseRecOn with
  | nil => exact Nat.zero_le _
  | append_singleton entries entry ih =>
    rw [admitted_concat, admitNext]
    split
    · next room =>
      rw [unkeyedOf_concat, List.length_append]
      split
      · next unkeyed => exact room.2 unkeyed
      · exact ih
    · exact ih

theorem mem_foldl_admit {entry : Kind × Text} {kept more : List (Kind × Text)} (other : entry ∉ more) :
    entry ∈ more.foldl admitNext kept ↔ entry ∈ kept := by
  induction more generalizing kept with
  | nil => exact Iff.rfl
  | cons first rest ih =>
    rw [List.mem_cons, not_or] at other
    rw [List.foldl_cons, ih other.2, admitNext]
    split
    · rw [List.mem_append, List.mem_singleton, or_iff_left other.1]
    · exact Iff.rfl

/-- What is considered later does not change what was decided. -/
theorem mem_admitted_append {entry : Kind × Text} {entries more : List (Kind × Text)} (other : entry ∉ more) :
    entry ∈ admitted (entries ++ more) ↔ entry ∈ admitted entries := by
  rw [admitted_append, mem_foldl_admit other]

/-- The admitted ones among the first of some distinct patterns. -/
theorem filter_mem_admitted {before after : List (Kind × Text)} (distinct : (before ++ after).Nodup) :
    before.filter (fun entry => decide (entry ∈ admitted (before ++ after))) = admitted before := by
  obtain ⟨nodup, -, apart⟩ := List.nodup_append.mp distinct
  refine (List.filter_congr ?_).trans ((admitted_sublist before).filter_mem_eq nodup)
  intro entry member
  have other : entry ∉ after := fun later => apart entry member entry later rfl
  exact decide_eq_decide.mpr (mem_admitted_append other)

/-- A pattern is left out only for want of room when its turn comes. -/
theorem not_room_of_left_out {before after : List (Kind × Text)} {entry : Kind × Text}
    (distinct : (before ++ entry :: after).Nodup) (leftOut : entry ∉ admitted (before ++ entry :: after)) :
    (admitted before).length = maxWildcardPatterns ∨
      isUnkeyed entry.2 = true ∧ (unkeyedOf (admitted before)).length = maxUnkeyedPatterns := by
  have other : entry ∉ after := (List.nodup_cons.mp (List.nodup_append.mp distinct).2.1).1
  have split : before ++ entry :: after = (before ++ [entry]) ++ after := by simp
  rw [split, mem_admitted_append other, admitted_concat, admitNext] at leftOut
  have full : ¬ Room (admitted before) entry := by
    intro room
    rw [if_pos room] at leftOut
    exact leftOut (by simp)
  have total := admitted_length_le before
  have unkeyed := admitted_unkeyed_length_le before
  by_cases most : (admitted before).length < maxWildcardPatterns
  · have tried : isUnkeyed entry.2 = true ∧ ¬ (unkeyedOf (admitted before)).length < maxUnkeyedPatterns := by
      simpa [Room, most] using full
    exact .inr ⟨tried.1, by omega⟩
  · exact .inl (by omega)

/-- Where there is room for all, all are admitted. -/
theorem admitted_eq_self {entries : List (Kind × Text)} (few : entries.length ≤ maxWildcardPatterns)
    (fewUnkeyed : (unkeyedOf entries).length ≤ maxUnkeyedPatterns) : admitted entries = entries := by
  induction entries using List.reverseRecOn with
  | nil => rfl
  | append_singleton entries entry ih =>
    rw [List.length_append, List.length_singleton] at few
    rw [unkeyedOf_concat, List.length_append] at fewUnkeyed
    have before := ih (by omega) (by omega)
    rw [admitted_concat, before, admitNext, if_pos]
    refine ⟨few, fun unkeyed => ?_⟩
    rw [if_pos unkeyed] at fewUnkeyed
    exact fewUnkeyed

namespace Builder

/-- The order in which the limits consider the patterns. -/
def considered (builder : Builder) : List (Kind × Text) :=
  (builder.patternOrder.filter fun entry => entry.1.isException) ++
    builder.patternOrder.filter fun entry => !entry.1.isException

/-- Those of some patterns that are in their sets. -/
def present (builder : Builder) (entries : List (Kind × Text)) : List (Kind × Text) :=
  entries.filter fun entry => entry.2 ∈ builder.sets entry.1

/-- The patterns that the limits decide on. -/
def contenders (builder : Builder) : List (Kind × Text) := builder.present builder.considered

/-- The state of the loop after it has considered some patterns. -/
structure Limiting (start : Builder) (seen : List (Kind × Text)) (state : Builder × Limits) : Prop where
  frame : state.1 = { start with sets := state.1.sets, patternOrder := [] }
  sets : ∀ entry : Kind × Text, entry.2 ∈ state.1.sets entry.1 ↔
    entry.2 ∈ start.sets entry.1 ∧ (entry ∈ seen → entry ∈ admitted (start.present seen))
  kept : state.2.kept = (admitted (start.present seen)).length
  keptUnkeyed : state.2.keptUnkeyed = (unkeyedOf (admitted (start.present seen))).length
  leftOut : state.2.leftOut + state.2.kept = (start.present seen).length

variable {start : Builder} {seen : List (Kind × Text)} {state : Builder × Limits} {entry : Kind × Text}

theorem present_concat_of_mem (inside : entry.2 ∈ start.sets entry.1) :
    start.present (seen ++ [entry]) = start.present seen ++ [entry] := by
  rw [present, List.filter_append, List.filter_singleton, decide_eq_true inside]
  rfl

theorem present_concat_of_notMem (outside : entry.2 ∉ start.sets entry.1) :
    start.present (seen ++ [entry]) = start.present seen := by
  rw [present, List.filter_append, List.filter_singleton, decide_eq_false outside]
  exact List.append_nil _

theorem not_mem_admitted (new : entry ∉ seen) : entry ∉ admitted (start.present seen) :=
  fun member => new (List.mem_of_mem_filter ((admitted_sublist _).subset member))

variable {limits : Limits}

private theorem Limiting.sets_concat {builder : Builder} (limiting : Limiting start seen (builder, limits))
    (new : entry ∉ seen) {after : Builder}
    (old : ∀ other : Kind × Text, other ≠ entry → (other.2 ∈ after.sets other.1 ↔ other.2 ∈ builder.sets other.1))
    (here : entry.2 ∈ after.sets entry.1 ↔
      entry.2 ∈ start.sets entry.1 ∧ entry ∈ admitted (start.present (seen ++ [entry])))
    (grows : ∀ other, other ≠ entry →
      (other ∈ admitted (start.present (seen ++ [entry])) ↔ other ∈ admitted (start.present seen)))
    (other : Kind × Text) :
    other.2 ∈ after.sets other.1 ↔ other.2 ∈ start.sets other.1 ∧
      (other ∈ seen ++ [entry] → other ∈ admitted (start.present (seen ++ [entry]))) := by
  by_cases same : other = entry
  · subst same
    rw [here]
    exact and_congr_right fun _ => ⟨fun kept _ => kept, fun kept => kept (by simp)⟩
  · rw [old other same, limiting.sets other, grows other same, List.mem_append, List.mem_singleton, or_iff_left same]

/-- The test for room of the loop. -/
private theorem Limiting.room_iff {builder : Builder} (limiting : Limiting start seen (builder, limits)) :
    (decide (limits.kept < maxWildcardPatterns) &&
      (!isUnkeyed entry.2 || decide (limits.keptUnkeyed < maxUnkeyedPatterns))) = true ↔
      Room (admitted (start.present seen)) entry := by
  have total := limiting.kept
  have unkeyedTotal := limiting.keptUnkeyed
  dsimp only at total unkeyedTotal
  rw [total, unkeyedTotal, Room]
  cases isUnkeyed entry.2 <;> simp

theorem Limiting.step (limiting : Limiting start seen state) (new : entry ∉ seen) :
    Limiting start (seen ++ [entry]) (limitPattern state entry) := by
  obtain ⟨builder, limits⟩ := state
  have same : entry.2 ∈ builder.sets entry.1 ↔ entry.2 ∈ start.sets entry.1 := by
    rw [limiting.sets entry]
    exact and_iff_left (fun old => absurd old new)
  have counts := limiting.leftOut
  have total := limiting.kept
  have unkeyedTotal := limiting.keptUnkeyed
  dsimp only at counts total unkeyedTotal
  unfold limitPattern
  dsimp only
  split
  · next absent =>
    have outside : entry.2 ∉ start.sets entry.1 := fun inside => absent (same.mpr inside)
    have pool := @present_concat_of_notMem start seen entry outside
    refine ⟨limiting.frame, ?_, by rw [pool]; exact total, by rw [pool]; exact unkeyedTotal, by rw [pool]; exact counts⟩
    apply limiting.sets_concat new (fun _ _ => Iff.rfl)
    · exact ⟨fun stored => absurd stored absent, fun both => absurd both.1 outside⟩
    · intro other _
      rw [pool]
  · next stored =>
    have inside := same.mp (not_not.mp stored)
    have pool := @present_concat_of_mem start seen entry inside
    split
    · next fits =>
      have room := limiting.room_iff.mp fits
      have after : admitted (start.present (seen ++ [entry])) = admitted (start.present seen) ++ [entry] := by
        rw [pool, admitted_concat, admitNext, if_pos room]
      refine ⟨limiting.frame, ?_, ?_, ?_, ?_⟩
      · apply limiting.sets_concat new (fun _ _ => Iff.rfl)
        · rw [after]
          exact ⟨fun _ => ⟨inside, by simp⟩, fun _ => not_not.mp stored⟩
        · intro other different
          rw [after, List.mem_append, List.mem_singleton, or_iff_left different]
      · rw [after, List.length_append, List.length_singleton]
        dsimp only
        omega
      · rw [after, unkeyedOf_concat, List.length_append]
        dsimp only
        cases isUnkeyed entry.2 <;> simp [unkeyedTotal]
      · rw [pool, List.length_append, List.length_singleton]
        dsimp only
        omega
    · next refused =>
      have full : ¬ Room (admitted (start.present seen)) entry := fun room => refused (limiting.room_iff.mpr room)
      have after : admitted (start.present (seen ++ [entry])) = admitted (start.present seen) := by
        rw [pool, admitted_concat, admitNext, if_neg full]
      have frame := limiting.frame
      dsimp only at frame
      refine ⟨?_, ?_, ?_, ?_, ?_⟩
      · rw [updateSet, frame]
      · apply limiting.sets_concat new
        · intro other different
          rw [mem_updateSet_erase]
          exact and_iff_left (fun both => different (Prod.ext both.1 both.2))
        · rw [mem_updateSet_erase, after]
          exact ⟨fun both => absurd ⟨rfl, rfl⟩ both.2, fun both => absurd both.2 (not_mem_admitted new)⟩
        · intro other _
          rw [after]
      · rw [after]
        exact total
      · rw [after]
        exact unkeyedTotal
      · rw [pool, List.length_append, List.length_singleton]
        dsimp only
        omega

theorem Limiting.foldl (limiting : Limiting start seen state) {entries : List (Kind × Text)}
    (distinct : (seen ++ entries).Nodup) : Limiting start (seen ++ entries) (entries.foldl limitPattern state) := by
  induction entries generalizing seen state with
  | nil => rwa [List.append_nil]
  | cons entry rest ih =>
    rw [← List.singleton_append, ← List.append_assoc] at distinct ⊢
    have new : entry ∉ seen := by
      intro member
      exact (List.nodup_append.mp (List.Nodup.of_append_left distinct)).2.2 entry member entry (by simp) rfl
    exact ih (limiting.step new) distinct

theorem considered_perm (builder : Builder) : builder.considered.Perm builder.patternOrder :=
  List.filter_append_perm ..

/-- What `limitPatterns` leaves, for patterns that were each added to the order once. -/
theorem limitPatterns_spec {builder : Builder} (distinct : builder.patternOrder.Nodup) :
    builder.limitPatterns = { builder with
      sets := builder.limitPatterns.sets
      patternOrder := []
      skipped := builder.skipped + (builder.contenders.length - (admitted builder.contenders).length) } ∧
    ∀ entry : Kind × Text, entry.2 ∈ builder.limitPatterns.sets entry.1 ↔
      entry.2 ∈ builder.sets entry.1 ∧ (entry ∈ builder.patternOrder → entry ∈ admitted builder.contenders) := by
  have start : Limiting builder [] ({ builder with patternOrder := [] }, ⟨0, 0, 0⟩) :=
    ⟨rfl, by simp, rfl, rfl, rfl⟩
  have limited : Limiting builder builder.considered
      (builder.considered.foldl limitPattern ({ builder with patternOrder := [] }, ⟨0, 0, 0⟩)) :=
    @Limiting.foldl builder [] _ start builder.considered ((builder.considered_perm.nodup_iff).mpr distinct)
  have member : ∀ entry, entry ∈ builder.considered ↔ entry ∈ builder.patternOrder := fun _ =>
    builder.considered_perm.mem_iff
  have result : builder.limitPatterns =
      { (builder.considered.foldl limitPattern ({ builder with patternOrder := [] }, ⟨0, 0, 0⟩)).1 with
        skipped := (builder.considered.foldl limitPattern ({ builder with patternOrder := [] }, ⟨0, 0, 0⟩)).1.skipped +
          (builder.considered.foldl limitPattern ({ builder with patternOrder := [] }, ⟨0, 0, 0⟩)).2.leftOut } := rfl
  rw [result]
  generalize builder.considered.foldl limitPattern ({ builder with patternOrder := [] }, ⟨0, 0, 0⟩) = final at limited
  have count : final.2.leftOut = builder.contenders.length - (admitted builder.contenders).length := by
    have total := limited.leftOut
    rw [limited.kept] at total
    exact Nat.eq_sub_of_add_eq total
  refine ⟨?_, ?_⟩
  · rw [limited.frame, count]
  · intro entry
    rw [← member entry]
    exact limited.sets entry

/-- The patterns of all kinds. -/
def patterns (builder : Builder) : Finset (Kind × Text) :=
  ({.wildcardAllow, .exactWildcardAllow, .wildcardBlock, .exactWildcardBlock} : Finset Kind).biUnion fun kind =>
    (builder.sets kind).image (Prod.mk kind)

theorem mem_patterns {builder : Builder} {entry : Kind × Text} :
    entry ∈ builder.patterns ↔ entry.1.isPattern = true ∧ entry.2 ∈ builder.sets entry.1 := by
  obtain ⟨kind, rule⟩ := entry
  have kinds : kind ∈ ({.wildcardAllow, .exactWildcardAllow, .wildcardBlock, .exactWildcardBlock} : Finset Kind) ↔
      kind.isPattern = true := by
    cases kind <;> decide
  simp only [patterns, Finset.mem_biUnion, Finset.mem_image, Prod.mk.injEq]
  constructor
  · rintro ⟨other, member, name, inside, rfl, rfl⟩
    exact ⟨kinds.mp member, inside⟩
  · rintro ⟨pattern, inside⟩
    exact ⟨kind, kinds.mpr pattern, rule, inside, rfl, rfl⟩

variable {builder : Builder} {rules cancels : List (Kind × Text)} {skipped exempted : ℕ}

namespace Gathered

theorem order_nodup (gathered : Gathered builder rules cancels skipped exempted) : builder.patternOrder.Nodup := by
  rw [gathered.order]
  exact List.nodup_eraseDups _

theorem mem_order (gathered : Gathered builder rules cancels skipped exempted) {entry : Kind × Text} :
    entry ∈ builder.patternOrder ↔ entry.1.isPattern = true ∧ entry ∈ rules := by
  rw [gathered.order, List.mem_eraseDups, List.mem_filter, and_comm]

theorem mem_cancel (gathered : Gathered builder rules cancels skipped exempted) {entry : Kind × Text} :
    entry.2 ∈ builder.cancel.sets entry.1 ↔ entry ∈ rules ∧ entry ∉ cancels := by
  rw [cancel, Finset.mem_filter, gathered.sets, gathered.badfilter]

/-- The limits decide on the patterns that were not cancelled, each once. -/
theorem mem_contenders (gathered : Gathered builder rules cancels skipped exempted) {entry : Kind × Text} :
    entry ∈ builder.cancel.contenders ↔ entry.1.isPattern = true ∧ entry.2 ∈ builder.cancel.sets entry.1 := by
  have order : entry ∈ builder.cancel.considered ↔ entry ∈ builder.patternOrder :=
    builder.cancel.considered_perm.mem_iff
  rw [contenders, present, List.mem_filter, order, gathered.mem_order, decide_eq_true_eq, and_assoc]
  apply and_congr_right
  intro _
  rw [gathered.mem_cancel]
  exact ⟨fun both => both.2, fun both => ⟨both.1, both⟩⟩

theorem contenders_nodup (gathered : Gathered builder rules cancels skipped exempted) :
    builder.cancel.contenders.Nodup := by
  apply List.Nodup.filter
  exact (builder.cancel.considered_perm.nodup_iff).mpr gathered.order_nodup

theorem contenders_toFinset (gathered : Gathered builder rules cancels skipped exempted) :
    builder.cancel.contenders.toFinset = builder.cancel.patterns := by
  apply Finset.ext
  intro entry
  rw [List.mem_toFinset, gathered.mem_contenders, mem_patterns]

/-- What settling leaves. -/
theorem settle_spec (gathered : Gathered builder rules cancels skipped exempted) :
    builder.settle.skipped =
      skipped + (builder.cancel.contenders.length - (admitted builder.cancel.contenders).length) ∧
    builder.settle.exempted = exempted ∧
    ∀ entry : Kind × Text, entry.2 ∈ builder.settle.sets entry.1 ↔
      (entry ∈ rules ∧ entry ∉ cancels) ∧
        (entry.1.isPattern = true → entry ∈ admitted builder.cancel.contenders) := by
  obtain ⟨frame, sets⟩ := @limitPatterns_spec builder.cancel gathered.order_nodup
  refine ⟨?_, ?_, ?_⟩
  · rw [settle, frame, ← gathered.skipped]
    rfl
  · rw [settle, frame, ← gathered.exempted]
    rfl
  · intro entry
    rw [settle, sets entry, gathered.mem_cancel]
    apply and_congr_right
    intro both
    have order : entry ∈ builder.cancel.patternOrder ↔ entry ∈ builder.patternOrder := Iff.rfl
    rw [order, gathered.mem_order, and_iff_left both.1]

end Gathered

end Builder

/-- The patterns that some lines give, each where it first stands. -/
def patternsSeen (lines : List TaggedLine) : List (Kind × Text) :=
  ((lines.flatMap TaggedLine.kept).filter fun entry => entry.1.isPattern).eraseDups

/-- Those of them that no line cancels. -/
def patternsLeft (lines : List TaggedLine) : List (Kind × Text) :=
  (patternsSeen lines).filter fun entry => entry ∉ lines.flatMap TaggedLine.cancels

/-- The order in which they are considered: exceptions first, then blocks. -/
def patternsConsidered (lines : List TaggedLine) : List (Kind × Text) :=
  ((patternsLeft lines).filter fun entry => entry.1.isException) ++
    (patternsLeft lines).filter fun entry => !entry.1.isException

/-- The loop of the limits considers what the lines say, in that order. -/
theorem Builder.Collected.contenders_eq {builder : Builder} {lines : List TaggedLine}
    (collected : Collected builder lines) : builder.cancel.contenders = patternsConsidered lines := by
  have left : builder.cancel.present builder.patternOrder = patternsLeft lines := by
    rw [patternsLeft, patternsSeen, ← Gathered.order collected, present]
    apply List.filter_congr
    intro entry member
    have given := (Gathered.mem_order collected).mp member
    rw [decide_eq_decide, Gathered.mem_cancel collected]
    exact and_iff_right given.2
  have order : builder.cancel.patternOrder = builder.patternOrder := rfl
  rw [patternsConsidered, ← left, contenders, considered, order]
  simp only [present, List.filter_append, List.filter_filter, Bool.and_comm]

end Tollgate
