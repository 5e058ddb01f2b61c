import Tollgate.Proofs.Filter.PatternLimits
import Mathlib.Algebra.BigOperators.Group.List.Basic

/-! # The compiled rules do not depend on the order of rules

Two sequences of lists with the same lines, each under the same format and exemption, compile to the same
rules as long as no pattern is over the limits: whether a line comes first or last, and in which list it
stands, makes no difference.
-/

namespace Tollgate

/-- The lines of a list as they stand in it, tagged. -/
def DnsList.lines (list : DnsList) : List TaggedLine :=
  list.source.text.lines.map (TaggedLine.mk list.source.format list.exempt)

/-- A list without a byte order mark is read as it stands. -/
theorem DnsList.tagged_eq {list : DnsList} (plain : list.source.text.head? ≠ some '\uFEFF') :
    list.tagged = list.lines := by
  have kept : list.source.text.stripPrefix ['\uFEFF'] = none := by
    cases stripped : list.source.text.stripPrefix ['\uFEFF'] with
    | none => rfl
    | some rest =>
      rw [Text.stripPrefix_eq_some_iff.mp stripped] at plain
      exact absurd rfl plain
  rw [DnsList.tagged, DnsList.lines, kept, Option.getD_none]

theorem flatMap_tagged_eq {lists : List DnsList} (plain : ∀ list ∈ lists, list.source.text.head? ≠ some '\uFEFF') :
    lists.flatMap DnsList.tagged = lists.flatMap DnsList.lines := by
  induction lists with
  | nil => rfl
  | cons list rest ih =>
    obtain ⟨here, later⟩ := List.forall_mem_cons.mp plain
    rw [List.flatMap_cons, List.flatMap_cons, DnsList.tagged_eq here, ih later]

namespace Builder

variable {builder other : Builder} {rules cancels : List (Kind × Text)} {skipped exempted : ℕ}

/-- The patterns left after the cancellations are within the limits. -/
structure Few (builder : Builder) : Prop where
  patterns : builder.cancel.patterns.card ≤ maxWildcardPatterns
  unkeyed : (builder.cancel.patterns.filter fun entry => isUnkeyed entry.2).card ≤ maxUnkeyedPatterns

/-- Within the limits settling only cancels. -/
theorem Gathered.settle_of_few (gathered : Gathered builder rules cancels skipped exempted) (few : builder.Few) :
    builder.settle.skipped = skipped ∧ builder.settle.exempted = exempted ∧
      ∀ entry : Kind × Text, entry.2 ∈ builder.settle.sets entry.1 ↔ entry ∈ rules ∧ entry ∉ cancels := by
  have total : builder.cancel.contenders.length ≤ maxWildcardPatterns := by
    rw [← List.toFinset_card_of_nodup gathered.contenders_nodup, gathered.contenders_toFinset]
    exact few.patterns
  have unkeyed : (unkeyedOf builder.cancel.contenders).length ≤ maxUnkeyedPatterns := by
    rw [unkeyedOf, ← List.toFinset_card_of_nodup (gathered.contenders_nodup.filter _), List.toFinset_filter,
      gathered.contenders_toFinset]
    exact few.unkeyed
  have all := admitted_eq_self total unkeyed
  obtain ⟨skips, exempts, sets⟩ := gathered.settle_spec
  rw [all, Nat.sub_self, Nat.add_zero] at skips
  refine ⟨skips, exempts, ?_⟩
  intro entry
  rw [sets entry, all, gathered.mem_contenders, gathered.mem_cancel]
  exact and_iff_left_of_imp fun both pattern => ⟨pattern, both⟩

theorem Gathered.few_iff (gathered : Gathered builder rules cancels skipped exempted)
    {otherRules otherCancels : List (Kind × Text)} {otherSkipped otherExempted : ℕ}
    (second : Gathered other otherRules otherCancels otherSkipped otherExempted)
    (sameRules : ∀ entry, entry ∈ rules ↔ entry ∈ otherRules)
    (sameCancels : ∀ entry, entry ∈ cancels ↔ entry ∈ otherCancels) : builder.Few ↔ other.Few := by
  have same : builder.cancel.patterns = other.cancel.patterns := by
    apply Finset.ext
    intro entry
    rw [mem_patterns, mem_patterns, gathered.mem_cancel, second.mem_cancel, sameRules, sameCancels]
  exact ⟨fun few => ⟨same ▸ few.patterns, same ▸ few.unkeyed⟩, fun few => ⟨same ▸ few.patterns, same ▸ few.unkeyed⟩⟩

theorem finish_congr (sets : builder.settle.sets = other.settle.sets)
    (skips : builder.settle.skipped = other.settle.skipped)
    (exempts : builder.settle.exempted = other.settle.exempted) : builder.finish = other.finish := by
  simp only [finish, sets, skips, exempts]

/-- The same lines in another order compile to the same rules. -/
theorem Collected.finish_eq {lines others : List TaggedLine} (first : Collected builder lines)
    (second : Collected other others) (same : lines.Perm others) (few : builder.Few) :
    builder.finish = other.finish := by
  have sameRules (entry : Kind × Text) := (same.flatMap_right TaggedLine.kept).mem_iff (a := entry)
  have sameCancels (entry : Kind × Text) := (same.flatMap_right TaggedLine.cancels).mem_iff (a := entry)
  have fewOther : other.Few := (Gathered.few_iff first second sameRules sameCancels).mp few
  obtain ⟨skips, exempts, sets⟩ := Gathered.settle_of_few first few
  obtain ⟨otherSkips, otherExempts, otherSets⟩ := Gathered.settle_of_few second fewOther
  apply finish_congr
  · funext kind
    apply Finset.ext
    intro rule
    have kept := and_congr (sameRules (kind, rule)) (not_congr (sameCancels (kind, rule)))
    exact ((sets (kind, rule)).trans kept).trans (otherSets (kind, rule)).symm
  · rw [skips, otherSkips]
    exact (same.map _).sum_eq
  · rw [exempts, otherExempts]
    exact (same.map _).sum_eq

end Builder

/-- The compiled rules depend on the lines only, and a cancellation or an exemption works from anywhere. -/
theorem rules_independent_of_order (lists others : List DnsList)
    (plain : ∀ list ∈ lists, list.source.text.head? ≠ some '\uFEFF')
    (plainOthers : ∀ list ∈ others, list.source.text.head? ≠ some '\uFEFF')
    (same : (lists.flatMap DnsList.lines).Perm (others.flatMap DnsList.lines))
    (few : (DomainRules.collect lists).Few) :
    DomainRules.parseExempting lists = DomainRules.parseExempting others ∧
      ∀ kind rule, rule ∈ (DomainRules.collect lists).settle.sets kind ↔
        (∃ tagged ∈ lists.flatMap DnsList.lines,
          (kind, rule) ∈ tagged.rules ∧ exemptRule tagged.exempt (kind, rule) = false) ∧
        ∀ tagged ∈ lists.flatMap DnsList.lines, (kind, rule) ∉ tagged.cancels := by
  have first := Builder.collected_collect lists
  have second := Builder.collected_collect others
  rw [flatMap_tagged_eq plain] at first
  rw [flatMap_tagged_eq plainOthers] at second
  refine ⟨first.finish_eq second same few, ?_⟩
  intro kind rule
  obtain ⟨-, -, sets⟩ := Builder.Gathered.settle_of_few first few
  rw [sets (kind, rule), List.mem_flatMap, List.mem_flatMap]
  simp only [TaggedLine.kept, List.mem_filter, Bool.not_eq_true', not_exists, not_and]

/-- A list that cancels one of its rules, with a pattern. -/
def cancelLast : DnsList := ⟨⟨"||ads.example^\n||log*.example^\n||ads.example^$badfilter".toList, .adblock⟩, none⟩

/-- The cancellation on its own. -/
def cancelOnly : DnsList := ⟨⟨"||ads.example^$badfilter".toList, .adblock⟩, none⟩

def rulesOnly : DnsList := ⟨⟨"||ads.example^\n||log*.example^".toList, .adblock⟩, none⟩

theorem rules_independent_of_order_sample :
    DomainRules.parseExempting [cancelLast] = DomainRules.parseExempting [cancelOnly, rulesOnly] :=
  (rules_independent_of_order [cancelLast] [cancelOnly, rulesOnly] (by decide) (by decide)
    (by decide) ⟨by decide, by decide⟩).1

end Tollgate
