import Tollgate.Proofs.Filter.BlocklistDecision

/-! # A list never blocks what it exempts

A block rule that applies to an exempt host is recognised as covering one. For names this is a
matter of which of two tails of one host is the longer; for globs it rests on the literal tail,
which every matching text ends in, so that it agrees at the end with any name the text is under.
-/

namespace Tollgate

open Text

namespace Exemption

/-- Every name above an exempt name is an ancestor. -/
def Closed (exemption : Exemption) : Prop :=
  ∀ name, name ∈ exemption.domains ∨ name ∈ exemption.hosts →
    ∀ front parent, name = front ++ '.' :: parent → parent ∈ exemption.ancestors

private theorem addName_closed {exemption : Exemption} (closed : Closed exemption) (domain : Bool) (name : Text) :
    Closed (exemption.addName domain name) := by
  have grown : ∀ other front parent, other = name.stripDot.toAsciiLowercase ∨
      (other ∈ exemption.domains ∨ other ∈ exemption.hosts) → other = front ++ '.' :: parent →
      parent ∈ exemption.ancestors ∪ (namesAbove name.stripDot.toAsciiLowercase).toFinset := by
    intro other front parent place split
    rw [Finset.mem_union, List.mem_toFinset]
    rcases place with rfl | earlier
    · exact .inr (List.mem_tailsAfter_iff.mpr ⟨front, split⟩)
    · exact .inl (closed other earlier front parent split)
  unfold addName
  dsimp only
  split
  · exact closed
  split
  · intro other place front parent split
    refine grown other front parent ?_ split
    simpa [or_assoc] using place
  · intro other place front parent split
    refine grown other front parent ?_ split
    simpa [or_left_comm] using place

private theorem add_closed {exemption : Exemption} (closed : Closed exemption) (pattern : Text) :
    Closed (exemption.add pattern) := by
  rw [add]
  split <;> exact addName_closed closed _ _

theorem new_closed (patterns : List Text) : Closed (new patterns) := by
  have step : ∀ exemption, Closed exemption → Closed (patterns.foldl add exemption) := by
    induction patterns with
    | nil => exact fun _ closed => closed
    | cons pattern rest ih => exact fun exemption closed => ih _ (add_closed closed pattern)
  exact step empty (by simp [Closed, empty])

theorem coversHost_iff {exemption : Exemption} {name : Text} : exemption.coversHost name = true ↔
    name ∈ exemption.hosts ∨ ∃ domain ∈ exemption.domains, List.Under '.' domain name := by
  simp only [coversHost, Bool.or_eq_true, decide_eq_true_eq, List.any_eq_true, List.mem_cons, Text.namesAbove,
    List.under_iff_mem]
  refine or_congr_right ⟨?_, ?_⟩
  · rintro ⟨domain, place, member⟩
    exact ⟨domain, member, place⟩
  · rintro ⟨domain, member, place⟩
    exact ⟨domain, place, member⟩

/-- A glob that matches a name under another one is found by its literal tail. -/
theorem matchesSomeNameUnder_of_matches {glob front domain : Text} (stored : Stored glob)
    (inName : Stored (front ++ '.' :: domain)) (matched : Glob.Matches '*' glob (front ++ '.' :: domain)) :
    matchesSomeNameUnder glob.asBytes domain.asBytes = true := by
  have bytes := (globMatches_stored stored inName).mpr matched
  rw [GlobMatches, inName.lower_eq] at bytes
  have dotted : dotByte :: domain.asBytes <:+ asBytes (front ++ '.' :: domain) := by
    rw [asBytes_append, asBytes_cons (by decide)]
    exact List.suffix_append ..
  rw [matchesSomeNameUnder]
  split
  · have plain : starByte ∉ glob.asBytes.rtakeWhile (· != starByte) := by
      intro member
      simpa using List.mem_rtakeWhile_imp member
    obtain ⟨start, split⟩ : glob.asBytes.rtakeWhile (· != starByte) <:+ glob.asBytes := List.rtakeWhile_suffix ..
    have tail : glob.asBytes.rtakeWhile (· != starByte) <:+ asBytes (front ++ '.' :: domain) := by
      rw [← split] at bytes
      exact Glob.Matches.tail_suffix plain bytes
    simp only [Bool.or_eq_true, List.isSuffixOf_iff_suffix]
    exact List.suffix_or_suffix_of_suffix tail dotted
  · next plain =>
    rw [(Glob.Matches.literals_iff plain).mp bytes] at dotted
    exact List.isSuffixOf_iff_suffix.mpr dotted

variable {exemption : Exemption} {name rule : Text}

/-- A block of the name or a parent covers an exempt host. -/
private theorem coversSubtree_of_under (closed : Closed exemption) (exempt : exemption.coversHost name = true)
    (under : List.Under '.' rule name) : exemption.coversSubtree rule = true := by
  rw [coversSubtree, Bool.or_eq_true, decide_eq_true_iff]
  rcases coversHost_iff.mp exempt with host | ⟨domain, member, above⟩
  · rcases under with rfl | ⟨front, rfl⟩
    · exact .inl exempt
    · exact .inr (closed _ (.inr host) front rule rfl)
  · rcases above.total under with inside | ⟨front, split⟩
    · exact .inl (coversHost_iff.mpr (.inr ⟨domain, member, inside⟩))
    · exact .inr (closed domain (.inl member) front rule split)

/-- A glob block that matches the name, or a parent if it covers parents, covers an exempt host. -/
private theorem coversPattern_of_matches (exempt : exemption.coversHost name = true) (inName : Stored name)
    (stored : Stored rule) {parents : Bool} {part : Text}
    (place : part = name ∨ parents = true ∧ List.Under '.' part name) (matched : Glob.Matches '*' rule part) :
    exemption.coversPattern rule parents = true := by
  have under : List.Under '.' part name := by
    rcases place with rfl | ⟨_, under⟩
    · exact .refl ..
    · exact under
  have inPart : Stored part := inName.sublist under.suffix.sublist
  have found : globMatches rule.asBytes part.asBytes = true :=
    (globMatches_iff _ _).mpr ((globMatches_stored stored inPart).mpr matched)
  have higher : ∀ front whole, parents = true → whole = front ++ '.' :: part →
      above rule.asBytes parents whole = true := by
    intro front whole subtree split
    rw [above, subtree, Bool.true_and, List.any_eq_true]
    exact ⟨part, List.mem_tailsAfter_iff.mpr ⟨front, split⟩, found⟩
  simp only [coversPattern, Bool.or_eq_true, decide_eq_true_eq]
  rcases coversHost_iff.mp exempt with host | ⟨domain, member, lower⟩
  · refine .inr ⟨name, host, ?_⟩
    rcases place with rfl | ⟨subtree, rfl | ⟨front, split⟩⟩
    · exact .inl found
    · exact .inl found
    · exact .inr (higher front name subtree split)
  · refine .inl ⟨domain, member, ?_⟩
    rcases lower.total under with (rfl | ⟨front, rfl⟩) | ⟨front, split⟩
    · exact .inl (.inl found)
    · exact .inl (.inr (matchesSomeNameUnder_of_matches stored inPart matched))
    · refine .inr (higher front domain ?_ split)
      rcases place with rfl | ⟨subtree, _⟩
      · have longer := lower.length_le
        rw [split, List.length_append, List.length_cons] at longer
        omega
      · exact subtree

/-- A block rule that applies to an exempt name covers an exempt host. -/
theorem coversExempt_of_applies (closed : Closed exemption) (exempt : exemption.coversHost name = true)
    (inName : Stored name) {kind : Kind} (block : kind.isException = false) (stored : StoredRule kind rule)
    (applies : kind.Applies rule name) : kind.coversExempt rule exemption = true := by
  cases kind with
  | important | block => exact coversSubtree_of_under closed exempt applies
  | exactBlock =>
    obtain rfl : rule = name := applies
    exact exempt
  | wildcardBlock =>
    obtain ⟨part, under, matched⟩ := applies
    exact coversPattern_of_matches exempt inName stored.storedName.stored (.inr ⟨rfl, under⟩) matched
  | exactWildcardBlock => exact coversPattern_of_matches exempt inName stored.storedName.stored (.inl rfl) applies
  | allow | exactAllow | wildcardAllow | exactWildcardAllow => contradiction

/-- Sets without covering rules block no exempt name. -/
theorem not_blocked (closed : Closed exemption) (exempt : exemption.coversHost name = true) (inName : Stored name)
    {sets : Kind → Finset Text} (stored : ∀ kind, ∀ rule ∈ sets kind, StoredRule kind rule)
    (kept : ∀ kind, ∀ rule ∈ sets kind, kind.coversExempt rule exemption = false) : ¬ Blocked sets name := by
  have never : ∀ kind : Kind, kind.isException = false → ¬ RuleApplies sets kind name := by
    rintro kind block ⟨rule, member, applies⟩
    have covers := coversExempt_of_applies closed exempt inName block (stored kind rule member) applies
    rw [kept kind rule member] at covers
    contradiction
  rintro (important | ⟨_, kind, plain, applies⟩)
  · exact never .important rfl important
  · refine never kind ?_ applies
    cases kind <;> first | rfl | contradiction

end Exemption

end Tollgate
