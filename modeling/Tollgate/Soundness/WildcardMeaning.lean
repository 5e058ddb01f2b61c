import Tollgate.Proofs.Filter.DomainFile
import Tollgate.Proofs.Filter.WildcardText

/-! # A wildcard rule and its pattern mean the same

The pattern that is stored for a wildcard rule is one that the loader accepts, and it matches a host
exactly if the body of the rule matches a part of the host that starts where the anchor and ends where the
end marker says. Rules that differ in letter case and in the lengths of runs of stars give one pattern.
-/

namespace Tollgate

/-- What `wildcardPattern` accepts is stored, and matches what the rule says. -/
theorem wildcard_rule_meaning (pattern : Text) :
    (∀ parents glob, wildcardPattern pattern = some (parents, glob) →
      isValidPattern glob = true ∧
      ∃ stored, Pattern.parse (patternLine (parents, glob)) = some stored ∧
        (((ruleParts pattern).ended = true → (ruleParts pattern).body.getLast? ≠ some '.') →
          ∀ host : Bytes, stored.matchesHost host = true ↔ (ruleParts pattern).Matches host)) ∧
      ∀ other, squeeze other = squeeze pattern → wildcardPattern other = wildcardPattern pattern := by
  refine ⟨?_, fun other same => wildcardPattern_congr same⟩
  intro parents glob accepted
  have valid := wildcardPattern_valid accepted
  obtain ⟨stored, parsed, same⟩ := @parse_patternLine (parents, glob) valid
  obtain ⟨marked, bytes⟩ := Prod.mk.inj same
  refine ⟨valid, stored, parsed, ?_⟩
  intro plain host
  rw [wildcardPattern_eq] at accepted
  obtain ⟨-, result⟩ := Option.ite_none_right_eq_some.mp accepted
  obtain ⟨subtree, squeezed⟩ := Prod.mk.inj (Option.some.inj result)
  rw [← covers_iff_matches plain, Pattern.matchesHost_iff, Pattern.Covers, marked, bytes]
  dsimp only
  rw [← subtree, ← squeezed]
  simp only [squeeze_matches_iff, decide_eq_true_eq]

theorem wildcard_rule_meaning_sample :
    ∃ stored, Pattern.parse (patternLine (true, "log*.example".toList)) = some stored ∧
      stored.matchesHost (Text.asBytes "a.LOG1.example".toList) = true ∧
      wildcardPattern "||Log**.example^".toList = some (true, "log*.example".toList) := by
  have accepted : wildcardPattern "||log*.example^".toList = some (true, "log*.example".toList) := by decide
  obtain ⟨meaning, runs⟩ := wildcard_rule_meaning "||log*.example^".toList
  obtain ⟨-, stored, parsed, matched⟩ := meaning _ _ accepted
  refine ⟨stored, parsed, ?_, (runs _ (by decide)).trans accepted⟩
  refine (matched (by decide) _).mpr ⟨Text.asBytes "a.".toList, Text.asBytes "LOG1.example".toList, [], ?_⟩
  refine ⟨by decide, (globMatches_iff _ _).mp (by decide), ?_, fun _ => rfl⟩
  exact .inr (by decide)

end Tollgate
