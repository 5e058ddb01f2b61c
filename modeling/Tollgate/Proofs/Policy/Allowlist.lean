import Tollgate.Model.Policy.Policy
import Tollgate.Proofs.Filter.DomainLookup

/-! # Two ways to match host patterns

The proxy looks a host's key and its parents up in hash sets, the DNS responder compares the bytes of
the name with each pattern. For patterns that parse both mean the same: the key is the pattern's name,
or lies under it when the pattern starts with `*.`.
-/

namespace Tollgate

open Text

/-- The pattern is for the host with this key. -/
def HostPattern.Covers (pattern : HostPattern) (key : Text) : Prop :=
  key = pattern.name ∨ (pattern.wildcard = true ∧ List.Under '.' pattern.name key)

theorem forM_validateLabel {labels : List Text} (valid : labels.forM validateLabel = .ok ()) :
    ∀ label ∈ labels, ∀ c ∈ label, c.isAlphanum || c == '-' || c == '_' := by
  induction labels with
  | nil => exact nofun
  | cons first rest ih =>
    change (validateLabel first >>= fun _ => rest.forM validateLabel) = .ok () at valid
    cases checked : validateLabel first with
    | error reason =>
      rw [checked] at valid
      cases valid
    | ok done =>
      rw [checked] at valid
      refine List.forall_mem_cons.mpr ⟨?_, ih valid⟩
      unfold validateLabel at checked
      split_ifs at checked with empty long plain
      simpa only [Bool.not_eq_true', Bool.not_eq_false, List.all_eq_true] using plain

theorem validateName_stored {raw name : Text} (valid : validateName raw = .ok name) : Stored name := by
  unfold validateName at valid
  split at valid
  · cases valid
  · cases labels : (raw.splitOn '.').forM validateLabel with
    | error reason =>
      rw [labels] at valid
      cases valid
    | ok done =>
      rw [labels] at valid
      cases valid
      have chars : ∀ c ∈ raw, c = '.' ∨ (c.isAlphanum || c == '-' || c == '_') :=
        List.forall_of_splitOn (forM_validateLabel labels)
      intro c member
      obtain ⟨original, inside, rfl⟩ := List.mem_map.mp member
      rcases chars original inside with rfl | plain
      · exact .inr (.inr (.inr (.inr (.inr rfl))))
      · simp only [Bool.or_eq_true, beq_iff_eq] at plain
        rcases plain with (alphanum | rfl) | rfl
        · exact stored_of_alphanum alphanum
        · exact .inr (.inr (.inl rfl))
        · exact .inr (.inr (.inr (.inl rfl)))

/-- The name of a pattern is lowercase ASCII. -/
theorem HostPattern.parse_stored {s : Text} {pattern : HostPattern} (parsed : HostPattern.parse s = .ok pattern) :
    Stored pattern.name := by
  unfold HostPattern.parse at parsed
  dsimp only at parsed
  split_ifs at parsed
  split at parsed
  · cases parsed
  · next name valid =>
    cases parsed
    exact validateName_stored valid

theorem validateName_nonempty {raw name : Text} (valid : validateName raw = .ok name) (nonempty : raw ≠ []) :
    name ≠ [] := by
  unfold validateName at valid
  split at valid
  · cases valid
  · cases labels : (raw.splitOn '.').forM validateLabel with
    | error reason =>
      rw [labels] at valid
      cases valid
    | ok done =>
      rw [labels] at valid
      cases valid
      exact fun empty => nonempty (List.map_eq_nil_iff.mp empty)

theorem HostPattern.parse_nonempty {s : Text} {pattern : HostPattern} (parsed : HostPattern.parse s = .ok pattern) :
    pattern.name ≠ [] := by
  unfold HostPattern.parse at parsed
  dsimp only at parsed
  split_ifs at parsed with empty star
  split at parsed
  · cases parsed
  · next name valid =>
    cases parsed
    exact validateName_nonempty valid fun none => empty (List.isEmpty_iff.mpr none)

/-- What holds of every pattern that parses holds of the patterns of a list. -/
theorem parsePatterns_forall {met : HostPattern → Prop}
    (each : ∀ s pattern, HostPattern.parse s = .ok pattern → met pattern) {texts : List Text}
    {patterns : List HostPattern} (parsed : Policy.parsePatterns texts = .ok patterns) :
    ∀ pattern ∈ patterns, met pattern := by
  induction texts generalizing patterns with
  | nil =>
    cases parsed
    exact nofun
  | cons first rest ih =>
    rw [Policy.parsePatterns, List.mapM_cons] at parsed
    cases head : HostPattern.parse first with
    | error reason =>
      rw [head] at parsed
      cases parsed
    | ok pattern =>
      cases tail : Policy.parsePatterns rest with
      | error reason =>
        rw [Policy.parsePatterns] at tail
        rw [head, tail] at parsed
        cases parsed
      | ok others =>
        have later := ih tail
        rw [Policy.parsePatterns] at tail
        rw [head, tail] at parsed
        cases parsed
        exact List.forall_mem_cons.mpr ⟨each first pattern head, later⟩

theorem parsePatterns_stored {texts : List Text} {patterns : List HostPattern}
    (parsed : Policy.parsePatterns texts = .ok patterns) : ∀ pattern ∈ patterns, Stored pattern.name :=
  parsePatterns_forall (fun _ _ => HostPattern.parse_stored) parsed

variable {host : Text} {pattern : HostPattern}

private theorem eq_of_toLower_dot {c : Char} (lower : c.toLower = '.') : c = '.' := by
  have code := congrArg Char.toNat lower
  have dot : '.'.toNat = 46 := rfl
  rw [toNat_toLower, dot] at code
  apply Char.toNat_inj.mp
  rw [dot]
  split at code <;> omega

/-- Comparing bytes without regard to case compares lowercase text. -/
theorem eqIgnoreCase_iff (stored : Stored pattern.name) :
    eqIgnoreCase host.asBytes pattern.name.asBytes = true ↔ host.toAsciiLowercase = pattern.name := by
  rw [eqIgnoreCase, beq_iff_eq, ← asBytes_toAsciiLowercase, stored.lower_eq]
  exact asBytes_injective.eq_iff

theorem length_asBytes_lower (host : Text) : host.toAsciiLowercase.asBytes.length = host.asBytes.length := by
  rw [asBytes_toAsciiLowercase, List.length_map]

/-- The bytes behind the dot are compared with the name exactly if the host is below the name. -/
theorem below_iff (stored : Stored pattern.name) {n : ℕ}
    (length : host.asBytes.length = n + 1 + pattern.name.asBytes.length) :
    (host.asBytes[n]? = some (byte '.') ∧ eqIgnoreCase (host.asBytes.drop (n + 1)) pattern.name.asBytes = true) ↔
      List.Under '.' pattern.name host.toAsciiLowercase := by
  have dots : Ascii '.' := by decide
  rw [eqIgnoreCase, beq_iff_eq, stored.lower_eq]
  constructor
  · rintro ⟨dot, lower⟩
    have rest : (host.asBytes.drop (n + 1)).length = pattern.name.asBytes.length := by
      rw [List.length_drop, length]
      omega
    obtain ⟨front, equal⟩ := (List.eq_append_cons_iff (length.trans (by rw [rest]))).mpr ⟨dot, rfl⟩
    have bytes : host.toAsciiLowercase.asBytes = front.map lowerByte ++ byte '.' :: pattern.name.asBytes := by
      rw [asBytes_toAsciiLowercase, equal, List.map_append, List.map_cons, lower]
      rfl
    obtain ⟨before, after, split, -, same⟩ := (asBytes_eq_append_iff dots).mp bytes
    exact .inr ⟨before, asBytes_injective same ▸ split⟩
  · rintro (same | ⟨before, split⟩)
    · have equal := length_asBytes_lower host
      rw [← same] at equal
      omega
    · obtain ⟨front, behind, rfl, rfl, tail⟩ := List.map_eq_append_iff.mp split
      obtain ⟨c, back, rfl, dot, name⟩ := List.map_eq_cons_iff.mp tail
      obtain rfl := eq_of_toLower_dot dot
      have whole : asBytes (front ++ '.' :: back) = asBytes front ++ byte '.' :: asBytes back := by
        rw [asBytes_append, asBytes_cons dots]
      have named : (asBytes back).map lowerByte = pattern.name.asBytes := by
        rw [← asBytes_toAsciiLowercase, ← name]
        rfl
      have same : (asBytes back).length = pattern.name.asBytes.length := by rw [← named, List.length_map]
      obtain ⟨dot, rest⟩ := (List.eq_append_cons_iff (length.trans (by rw [same]))).mp ⟨_, whole⟩
      exact ⟨dot, rest ▸ named⟩

/-- The comparison of bytes decides what a pattern covers. -/
theorem HostPattern.matches_iff (stored : Stored pattern.name) :
    pattern.matches host = true ↔ pattern.Covers (lookupName host) := by
  have whole := length_asBytes_lower host.stripDot
  have below : List.Under '.' pattern.name (lookupName host) →
      lookupName host = pattern.name ∨ pattern.name.asBytes.length < (lookupName host).asBytes.length := by
    rintro (same | ⟨front, same⟩)
    · exact .inl same.symm
    · rw [same, asBytes_append, asBytes_cons (by decide), List.length_append, List.length_cons]
      exact .inr (by omega)
  rw [HostPattern.matches]
  dsimp only
  split_ifs with same short
  · rw [eqIgnoreCase_iff stored]
    refine ⟨.inl, ?_⟩
    rintro (equal | ⟨-, under⟩)
    · exact equal
    · rcases below under with equal | longer
      · exact equal
      · rw [lookupName] at longer
        omega
  · refine ⟨fun impossible => absurd impossible id, ?_⟩
    simp only [Bool.or_eq_true, Bool.not_eq_true', decide_eq_true_eq] at short
    rintro (equal | ⟨wildcard, under⟩)
    · rw [lookupName] at equal
      rw [equal] at whole
      omega
    · rcases below under with equal | longer
      · rw [lookupName] at equal
        rw [equal] at whole
        omega
      · rw [wildcard] at short
        rw [lookupName] at longer
        simp only [Bool.true_eq_false, false_or] at short
        omega
  · simp only [Bool.or_eq_true, Bool.not_eq_true', decide_eq_true_eq, not_or, Bool.not_eq_false, not_le] at short
    obtain ⟨n, length⟩ : ∃ n, host.stripDot.asBytes.length = n + 1 + pattern.name.asBytes.length :=
      ⟨host.stripDot.asBytes.length - pattern.name.asBytes.length - 1, by omega⟩
    have split : host.stripDot.asBytes.length - pattern.name.asBytes.length = n + 1 := by omega
    rw [split, Nat.add_sub_cancel, Bool.and_eq_true, beq_iff_eq, below_iff stored length]
    refine ⟨fun under => .inr ⟨short.1, under⟩, ?_⟩
    rintro (equal | ⟨-, under⟩)
    · exact equal ▸ .refl _ _
    · exact under

namespace Policy

theorem PatternSet.mem_add {set : PatternSet} {key : Text} :
    (key ∈ (set.add pattern).exact ↔ (pattern.wildcard = false ∧ key = pattern.name) ∨ key ∈ set.exact) ∧
      (key ∈ (set.add pattern).suffix ↔ (pattern.wildcard = true ∧ key = pattern.name) ∨ key ∈ set.suffix) := by
  cases wildcard : pattern.wildcard <;> simp [PatternSet.add, wildcard]

theorem PatternSet.mem_foldl {patterns : List HostPattern} {set : PatternSet} {key : Text} :
    (key ∈ (patterns.foldl PatternSet.add set).exact ↔
        (∃ pattern ∈ patterns, pattern.wildcard = false ∧ key = pattern.name) ∨ key ∈ set.exact) ∧
      (key ∈ (patterns.foldl PatternSet.add set).suffix ↔
        (∃ pattern ∈ patterns, pattern.wildcard = true ∧ key = pattern.name) ∨ key ∈ set.suffix) := by
  induction patterns generalizing set with
  | nil => simp
  | cons first rest ih =>
    rw [List.foldl_cons, ih.1, ih.2, PatternSet.mem_add.1, PatternSet.mem_add.2]
    simp only [List.mem_cons, exists_eq_or_imp, or_assoc]
    exact ⟨or_left_comm, or_left_comm⟩

theorem PatternSet.mem_new {patterns : List HostPattern} {key : Text} :
    (key ∈ (PatternSet.new patterns).exact ↔ ∃ pattern ∈ patterns, pattern.wildcard = false ∧ key = pattern.name) ∧
      (key ∈ (PatternSet.new patterns).suffix ↔ ∃ pattern ∈ patterns, pattern.wildcard = true ∧ key = pattern.name) := by
  obtain ⟨exact, suffix⟩ := @mem_foldl patterns ⟨∅, ∅⟩ key
  simp only [Finset.notMem_empty, or_false] at exact suffix
  exact ⟨exact, suffix⟩

/-- The hash sets decide what the patterns cover. -/
theorem PatternSet.matches_new_iff {patterns : List HostPattern} {key : Text} :
    (PatternSet.new patterns).matches key = true ↔ ∃ pattern ∈ patterns, pattern.Covers key := by
  have parents : ((key :: key.tailsAfter '.').any fun parent => parent ∈ (PatternSet.new patterns).suffix) = true ↔
      ∃ pattern ∈ patterns, pattern.wildcard = true ∧ List.Under '.' pattern.name key := by
    simp only [List.any_eq_true, decide_eq_true_eq, mem_new.2, List.mem_cons, ← List.under_iff_mem]
    constructor
    · rintro ⟨parent, under, pattern, member, wildcard, rfl⟩
      exact ⟨pattern, member, wildcard, under⟩
    · rintro ⟨pattern, member, wildcard, under⟩
      exact ⟨_, under, pattern, member, wildcard, rfl⟩
  have covers : (∃ pattern ∈ patterns, pattern.Covers key) ↔ key ∈ (PatternSet.new patterns).exact ∨
      ∃ pattern ∈ patterns, pattern.wildcard = true ∧ List.Under '.' pattern.name key := by
    rw [mem_new.1]
    constructor
    · rintro ⟨pattern, member, same | below⟩
      · cases wildcard : pattern.wildcard with
        | false => exact .inl ⟨pattern, member, wildcard, same⟩
        | true => exact .inr ⟨pattern, member, wildcard, .inl same.symm⟩
      · exact .inr ⟨pattern, member, below⟩
    · rintro (⟨pattern, member, -, same⟩ | ⟨pattern, member, below⟩)
      · exact ⟨pattern, member, .inl same⟩
      · exact ⟨pattern, member, .inr below⟩
  rw [PatternSet.matches, covers]
  split_ifs with inExact none
  · simp only [inExact, true_or]
  · simp only [inExact, false_or, false_iff]
    rintro ⟨pattern, member, wildcard, -⟩
    exact Finset.notMem_empty _ (none ▸ mem_new.2.mpr ⟨pattern, member, wildcard, rfl⟩)
  · simp only [parents, inExact, false_or]

theorem call_allowlist (policy : Policy) (calls : List Call) : (policy.after calls).allowlist = policy.allowlist := by
  induction calls with
  | nil => rfl
  | cons first rest ih => exact ih

/-- What a policy is made of. -/
theorem eq_of_new {format : PinsFormat} {config : Config} {json : Option Text} {policy : Policy}
    (made : Policy.new format config json = .ok policy) :
    ∃ user allowed, parsePatterns config.passthrough = .ok user ∧ parsePatterns config.allowlist = .ok allowed ∧
      policy = ⟨config.mitmEnabled, .new user, .new allowed, .start ((json.map (parsePins format)).getD ∅)⟩ := by
  unfold Policy.new at made
  cases passthrough : parsePatterns config.passthrough with
  | error reason =>
    rw [passthrough] at made
    cases made
  | ok user =>
    cases allowlist : parsePatterns config.allowlist with
    | error reason =>
      rw [passthrough, allowlist] at made
      cases made
    | ok allowed =>
      rw [passthrough, allowlist] at made
      exact ⟨user, allowed, rfl, rfl, (Except.ok.inj made).symm⟩

end Policy

/-- A host in brackets, as an IPv6 address stands in a URL. -/
def Bracketed (host : Text) : Prop := ∃ inner, host = '[' :: (inner ++ [']'])

theorem not_bracketed_of_head? (other : host.head? ≠ some '[') : ¬ Bracketed host := by
  rintro ⟨inner, rfl⟩
  exact other rfl

theorem lookupKey_of_not_bracketed (plain : ¬ Bracketed host.stripDot) : lookupKey host = lookupName host := by
  have none : ((stripPrefix host.stripDot ['[']).bind fun rest => stripSuffix rest [']']) = none := by
    rw [Option.eq_none_iff_forall_ne_some]
    intro inner found
    obtain ⟨rest, opened, closed⟩ := Option.bind_eq_some_iff.mp found
    refine plain ⟨inner, ?_⟩
    rw [stripPrefix_eq_some_iff.mp opened, stripSuffix_eq_some_iff.mp closed]
    rfl
  rw [lookupKey, none, Option.getD_none, lookupName]

/-- Only a key that is not empty is covered. -/
theorem HostPattern.Covers.nonempty {key : Text} (covers : pattern.Covers key) (named : pattern.name ≠ []) :
    key ≠ [] := by
  rintro rfl
  rcases covers with same | ⟨-, same | ⟨front, split⟩⟩
  · exact named same.symm
  · exact named same
  · simp at split

/-- The hash lookups of the proxy and the comparison of bytes of the DNS responder are the same function. -/
theorem allowlist_matchers_agree (format : PinsFormat) (config : Config) (json : Option Text) (policy : Policy)
    (made : Policy.new format config json = .ok policy) (calls : List Call) (patterns : List HostPattern)
    (accepted : Policy.parsePatterns config.allowlist = .ok patterns) (host : Text)
    (plain : ¬ Bracketed host.stripDot) :
    (policy.after calls).isAllowlisted host = true ↔ ∃ pattern ∈ patterns, pattern.matches host = true := by
  obtain ⟨user, allowed, -, same, rfl⟩ := Policy.eq_of_new made
  obtain rfl := Except.ok.inj (same.symm.trans accepted)
  have stored := parsePatterns_stored accepted
  have named : ∀ pattern ∈ allowed, pattern.name ≠ [] :=
    parsePatterns_forall (fun _ _ => HostPattern.parse_nonempty) accepted
  rw [Policy.isAllowlisted, lookupKey_of_not_bracketed plain, Policy.call_allowlist, Bool.and_eq_true,
    Policy.PatternSet.matches_new_iff]
  constructor
  · rintro ⟨-, pattern, member, covers⟩
    exact ⟨pattern, member, (HostPattern.matches_iff (stored pattern member)).mpr covers⟩
  · rintro ⟨pattern, member, matched⟩
    have covers := (HostPattern.matches_iff (stored pattern member)).mp matched
    refine ⟨?_, pattern, member, covers⟩
    simpa using covers.nonempty (named pattern member)

/-- A session with an exact and a wildcard pattern. -/
def allowConfig : Config := ⟨[], ["Ok.Example.".toList, " *.wide.example".toList], true⟩

def allowPatterns : List HostPattern := [⟨"ok.example".toList, false⟩, ⟨"wide.example".toList, true⟩]

def allowPolicy : Policy := ⟨true, .new [], .new allowPatterns, .start ∅⟩

theorem allowlist_matchers_agree_sample :
    (allowPolicy.after []).isAllowlisted "ö..Wide.EXAMPLE.".toList = true ∧
      ¬ (allowPolicy.after []).isAllowlisted "ok.example..".toList = true := by
  have agree := allowlist_matchers_agree ⟨fun _ => [], fun _ => none⟩ allowConfig none allowPolicy rfl [] allowPatterns
    (by decide)
  constructor
  · apply (agree "ö..Wide.EXAMPLE.".toList (not_bracketed_of_head? (by decide))).mpr
    exact ⟨⟨"wide.example".toList, true⟩, by decide, by decide⟩
  · rw [agree "ok.example..".toList (not_bracketed_of_head? (by decide))]
    decide

end Tollgate
