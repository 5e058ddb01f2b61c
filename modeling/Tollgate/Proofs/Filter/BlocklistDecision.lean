import Tollgate.Proofs.Filter.DomainLookup
import Mathlib.Algebra.Order.BigOperators.Group.List
import Mathlib.Algebra.GroupWithZero.Action.Defs

/-! # Compiling and loading a blocklist

What the lists leave in the rule sets fits the file format, the file loads, and a lookup of a DNS
name in it decides what the sets say. The number of names is the caller's promise; the wildcard
sections are small because the limits keep few patterns.
-/

namespace Tollgate

open Text

@[simp] theorem mem_sorted_iff {names : Finset Text} {name : Text} : name ∈ sorted names ↔ name ∈ names :=
  Finset.mem_sort _

@[simp] theorem sorted_length (names : Finset Text) : (sorted names).length = names.card := Finset.length_sort _

theorem mem_withoutRedundantChildren_iff {names : Finset Text} {name : Text} :
    name ∈ withoutRedundantChildren names ↔
      name ∈ names ∧ ∀ parent ∈ names, ∀ front, name ≠ front ++ '.' :: parent := by
  rw [withoutRedundantChildren, mem_sorted_iff, Finset.mem_filter]
  refine and_congr_right fun _ => ?_
  simp only [Bool.not_eq_true', List.any_eq_false, decide_eq_true_eq, Text.namesAbove, List.mem_tailsAfter_iff]
  constructor
  · intro none parent inside front equal
    exact none parent ⟨front, equal⟩ inside
  · rintro none parent ⟨front, equal⟩ inside
    exact none parent inside front equal

theorem withoutRedundantChildren_length_le (names : Finset Text) :
    (withoutRedundantChildren names).length ≤ names.card := by
  rw [withoutRedundantChildren, sorted_length]
  exact Finset.card_filter_le _ _

/-- A name or parent is kept exactly if some name or parent was in the set. -/
theorem exists_under_withoutRedundantChildren {names : Finset Text} {name : Text} :
    (∃ rule ∈ withoutRedundantChildren names, List.Under '.' rule name) ↔
      ∃ rule ∈ names, List.Under '.' rule name := by
  constructor
  · rintro ⟨rule, member, under⟩
    exact ⟨rule, (mem_withoutRedundantChildren_iff.mp member).1, under⟩
  · rintro ⟨rule, member, under⟩
    induction size : rule.length using Nat.strong_induction_on generalizing rule with
    | _ n ih =>
      by_cases topmost : ∀ parent ∈ names, ∀ front, rule ≠ front ++ '.' :: parent
      · exact ⟨rule, mem_withoutRedundantChildren_iff.mpr ⟨member, topmost⟩, under⟩
      · simp only [not_forall, not_not] at topmost
        obtain ⟨parent, inside, front, rfl⟩ := topmost
        refine ih parent.length ?_ parent inside (List.Under.trans (.of_append_cons ..) under) rfl
        rw [← size, List.length_append, List.length_cons]
        omega

/-- The number of names in the sets, patterns not counted. -/
def nameCount (sets : Kind → Finset Text) : ℕ :=
  (sets .important).card + (sets .allow).card + (sets .block).card + (sets .exactAllow).card +
    (sets .exactBlock).card

theorem sortedHashes_length_le (names exact : List Text) :
    (sortedHashes names exact).length ≤ names.length + exact.length := by
  rw [sortedHashes, Finset.length_sort]
  refine (List.toFinset_card_le _).trans ?_
  simp

private theorem patternLine_length_le {entry : Bool × Text} (valid : isValidPattern entry.2 = true) :
    (asBytes (patternLine entry)).length ≤ 255 := by
  have short : (asBytes entry.2).length ≤ 253 := isValidPattern_len valid
  rw [patternLine]
  split
  · rw [asBytes_cons (by decide), asBytes_cons (by decide), List.length_cons, List.length_cons]
    omega
  · rw [asBytes_cons (by decide), List.length_cons]
    omega

private theorem lines_length_le {entries : List (Bool × Text)}
    (valid : ∀ entry ∈ entries, isValidPattern entry.2 = true) :
    (asBytes ((entries.map patternLine).flatMap fun line => line ++ ['\n'])).length ≤ entries.length * 256 := by
  induction entries with
  | nil => simp
  | cons entry rest ih =>
    obtain ⟨head, tail⟩ := List.forall_mem_cons.mp valid
    have line := patternLine_length_le head
    have later := ih tail
    rw [List.map_cons, List.flatMap_cons, asBytes_append, asBytes_append, asBytes_cons (by decide), asBytes_nil,
      List.length_append, List.length_append, List.length_singleton, List.length_cons]
    omega

theorem patternEntries_length (parents host : List Text) :
    (patternEntries parents host).length = parents.length + host.length := by
  simp [patternEntries]

/-- A section of few patterns is small, and so is the index over it. -/
private theorem section_fits {parents host : List Text} (few : parents.length + host.length ≤ maxWildcardPatterns)
    (valid : ∀ entry ∈ patternEntries parents host, isValidPattern entry.2 = true) :
    (patternSection parents host).asBytes.length < 2 ^ 32 := by
  rw [patternSection_eq]
  refine (lines_length_le valid).trans_lt ?_
  rw [patternEntries_length]
  have limit : maxWildcardPatterns = 4096 := rfl
  omega

private theorem index_isSome {entries : List (Bool × Text)} {patterns : List Pattern}
    (few : entries.length ≤ maxWildcardPatterns) (valid : ∀ entry ∈ entries, isValidPattern entry.2 = true)
    (same : patterns.map (fun pattern => (pattern.parents, pattern.glob)) =
      entries.map fun entry => (entry.1, entry.2.asBytes)) : (PatternSet.new patterns).isSome = true := by
  apply PatternSet.new_isSome
  have globs : patterns.map (fun pattern => pattern.glob.length) = entries.map fun entry => entry.2.asBytes.length := by
    have lengths := congrArg (List.map fun entry : Bool × Bytes => entry.2.length) same
    simpa [List.map_map, Function.comp_def] using lengths
  have bound := List.sum_le_card_nsmul (entries.map fun entry => entry.2.asBytes.length) 253 (by
    intro length member
    obtain ⟨entry, inside, rfl⟩ := List.mem_map.mp member
    exact isValidPattern_len (valid entry inside))
  rw [List.length_map, smul_eq_mul] at bound
  rw [globs]
  refine bound.trans_lt ?_
  have limit : maxWildcardPatterns = 4096 := rfl
  omega

variable {sets : Kind → Finset Text} {name : Text}

theorem exists_exception_iff : (∃ kind : Kind, kind.isException = true ∧ RuleApplies sets kind name) ↔
    ((RuleApplies sets .exactAllow name ∨ RuleApplies sets .allow name) ∨
      RuleApplies sets .wildcardAllow name ∨ RuleApplies sets .exactWildcardAllow name) := by
  constructor
  · rintro ⟨kind, exception, applies⟩
    cases kind <;> first | contradiction | tauto
  · rintro ((applies | applies) | applies | applies) <;> exact ⟨_, rfl, applies⟩

theorem exists_plainBlock_iff : (∃ kind : Kind, kind.isPlainBlock = true ∧ RuleApplies sets kind name) ↔
    ((RuleApplies sets .exactBlock name ∨ RuleApplies sets .block name) ∨
      RuleApplies sets .wildcardBlock name ∨ RuleApplies sets .exactWildcardBlock name) := by
  constructor
  · rintro ⟨kind, plain, applies⟩
    cases kind <;> first | contradiction | tauto
  · rintro ((applies | applies) | applies | applies) <;> exact ⟨_, rfl, applies⟩

/-- Stored rules apply only to names with a dot. -/
theorem RuleApplies.dot (stored : ∀ kind, ∀ rule ∈ sets kind, StoredRule kind rule) {kind : Kind}
    (applies : RuleApplies sets kind name) : '.' ∈ name := by
  obtain ⟨rule, member, applies⟩ := applies
  have dot := (stored kind rule member).storedName.dot
  have glob : ∀ part, Glob.Matches '*' rule part → '.' ∈ part := fun part matched => matched.mem_of_mem (by decide) dot
  cases kind with
  | important | allow | block => exact applies.suffix.subset dot
  | exactAllow | exactBlock => exact applies ▸ dot
  | wildcardAllow | wildcardBlock =>
    obtain ⟨part, under, matched⟩ := applies
    exact under.suffix.subset (glob part matched)
  | exactWildcardAllow | exactWildcardBlock => exact glob name applies

theorem exists_entry_iff {parents host : Finset Text} :
    (∃ entry ∈ patternEntries (sorted parents) (sorted host), EntryApplies entry name) ↔
      (∃ rule ∈ parents, ∃ part, List.Under '.' part name ∧ Glob.Matches '*' rule part) ∨
        ∃ rule ∈ host, Glob.Matches '*' rule name := by
  simp only [patternEntries, List.mem_append, List.mem_map, mem_sorted_iff, EntryApplies]
  constructor
  · rintro ⟨_, ⟨rule, member, rfl⟩ | ⟨rule, member, rfl⟩, part, place, matched⟩
    · refine .inl ⟨rule, member, part, ?_, matched⟩
      rcases place with rfl | ⟨_, under⟩
      · exact .refl ..
      · exact under
    · rcases place with rfl | ⟨marked, _⟩
      · exact .inr ⟨rule, member, matched⟩
      · contradiction
  · rintro (⟨rule, member, part, under, matched⟩ | ⟨rule, member, matched⟩)
    · exact ⟨_, .inl ⟨rule, member, rfl⟩, part, .inr ⟨rfl, under⟩, matched⟩
    · exact ⟨_, .inr ⟨rule, member, rfl⟩, name, .inl rfl, matched⟩

namespace Builder

/-- What the sets of a builder look like once they are settled. -/
structure Settled (builder : Builder) : Prop where
  stored : ∀ kind, ∀ rule ∈ builder.settle.sets kind, StoredRule kind rule
  ordered : builder.Ordered

variable {builder : Builder}

theorem Settled.valid (settled : Settled builder) {parents host : Kind} (parentsKind : parents.isPattern = true)
    (hostKind : host.isPattern = true) :
    ∀ entry ∈ patternEntries (sorted (builder.settle.sets parents)) (sorted (builder.settle.sets host)),
      isValidPattern entry.2 = true := by
  intro entry member
  have pattern : ∀ kind : Kind, kind.isPattern = true → ∀ rule ∈ builder.settle.sets kind, isValidPattern rule = true := by
    intro kind isPattern rule inside
    have stored := settled.stored kind rule inside
    rwa [StoredRule, if_pos isPattern] at stored
  simp only [patternEntries, List.mem_append, List.mem_map, mem_sorted_iff] at member
  rcases member with ⟨rule, inside, rfl⟩ | ⟨rule, inside, rfl⟩
  · exact pattern parents parentsKind rule inside
  · exact pattern host hostKind rule inside

private theorem Settled.section_few (settled : Settled builder) {parents host : Kind} (different : parents ≠ host)
    (parentsKind : parents.isPattern = true) (hostKind : host.isPattern = true) :
    (sorted (builder.settle.sets parents)).length + (sorted (builder.settle.sets host)).length ≤
      maxWildcardPatterns := by
  rw [sorted_length, sorted_length]
  exact settle_card settled.ordered different parentsKind hostKind

theorem Settled.fits (settled : Settled builder) (few : nameCount builder.settle.sets < 2 ^ 32) :
    builder.finish.contents.Fits := by
  rw [nameCount] at few
  have kept := withoutRedundantChildren_length_le
  refine ⟨?_, ?_, ?_, ?_, ?_⟩
  · refine (sortedHashes_length_le _ _).trans_lt ?_
    have names := kept (builder.settle.sets .block)
    have hosts := sorted_length (builder.settle.sets .exactBlock)
    change (withoutRedundantChildren (builder.settle.sets .block)).length +
      (sorted (builder.settle.sets .exactBlock)).length < _
    omega
  · refine (sortedHashes_length_le _ _).trans_lt ?_
    have names := kept (builder.settle.sets .allow)
    have hosts := sorted_length (builder.settle.sets .exactAllow)
    change (withoutRedundantChildren (builder.settle.sets .allow)).length +
      (sorted (builder.settle.sets .exactAllow)).length < _
    omega
  · refine (sortedHashes_length_le _ _).trans_lt ?_
    have names := kept (builder.settle.sets .important)
    change (withoutRedundantChildren (builder.settle.sets .important)).length + 0 < _
    omega
  · exact section_fits (settled.section_few (by decide) rfl rfl) (settled.valid rfl rfl)
  · exact section_fits (settled.section_few (by decide) rfl rfl) (settled.valid rfl rfl)

/-- The index that loading a section of the file builds. -/
theorem Settled.exists_index (settled : Settled builder) (parents host : Kind) (different : parents ≠ host)
    (parentsKind : parents.isPattern = true) (hostKind : host.isPattern = true) :
    ∃ patterns index, parsePatterns (patternSection (sorted (builder.settle.sets parents))
        (sorted (builder.settle.sets host))).asBytes = some (some index) ∧ PatternSet.new patterns = some index ∧
      patterns.map (fun pattern => (pattern.parents, pattern.glob)) =
        (patternEntries (sorted (builder.settle.sets parents)) (sorted (builder.settle.sets host))).map
          fun entry => (entry.1, entry.2.asBytes) := by
  have valid := settled.valid parentsKind hostKind
  obtain ⟨patterns, parsed, same⟩ := parsePatterns_section valid
  have few : (patternEntries (sorted (builder.settle.sets parents)) (sorted (builder.settle.sets host))).length ≤
      maxWildcardPatterns := by
    rw [patternEntries_length]
    exact settled.section_few different parentsKind hostKind
  obtain ⟨index, built⟩ := Option.isSome_iff_exists.mp (index_isSome few valid same)
  exact ⟨patterns, index, by rw [parsed, built]; rfl, built, same⟩

/-- What that index decides. -/
private theorem Settled.index (settled : Settled builder) (parents host : Kind) (different : parents ≠ host)
    (parentsKind : parents.isPattern = true) (hostKind : host.isPattern = true) :
    ∃ index, parsePatterns (patternSection (sorted (builder.settle.sets parents))
        (sorted (builder.settle.sets host))).asBytes = some (some index) ∧
      ∀ query, Lookup query → ∃ found, index.matchesHost query.stripDot.asBytes = some found ∧
        (found = true ↔
          (∃ rule ∈ builder.settle.sets parents, ∃ part, List.Under '.' part (lookupName query) ∧
            Glob.Matches '*' rule part) ∨
          ∃ rule ∈ builder.settle.sets host, Glob.Matches '*' rule (lookupName query)) := by
  obtain ⟨patterns, index, read, built, same⟩ := settled.exists_index parents host different parentsKind hostKind
  refine ⟨index, read, ?_⟩
  intro query lookup
  obtain ⟨found, ran, decides⟩ := @PatternSet.matchesHost_decides _ _ _ query.stripDot.asBytes built rfl
  exact ⟨found, ran, decides.trans ((lookup.patterns_iff same (settled.valid parentsKind hostKind)).trans exists_entry_iff)⟩

private theorem Settled.names_stored (settled : Settled builder) (kind : Kind) :
    ∀ name ∈ withoutRedundantChildren (builder.settle.sets kind), StoredName name :=
  fun name member => (settled.stored kind name (mem_withoutRedundantChildren_iff.mp member).1).storedName

private theorem section_free {host : Text} (free : CollisionFree builder.finish (lookupName host)) :
    SectionFree builder.finish.block builder.finish.exactBlock (lookupName host) ∧
      SectionFree builder.finish.allow builder.finish.exactAllow (lookupName host) ∧
      SectionFree builder.finish.important [] (lookupName host) := by
  refine ⟨?_, ?_, ?_⟩ <;> intro entry member <;> refine free entry ?_ <;>
    simp only [DomainRules.hashed, List.map_append, List.mem_append, List.map_nil, List.not_mem_nil, or_false] at member ⊢ <;>
    tauto

variable {host : Text}

/-- A name section covers the host exactly if a rule of its kind applies. -/
private theorem Settled.covered_iff (settled : Settled builder) (lookup : Lookup host) (kind : Kind) {exact : List Text}
    (free : SectionFree (withoutRedundantChildren (builder.settle.sets kind)) exact (lookupName host)) :
    ((DomainSet.tailHashes 127 host.stripDot.asBytes).any fun probe =>
        decide (probe.toNat ∈ sortedHashes (withoutRedundantChildren (builder.settle.sets kind)) exact)) = true ↔
      ∃ rule ∈ builder.settle.sets kind, List.Under '.' rule (lookupName host) :=
  (lookup.covered_iff (settled.names_stored kind) free).trans exists_under_withoutRedundantChildren

/-- A section holds the tagged host exactly if a rule for that host only applies. -/
private theorem Settled.exactly_iff (settled : Settled builder) (lookup : Lookup host) (kind exactKind : Kind)
    (free : SectionFree (withoutRedundantChildren (builder.settle.sets kind)) (sorted (builder.settle.sets exactKind))
      (lookupName host)) :
    decide ((exactHash host.stripDot.asBytes).toNat ∈ sortedHashes (withoutRedundantChildren (builder.settle.sets kind))
        (sorted (builder.settle.sets exactKind))) = true ↔
      ∃ rule ∈ builder.settle.sets exactKind, rule = lookupName host := by
  refine (lookup.exactly_iff (settled.names_stored kind) free).trans ?_
  simp

/-- A host without a dot hashes nothing, and no rule applies to it. -/
private theorem tailHashes_isEmpty (lookup : Lookup host) :
    (DomainSet.tailHashes 127 host.stripDot.asBytes).isEmpty = true ↔ '.' ∉ lookupName host := by
  rw [← byte_dot_mem_iff lookup.stored, ← lookup.lower, dot_mem_of_lower, List.isEmpty_iff,
    List.eq_nil_iff_forall_not_mem]
  constructor
  · intro none dot
    exact none _ ((DomainSet.mem_tailHashes_iff lookup.few).mpr ⟨_, .refl .., dot, rfl⟩)
  · intro plain hash member
    obtain ⟨tail, under, dot, _⟩ := (DomainSet.mem_tailHashes_iff lookup.few).mp member
    exact plain (under.suffix.subset dot)

/-- The early exits of a lookup give the order in which rules win. -/
private theorem precedence (important exactAllow allow exactBlock block wildBlock wildAllow : Bool) :
    ∃ blocked, ((some important).bind fun important =>
      if important = true then some true
      else (orElse (some exactAllow) (some allow)).bind fun allowed =>
        if allowed = true then some false
        else (orElse (orElse (some exactBlock) (some block)) (some wildBlock)).bind fun blocked =>
          if blocked = true then (some wildAllow).map (!·) else some false) = some blocked ∧
      (blocked = true ↔ important = true ∨ ¬ ((exactAllow = true ∨ allow = true) ∨ wildAllow = true) ∧
        ((exactBlock = true ∨ block = true) ∨ wildBlock = true)) := by
  cases important <;> cases exactAllow <;> cases allow <;> cases exactBlock <;> cases block <;> cases wildBlock <;>
    cases wildAllow <;> decide

/-- A settled builder whose counts fit compiles to a file that loads and decides what the sets say. -/
theorem Settled.decides (settled : Settled builder) (fits : builder.finish.contents.Fits) :
    ∃ bytes set, builder.finish.encode = some bytes ∧ DomainSet.fromBytes bytes = some (.ok set) ∧
      ∀ host, isDnsName host = true → CollisionFree builder.finish (lookupName host) →
        ∃ blocked, set.isBlocked host = some blocked ∧
          (blocked = true ↔ Blocked builder.settle.sets (lookupName host)) := by
  obtain ⟨allowIndex, allowRead, allowDecides⟩ := settled.index .wildcardAllow .exactWildcardAllow (by decide) rfl rfl
  obtain ⟨blockIndex, blockRead, blockDecides⟩ := settled.index .wildcardBlock .exactWildcardBlock (by decide) rfl rfl
  have blockSorted := DomainSet.sorted_sortedHashes builder.finish.block builder.finish.exactBlock
  have allowSorted := DomainSet.sorted_sortedHashes builder.finish.allow builder.finish.exactAllow
  have importantSorted := DomainSet.sorted_sortedHashes builder.finish.important []
  refine ⟨builder.finish.contents.file, builder.finish.contents.loaded allowIndex blockIndex,
    builder.finish.encode_eq fits,
    DomainSet.new_file fits blockSorted allowSorted importantSorted allowRead blockRead, ?_⟩
  intro host dns free
  have lookup := isDnsName_lookup dns
  obtain ⟨blockFree, allowFree, importantFree⟩ := section_free free
  obtain ⟨wildAllow, wildAllowRan, wildAllowIff⟩ := allowDecides host lookup
  obtain ⟨wildBlock, wildBlockRan, wildBlockIff⟩ := blockDecides host lookup
  rw [DomainSet.isBlocked]
  dsimp only
  rw [DomainSet.suffixHashes_eq rfl, Checked.some_bind]
  by_cases none : (DomainSet.tailHashes 127 host.stripDot.asBytes).isEmpty = true
  · rw [if_pos none]
    refine ⟨false, rfl, ?_⟩
    have plain := (tailHashes_isEmpty lookup).mp none
    have never : ∀ kind, ¬ RuleApplies builder.settle.sets kind (lookupName host) :=
      fun kind applies => plain (applies.dot settled.stored)
    simp [Blocked, never]
  · have sections := @DomainSet.sections_loaded builder.finish.contents _ allowIndex blockIndex fits
    have important := sections.holds_important importantSorted
    have allow := sections.holds_allow allowSorted
    have block := sections.holds_block blockSorted
    rw [if_neg none, important.covered, allow.covered, allow.exactly, block.covered, block.exactly]
    have importantIff : (_ : Bool) = true ↔ RuleApplies _ .important _ :=
      settled.covered_iff lookup .important importantFree
    have allowIff : (_ : Bool) = true ↔ RuleApplies _ .allow _ := settled.covered_iff lookup .allow allowFree
    have exactAllowIff : (_ : Bool) = true ↔ RuleApplies _ .exactAllow _ :=
      settled.exactly_iff lookup .allow .exactAllow allowFree
    have blockIff : (_ : Bool) = true ↔ RuleApplies _ .block _ := settled.covered_iff lookup .block blockFree
    have exactBlockIff : (_ : Bool) = true ↔ RuleApplies _ .exactBlock _ :=
      settled.exactly_iff lookup .block .exactBlock blockFree
    change (wildAllow = true ↔ RuleApplies _ .wildcardAllow _ ∨ RuleApplies _ .exactWildcardAllow _) at wildAllowIff
    change (wildBlock = true ↔ RuleApplies _ .wildcardBlock _ ∨ RuleApplies _ .exactWildcardBlock _) at wildBlockIff
    rw [Blocked, exists_exception_iff, exists_plainBlock_iff, ← importantIff, ← allowIff, ← exactAllowIff,
      ← blockIff, ← exactBlockIff, ← wildAllowIff, ← wildBlockIff]
    change ∃ blocked, (Option.bind _ fun important => if important = true then _ else Option.bind _ fun allowed =>
      if allowed = true then _ else Option.bind (orElse _ (blockIndex.matchesHost _)) fun blocked =>
        if blocked = true then (allowIndex.matchesHost _).map _ else _) = some blocked ∧ _
    rw [wildAllowRan, wildBlockRan]
    exact precedence ..

theorem settled_collect (lists : List DnsList) : Settled (DomainRules.collect lists) := by
  obtain ⟨rules, ordered⟩ := collect_rules lists
  refine ⟨?_, ordered⟩
  intro kind rule member
  obtain ⟨_, _, admitted⟩ := rules kind rule ((settle_rules ordered).1 kind member)
  exact admitted.1

end Builder

end Tollgate
