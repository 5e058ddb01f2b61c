import Tollgate.Proofs.Filter.ExemptHosts

/-! # The DNS blocklist, from list text to lookup

The end-to-end results of the filter: what a compiled blocklist decides, that its wildcard index
is exact, and that lists with an exemption block no exempt host. They compose the reading of the
lists, the file format, the hash sections and the index.
-/

namespace Tollgate

/-- The wildcard index is built while the globs hold fewer than `2 ^ 32` bytes, and a lookup in it
finds exactly the hosts that some pattern covers. -/
theorem pattern_index_exact (patterns : List Pattern) :
    ((patterns.map fun pattern => pattern.glob.length).sum < 2 ^ 32 → ∃ set, PatternSet.new patterns = some set) ∧
      ∀ set, PatternSet.new patterns = some set → ∀ host : Bytes,
        ∃ found, set.matchesHost host = some found ∧
          (found = true ↔ ∃ pattern ∈ patterns, GlobMatches pattern.glob host ∨
            pattern.parents = true ∧ ∃ front name, host = front ++ dotByte :: name ∧
              GlobMatches pattern.glob name) :=
  ⟨fun small => Option.isSome_iff_exists.mp (PatternSet.new_isSome small),
    fun _ built _ => PatternSet.matchesHost_decides built rfl⟩

/-- A `||` pattern finds a subdomain of a name it matches, in either letter case. -/
theorem pattern_index_finds_subdomain : ∃ pattern set, Pattern.parse "||log*.example".toList = some pattern ∧
    PatternSet.new [pattern] = some set ∧ set.matchesHost (Text.asBytes "a.LOG1.example".toList) = some true := by
  have valid : isValidPattern "log*.example".toList = true := by decide
  obtain ⟨pattern, read, same⟩ := @parse_patternLine (true, "log*.example".toList) valid
  obtain ⟨parents, glob⟩ := Prod.mk.inj same
  obtain ⟨set, built⟩ := (pattern_index_exact [pattern]).1 (by
    rw [List.map_singleton, glob]
    decide)
  obtain ⟨found, ran, decides⟩ := (pattern_index_exact [pattern]).2 set built (Text.asBytes "a.LOG1.example".toList)
  have matched : GlobMatches pattern.glob (Text.asBytes "LOG1.example".toList) := by
    rw [glob]
    exact (globMatches_iff _ _).mp (by decide)
  refine ⟨pattern, set, read, built, ?_⟩
  rw [ran, decides.mpr ⟨pattern, List.mem_singleton_self _,
    .inr ⟨parents, Text.asBytes ['a'], Text.asBytes "LOG1.example".toList, by decide, matched⟩⟩]

/-- A compiled blocklist loads, and a lookup of a DNS name decides what the rules say. -/
theorem blocklist_decides_rules (lists : List ListSource)
    (few : nameCount (DomainRules.collect (lists.map fun source => ⟨source, none⟩)).settle.sets < 2 ^ 32) :
    ∃ bytes set, (DomainRules.parse lists).encode = some bytes ∧ DomainSet.fromBytes bytes = some (.ok set) ∧
      ∀ host, isDnsName host = true → CollisionFree (DomainRules.parse lists) (lookupName host) →
        ∃ blocked, set.isBlocked host = some blocked ∧
          (blocked = true ↔
            Blocked (DomainRules.collect (lists.map fun source => ⟨source, none⟩)).settle.sets (lookupName host)) :=
  (Builder.settled_collect _).decides ((Builder.settled_collect _).fits few)

/-- An important block wins over an exception for the same name, on its subdomains too. -/
theorem blocklist_important_wins :
    let lists : List ListSource := [⟨"||ads.example^$important\n@@||ads.example^".toList, .adblock⟩]
    ∃ bytes set, (DomainRules.parse lists).encode = some bytes ∧ DomainSet.fromBytes bytes = some (.ok set) ∧
      set.isBlocked "x.Ads.example.".toList = some true := by
  intro lists
  obtain ⟨bytes, set, written, loaded, decides⟩ := blocklist_decides_rules lists (by decide)
  obtain ⟨blocked, ran, verdict⟩ := decides "x.Ads.example.".toList (by decide +kernel) (by decide +kernel)
  refine ⟨bytes, set, written, loaded, ?_⟩
  rw [ran, verdict.mpr (.inl ⟨"ads.example".toList, by decide, .inr ⟨['x'], by decide⟩⟩)]

/-- Lists that all carry an exemption compile to a blocklist that blocks no exempt host. -/
theorem exempt_host_not_blocked (patterns : List Text) (lists : List ListSource) :
    let exemption := Exemption.new patterns
    let exempting := lists.map fun source => (⟨source, some exemption⟩ : DnsList)
    let rules := DomainRules.parseExempting exempting
    (nameCount (DomainRules.collect exempting).settle.sets < 2 ^ 32 →
      ∃ bytes set, rules.encode = some bytes ∧ DomainSet.fromBytes bytes = some (.ok set)) ∧
    ∀ bytes set, rules.encode = some bytes → DomainSet.fromBytes bytes = some (.ok set) →
      ∀ host, isDnsName host = true → exemption.covers host = true → CollisionFree rules (lookupName host) →
        set.isBlocked host = some false := by
  intro exemption exempting rules
  have settled := Builder.settled_collect exempting
  constructor
  · intro few
    obtain ⟨bytes, set, written, loaded, _⟩ := settled.decides (settled.fits few)
    exact ⟨bytes, set, written, loaded⟩
  · intro bytes set written loaded host dns covered free
    obtain ⟨_, _, rewritten, reloaded, decides⟩ := settled.decides (DomainRules.fits_of_encode written)
    obtain rfl := Option.some.inj (rewritten.symm.trans written)
    obtain rfl := Except.ok.inj (Option.some.inj (reloaded.symm.trans loaded))
    obtain ⟨blocked, ran, verdict⟩ := decides host dns free
    have kept : ∀ kind, ∀ rule ∈ (DomainRules.collect exempting).settle.sets kind,
        kind.coversExempt rule exemption = false := by
      intro kind rule member
      obtain ⟨rulesOf, ordered⟩ := Builder.collect_rules exempting
      obtain ⟨list, inside, admitted⟩ := rulesOf kind rule ((Builder.settle_rules ordered).1 kind member)
      obtain ⟨source, _, rfl⟩ := List.mem_map.mp inside
      exact admitted.2 exemption rfl
    have never := Exemption.not_blocked (Exemption.new_closed patterns) covered (isDnsName_lookup dns).stored
      settled.stored kept
    rw [ran, Bool.eq_false_iff.mpr (fun isBlocked => never (verdict.mp isBlocked))]

/-- A list that exempts a domain does not block a host under it, though it names one of its parents. -/
theorem exempt_subdomain_not_blocked :
    let exempting : List DnsList := [⟨⟨"||bank.example^\n|www.bank.example^".toList, .adblock⟩,
      some (.new ["*.bank.example".toList])⟩]
    ∃ bytes set, (DomainRules.parseExempting exempting).encode = some bytes ∧
      DomainSet.fromBytes bytes = some (.ok set) ∧ set.isBlocked "www.bank.example".toList = some false := by
  obtain ⟨loads, notBlocked⟩ := exempt_host_not_blocked ["*.bank.example".toList]
    [⟨"||bank.example^\n|www.bank.example^".toList, .adblock⟩]
  obtain ⟨bytes, set, written, loaded⟩ := loads (by decide)
  exact ⟨bytes, set, written, loaded, notBlocked bytes set written loaded "www.bank.example".toList
    (by decide +kernel) (by decide +kernel) (by decide +kernel)⟩

end Tollgate
