import Tollgate.Proofs.Filter.BlocklistDecision
import Tollgate.Proofs.Filter.PatternLimits
import Mathlib.Algebra.BigOperators.Group.Finset.Basic

/-! # The limits on wildcard patterns

Whatever the lists say, few patterns are kept and few of them are tried on every lookup. Exceptions come
first, so no block pattern costs one its place, and a pattern is left out only when there is no room left
for it. Each pattern left out counts as one skipped line.
-/

namespace Tollgate

/-- A pattern that is filed under neither end starts and ends with a star. -/
theorem isUnkeyed_of_keyless {pattern : Pattern} {text : Text} (valid : isValidPattern text = true)
    (same : pattern.glob = text.asBytes) (keyless : (!PatternSet.byTail pattern && !PatternSet.byHead pattern) = true) :
    isUnkeyed text = true := by
  have stored := (isValidPattern_stored valid).stored
  have nonempty : text ≠ [] := List.ne_nil_of_mem (isValidPattern_stored valid).dot
  have star : ∀ c ∈ text, Text.byte c = starByte → c = '*' := fun c member equal =>
    Text.byte_inj (stored c member).ascii (by decide) equal
  simp only [Bool.and_eq_true, Bool.not_eq_true'] at keyless
  have head : pattern.head = [] := by simpa [PatternSet.byHead, keyless.1] using keyless.2
  have tail : pattern.tail = [] := by simpa [PatternSet.byTail, head] using keyless.1
  rw [Pattern.head, same, stored.asBytes_eq, List.takeWhile_eq_nil_iff] at head
  rw [Pattern.tail, same, stored.asBytes_eq, List.rtakeWhile_eq_nil_iff] at tail
  have first : text.head nonempty = '*' := by
    apply star _ (List.head_mem nonempty)
    have found := head (by simpa using List.length_pos_of_ne_nil nonempty)
    simpa [List.head_eq_getElem] using found
  have last : text.getLast nonempty = '*' := by
    apply star _ (List.getLast_mem nonempty)
    have found := tail (by simpa using nonempty)
    simpa [List.getLast_map] using found
  simp [isUnkeyed, List.head?_eq_some_head nonempty, List.getLast?_eq_some_getLast nonempty, first, last]

/-- An index tries no more patterns on every lookup than start and end with a star. -/
theorem unkeyed_length_le {patterns : List Pattern} {index : PatternSet} {entries : List (Bool × Text)}
    (built : PatternSet.new patterns = some index)
    (same : patterns.map (fun pattern => (pattern.parents, pattern.glob)) =
      entries.map fun entry => (entry.1, entry.2.asBytes))
    (valid : ∀ entry ∈ entries, isValidPattern entry.2 = true) :
    index.unkeyed.length ≤ entries.countP fun entry => isUnkeyed entry.2 := by
  obtain ⟨-, -, -, -, unkeyed⟩ := PatternSet.new_eq_some_iff.mp built
  have count : index.unkeyed.length =
      patterns.countP fun pattern => !PatternSet.byTail pattern && !PatternSet.byHead pattern := by
    rw [unkeyed, PatternSet.collected, List.length_map, ← List.countP_eq_length_filter]
    conv_rhs => rw [← List.zipIdx_map_fst 0 patterns, List.countP_map]
    rfl
  rw [count]
  clear built unkeyed count
  induction patterns generalizing entries with
  | nil => exact Nat.zero_le _
  | cons pattern rest ih =>
    cases entries with
    | nil => cases same
    | cons entry others =>
      obtain ⟨here, later⟩ := List.cons.inj same
      obtain ⟨first, valid⟩ := List.forall_mem_cons.mp valid
      have bound := ih later valid
      have keyless := @isUnkeyed_of_keyless pattern entry.2 first (Prod.mk.inj here).2
      rw [List.countP_cons, List.countP_cons]
      by_cases tried : (!PatternSet.byTail pattern && !PatternSet.byHead pattern) = true
      · rw [if_pos tried, if_pos (keyless tried)]
        omega
      · rw [if_neg tried]
        omega

namespace Builder

variable {builder : Builder}

/-- The patterns of all kinds that pass a test, counted kind by kind. -/
theorem card_patterns_filter (builder : Builder) (test : Text → Bool) :
    (builder.patterns.filter fun entry => test entry.2).card =
      ((builder.sets .wildcardAllow).filter fun rule => test rule).card +
        ((builder.sets .exactWildcardAllow).filter fun rule => test rule).card +
        (((builder.sets .wildcardBlock).filter fun rule => test rule).card +
          ((builder.sets .exactWildcardBlock).filter fun rule => test rule).card) := by
  have tagged : ∀ kind : Kind, Function.Injective (Prod.mk kind : Text → Kind × Text) :=
    fun kind _ _ same => (Prod.mk.inj same).2
  have one : ∀ kind, (((builder.sets kind).image (Prod.mk kind)).filter fun entry => test entry.2).card =
      ((builder.sets kind).filter fun rule => test rule).card := by
    intro kind
    rw [Finset.filter_image, Finset.card_image_of_injective _ (tagged kind)]
  have apart : ∀ kind other : Kind, kind ≠ other →
      Disjoint (((builder.sets kind).image (Prod.mk kind)).filter fun entry => test entry.2)
        (((builder.sets other).image (Prod.mk other)).filter fun entry => test entry.2) := by
    intro kind other different
    rw [Finset.disjoint_left]
    intro entry first second
    obtain ⟨_, _, rfl⟩ := Finset.mem_image.mp (Finset.mem_filter.mp first).1
    obtain ⟨_, _, same⟩ := Finset.mem_image.mp (Finset.mem_filter.mp second).1
    exact different (Prod.mk.inj same).1.symm
  rw [patterns, Finset.filter_biUnion, Finset.card_biUnion fun kind _ other _ different => apart kind other different]
  simp [one, Nat.add_assoc]

theorem card_patterns (builder : Builder) :
    builder.patterns.card = (builder.sets .wildcardAllow).card + (builder.sets .exactWildcardAllow).card +
      ((builder.sets .wildcardBlock).card + (builder.sets .exactWildcardBlock).card) := by
  have counted := builder.card_patterns_filter fun _ => true
  simpa using counted

variable {lines : List TaggedLine}

namespace Collected

theorem contenders_nodup (collected : Collected builder lines) : (patternsConsidered lines).Nodup := by
  rw [← collected.contenders_eq]
  exact Gathered.contenders_nodup collected

/-- A pattern that was not cancelled stays exactly if it is admitted. -/
theorem mem_settle_iff (collected : Collected builder lines) {entry : Kind × Text}
    (considered : entry ∈ patternsConsidered lines) :
    entry.2 ∈ builder.settle.sets entry.1 ↔ entry ∈ admitted (patternsConsidered lines) := by
  obtain ⟨-, -, sets⟩ := Gathered.settle_spec collected
  have live := considered
  rw [← collected.contenders_eq, Gathered.mem_contenders collected, Gathered.mem_cancel collected] at live
  rw [sets entry, collected.contenders_eq, and_iff_right live.2]
  exact ⟨fun kept => kept live.1, fun kept _ => kept⟩

theorem settle_patterns_subset (collected : Collected builder lines) :
    builder.settle.patterns ⊆ (admitted (patternsConsidered lines)).toFinset := by
  intro entry member
  obtain ⟨pattern, inside⟩ := mem_patterns.mp member
  obtain ⟨-, -, sets⟩ := Gathered.settle_spec collected
  rw [List.mem_toFinset, ← collected.contenders_eq]
  exact ((sets entry).mp inside).2 pattern

theorem settle_patterns_le (collected : Collected builder lines) :
    builder.settle.patterns.card ≤ maxWildcardPatterns :=
  ((Finset.card_le_card collected.settle_patterns_subset).trans (List.toFinset_card_le _)).trans
    (admitted_length_le _)

theorem settle_unkeyed_le (collected : Collected builder lines) :
    (builder.settle.patterns.filter fun entry => isUnkeyed entry.2).card ≤ maxUnkeyedPatterns := by
  have inside := Finset.filter_subset_filter (fun entry : Kind × Text => isUnkeyed entry.2 = true)
    collected.settle_patterns_subset
  rw [← List.toFinset_filter] at inside
  exact ((Finset.card_le_card inside).trans (List.toFinset_card_le _)).trans (admitted_unkeyed_length_le _)

/-- Where a pattern that is left out stood, and what was kept before it. -/
theorem left_out (collected : Collected builder lines) {before after : List (Kind × Text)} {entry : Kind × Text}
    (turn : patternsConsidered lines = before ++ entry :: after)
    (leftOut : entry.2 ∉ builder.settle.sets entry.1) :
    (before.filter fun other => other.2 ∈ builder.settle.sets other.1).length = maxWildcardPatterns ∨
      isUnkeyed entry.2 = true ∧ (unkeyedOf (before.filter fun other => other.2 ∈ builder.settle.sets other.1)).length =
        maxUnkeyedPatterns := by
  have distinct := collected.contenders_nodup
  have kept : (before.filter fun other => other.2 ∈ builder.settle.sets other.1) = admitted before := by
    rw [turn] at distinct
    rw [← filter_mem_admitted distinct]
    apply List.filter_congr
    intro other member
    have considered : other ∈ patternsConsidered lines := by
      rw [turn]
      exact List.mem_append_left _ member
    rw [decide_eq_decide, ← turn]
    exact collected.mem_settle_iff considered
  have considered : entry ∈ patternsConsidered lines := by
    rw [turn]
    simp
  rw [collected.mem_settle_iff considered, turn] at leftOut
  rw [turn] at distinct
  rw [kept]
  exact not_room_of_left_out distinct leftOut

/-- Each pattern left out counts as skipped once. -/
theorem settle_skipped (collected : Collected builder lines) :
    builder.settle.skipped = (lines.map fun tagged => tagged.skipped.toNat).sum +
      ((patternsConsidered lines).filter fun entry => entry.2 ∉ builder.settle.sets entry.1).length := by
  obtain ⟨skips, -, -⟩ := Gathered.settle_spec collected
  rw [skips, collected.contenders_eq]
  congr 1
  have kept := (admitted_sublist (patternsConsidered lines)).filter_mem_eq collected.contenders_nodup
  have stays : ((patternsConsidered lines).filter fun entry => entry.2 ∈ builder.settle.sets entry.1) =
      admitted (patternsConsidered lines) := by
    refine (List.filter_congr ?_).trans kept
    intro entry member
    exact decide_eq_decide.mpr (collected.mem_settle_iff member)
  have total := List.length_eq_length_filter_add (l := patternsConsidered lines)
    fun entry => decide (entry.2 ∈ builder.settle.sets entry.1)
  rw [stays] at total
  simp only [decide_not]
  omega

theorem mem_settle_pattern (collected : Collected builder lines) {entry : Kind × Text}
    (pattern : entry.1.isPattern = true) :
    entry.2 ∈ builder.settle.sets entry.1 ↔ entry ∈ admitted (patternsConsidered lines) := by
  constructor
  · intro kept
    exact List.mem_toFinset.mp (collected.settle_patterns_subset (mem_patterns.mpr ⟨pattern, kept⟩))
  · intro kept
    exact (collected.mem_settle_iff ((admitted_sublist _).subset kept)).mpr kept

end Collected

end Builder

/-- The exceptions among the patterns that lines give and do not cancel. -/
theorem filter_exception_patternsLeft (lines : List TaggedLine) :
    ((patternsLeft lines).filter fun entry => entry.1.isException) =
      (((lines.flatMap TaggedLine.kept).filter fun entry => entry.1.isException && entry.1.isPattern).eraseDups).filter
        fun entry => entry ∉ lines.flatMap TaggedLine.cancels := by
  rw [patternsLeft, patternsSeen, List.filter_comm, List.filter_eraseDups, List.filter_filter]

/-- Lines that only give or cancel block patterns do not matter for the exceptions. -/
theorem filter_exception_patternsLeft_filter {lines : List TaggedLine} {keep : TaggedLine → Bool}
    (idle : ∀ tagged ∈ lines, keep tagged = false →
      ∀ entry ∈ tagged.rules ++ tagged.cancels, entry.1.isException = false) :
    ((patternsLeft (lines.filter keep)).filter fun entry => entry.1.isException) =
      (patternsLeft lines).filter fun entry => entry.1.isException := by
  have given : ∀ tagged ∈ lines, keep tagged = false → ∀ entry ∈ tagged.kept,
      (entry.1.isException && entry.1.isPattern) = false := by
    intro tagged member dropped entry inside
    have rule := List.mem_append_left tagged.cancels (List.mem_of_mem_filter inside)
    rw [idle tagged member dropped entry rule, Bool.false_and]
  have cancelled : ((lines.filter keep).flatMap TaggedLine.cancels).filter (fun entry => entry.1.isException) =
      (lines.flatMap TaggedLine.cancels).filter fun entry => entry.1.isException := by
    apply List.filter_flatMap_filter
    intro tagged member dropped entry inside
    exact idle tagged member dropped entry (List.mem_append_right tagged.rules inside)
  rw [filter_exception_patternsLeft, filter_exception_patternsLeft, List.filter_flatMap_filter given]
  apply List.filter_congr
  intro entry member
  rw [List.mem_eraseDups, List.mem_filter, Bool.and_eq_true] at member
  have same : entry ∈ (lines.filter keep).flatMap TaggedLine.cancels ↔ entry ∈ lines.flatMap TaggedLine.cancels := by
    have both := congrArg (entry ∈ ·) cancelled
    simpa [List.mem_filter, member.2.1] using both
  exact decide_eq_decide.mpr (not_congr same)

namespace Builder

variable {builder other : Builder} {lines : List TaggedLine} {keep : TaggedLine → Bool}

/-- An exception pattern is decided on among the exceptions alone. -/
theorem Collected.mem_settle_exception (collected : Collected builder lines) {entry : Kind × Text}
    (pattern : entry.1.isPattern = true) (exception : entry.1.isException = true) :
    entry.2 ∈ builder.settle.sets entry.1 ↔
      entry ∈ admitted ((patternsLeft lines).filter fun entry => entry.1.isException) := by
  rw [collected.mem_settle_pattern pattern, patternsConsidered]
  apply mem_admitted_append
  intro member
  have block := (List.mem_filter.mp member).2
  rw [exception] at block
  cases block

theorem Collected.exceptions_eq (first : Collected builder lines) (second : Collected other (lines.filter keep))
    (idle : ∀ tagged ∈ lines, keep tagged = false →
      ∀ entry ∈ tagged.rules ++ tagged.cancels, entry.1.isException = false)
    {kind : Kind} (pattern : kind.isPattern = true) (exception : kind.isException = true) :
    builder.settle.sets kind = other.settle.sets kind := by
  apply Finset.ext
  intro rule
  have left := @Collected.mem_settle_exception builder lines first (kind, rule) pattern exception
  have right := @Collected.mem_settle_exception other (lines.filter keep) second (kind, rule) pattern exception
  rw [filter_exception_patternsLeft_filter idle] at right
  exact left.trans right.symm

theorem sorted_countP (names : Finset Text) (test : Text → Bool) :
    (sorted names).countP test = (names.filter fun name => test name).card := by
  have distinct : (sorted names).Nodup := Finset.sort_nodup ..
  rw [List.countP_eq_length_filter, ← List.toFinset_card_of_nodup (distinct.filter _), List.toFinset_filter]
  congr 1
  rw [sorted, Finset.sort_toFinset]

theorem countP_patternEntries (parents host : Finset Text) :
    ((patternEntries (sorted parents) (sorted host)).countP fun entry => isUnkeyed entry.2) =
      (parents.filter fun rule => isUnkeyed rule).card + (host.filter fun rule => isUnkeyed rule).card := by
  rw [patternEntries, List.countP_append, List.countP_map, List.countP_map, ← sorted_countP, ← sorted_countP]
  rfl

/-- The indexes of a file that was written and loaded try few patterns on every lookup. -/
theorem Collected.loaded_unkeyed (collected : Collected builder lines) (settled : Settled builder) {bytes : Bytes}
    {set : DomainSet} (written : builder.finish.encode = some bytes)
    (loaded : DomainSet.fromBytes bytes = some (.ok set)) :
    set.wildcardAllow.unkeyed.length + set.wildcardBlock.unkeyed.length ≤ maxUnkeyedPatterns := by
  obtain ⟨allows, allowIndex, allowRead, allowBuilt, allowSame⟩ :=
    settled.exists_index .wildcardAllow .exactWildcardAllow (by decide) rfl rfl
  obtain ⟨blocks, blockIndex, blockRead, blockBuilt, blockSame⟩ :=
    settled.exists_index .wildcardBlock .exactWildcardBlock (by decide) rfl rfl
  have fits := DomainRules.fits_of_encode written
  have file : builder.finish.contents.file = bytes :=
    Option.some.inj ((builder.finish.encode_eq fits).symm.trans written)
  have read := DomainSet.new_file fits (DomainSet.sorted_sortedHashes builder.finish.block builder.finish.exactBlock)
    (DomainSet.sorted_sortedHashes builder.finish.allow builder.finish.exactAllow)
    (DomainSet.sorted_sortedHashes builder.finish.important []) allowRead blockRead
  rw [file] at read
  obtain rfl := Except.ok.inj (Option.some.inj (read.symm.trans loaded))
  have allowFew := unkeyed_length_le allowBuilt allowSame (settled.valid rfl rfl)
  have blockFew := unkeyed_length_le blockBuilt blockSame (settled.valid rfl rfl)
  have total := collected.settle_unkeyed_le
  rw [card_patterns_filter, ← countP_patternEntries, ← countP_patternEntries] at total
  exact (Nat.add_le_add allowFew blockFew).trans total

end Builder

/-- The limits hold, exceptions keep their places, and a pattern is left out for want of room only. -/
theorem wildcard_limits (lists : List DnsList) :
    (DomainRules.parseExempting lists).wildcardAllow.length +
        (DomainRules.parseExempting lists).exactWildcardAllow.length +
        ((DomainRules.parseExempting lists).wildcardBlock.length +
          (DomainRules.parseExempting lists).exactWildcardBlock.length) ≤ maxWildcardPatterns ∧
      (∀ bytes set, (DomainRules.parseExempting lists).encode = some bytes →
        DomainSet.fromBytes bytes = some (.ok set) →
        set.wildcardAllow.unkeyed.length + set.wildcardBlock.unkeyed.length ≤ maxUnkeyedPatterns) ∧
      (∀ (others : List DnsList) (keep : TaggedLine → Bool),
        others.flatMap DnsList.tagged = (lists.flatMap DnsList.tagged).filter keep →
        (∀ tagged ∈ lists.flatMap DnsList.tagged, keep tagged = false →
          ∀ entry ∈ tagged.rules ++ tagged.cancels, entry.1.isPattern = true ∧ entry.1.isException = false) →
        (DomainRules.parseExempting others).wildcardAllow = (DomainRules.parseExempting lists).wildcardAllow ∧
          (DomainRules.parseExempting others).exactWildcardAllow =
            (DomainRules.parseExempting lists).exactWildcardAllow) ∧
      (∀ before entry after, patternsConsidered (lists.flatMap DnsList.tagged) = before ++ entry :: after →
        entry.2 ∉ (DomainRules.collect lists).settle.sets entry.1 →
        (before.filter fun other => other.2 ∈ (DomainRules.collect lists).settle.sets other.1).length =
            maxWildcardPatterns ∨
          isUnkeyed entry.2 = true ∧
            (unkeyedOf (before.filter fun other =>
              other.2 ∈ (DomainRules.collect lists).settle.sets other.1)).length = maxUnkeyedPatterns) ∧
      (DomainRules.parseExempting lists).skipped =
        ((lists.flatMap DnsList.tagged).map fun tagged => tagged.skipped.toNat).sum +
          ((patternsConsidered (lists.flatMap DnsList.tagged)).filter fun entry =>
            entry.2 ∉ (DomainRules.collect lists).settle.sets entry.1).length := by
  have collected := Builder.collected_collect lists
  have settled := Builder.settled_collect lists
  refine ⟨?_, ?_, ?_, ?_, collected.settle_skipped⟩
  · have few := collected.settle_patterns_le
    rw [Builder.card_patterns] at few
    simpa only [DomainRules.parseExempting, Builder.finish, sorted_length] using few
  · intro bytes set written loaded
    exact collected.loaded_unkeyed settled written loaded
  · intro others keep same idle
    have second := Builder.collected_collect others
    rw [same] at second
    have blocks : ∀ tagged ∈ lists.flatMap DnsList.tagged, keep tagged = false →
        ∀ entry ∈ tagged.rules ++ tagged.cancels, entry.1.isException = false :=
      fun tagged member dropped entry inside => (idle tagged member dropped entry inside).2
    have parents := @Builder.Collected.exceptions_eq _ _ _ _ collected second blocks .wildcardAllow rfl rfl
    have hosts := @Builder.Collected.exceptions_eq _ _ _ _ collected second blocks .exactWildcardAllow rfl rfl
    simp only [DomainRules.parseExempting, Builder.finish, parents, hosts, and_self]
  · intro before entry after turn leftOut
    exact collected.left_out turn leftOut

/-- An exception pattern behind a block pattern. -/
def patternList : DnsList := ⟨⟨"||log*.example^\n@@||*-ok.example^".toList, .adblock⟩, none⟩

def exceptionList : DnsList := ⟨⟨"@@||*-ok.example^".toList, .adblock⟩, none⟩

/-- A pattern without a literal start or end, for each number. -/
def numbered (number : ℕ) : Text :=
  ['*', Char.ofNat (97 + number / 26), Char.ofNat (97 + number % 26)] ++ ".example*".toList

/-- One more of them than there is room for. -/
def crowdedList : DnsList :=
  ⟨⟨(List.range 65).flatMap fun number => "||".toList ++ numbered number ++ "^\n".toList, .adblock⟩, none⟩

/-- Those that there is room for. -/
def numberedFirst : List (Kind × Text) := (List.range 64).map fun number => (.wildcardBlock, numbered number)

def numberedLast : Kind × Text := (.wildcardBlock, numbered 64)

theorem crowdedList_considered : patternsConsidered ([crowdedList].flatMap DnsList.tagged) =
    numberedFirst ++ numberedLast :: [] := by decide +kernel

theorem numberedLast_left_out : numberedLast.2 ∉ (DomainRules.collect [crowdedList]).settle.sets numberedLast.1 := by
  have last : numberedLast ∈ patternsConsidered ([crowdedList].flatMap DnsList.tagged) := by
    rw [crowdedList_considered]
    exact List.mem_append_right _ (List.mem_singleton_self _)
  rw [(Builder.collected_collect [crowdedList]).mem_settle_iff last, crowdedList_considered]
  decide +kernel

/-- The exception does not depend on the pattern before it, and the last of the numbered patterns is left out. -/
theorem wildcard_limits_sample :
    ((DomainRules.parseExempting [exceptionList]).wildcardAllow = ["*-ok.example".toList] ∧
      (DomainRules.parseExempting [exceptionList]).wildcardAllow =
        (DomainRules.parseExempting [patternList]).wildcardAllow) ∧
    numberedLast.2 ∉ (DomainRules.collect [crowdedList]).settle.sets numberedLast.1 ∧
      (unkeyedOf (numberedFirst.filter fun other =>
        other.2 ∈ (DomainRules.collect [crowdedList]).settle.sets other.1)).length = maxUnkeyedPatterns := by
  refine ⟨⟨by decide +kernel, ?_⟩, numberedLast_left_out, ?_⟩
  · exact ((wildcard_limits [patternList]).2.2.1 [exceptionList]
      (fun tagged => tagged.line == "@@||*-ok.example^".toList) (by decide) (by decide)).1
  · obtain ⟨-, -, -, room, -⟩ := wildcard_limits [crowdedList]
    rcases room numberedFirst numberedLast [] crowdedList_considered numberedLast_left_out with full | ⟨-, full⟩
    · have few : numberedFirst.length = 64 := by rw [numberedFirst, List.length_map, List.length_range]
      exact absurd (full.ge.trans (List.length_filter_le _ _)) (by rw [few]; decide)
    · exact full

end Tollgate
