import Tollgate.Proofs.Filter.BlocklistDecision
import Tollgate.Proofs.Filter.LineKinds
import Tollgate.Proofs.Filter.PatternLimits

/-! # Hosts lines and rule lines

No line is read by both parsers: the adblock parser skips what the detector takes for a hosts line, and the
hosts parser takes no name from a rule. The hosts parser itself is not as strict as the detector: it also reads
comments that start with `!`, headers, and every field of a line without an address. A list blocks only what its
hosts lines name exactly if a site that such a place mentions is exempt, under another that is blocked, or named
in a hosts line as well.
-/

namespace Tollgate

open Text

theorem parseAdblockLine_cases {line : Text} (content : leftOut line.trim = false) :
    parseAdblockLine line = .skip ∨ ∃ kind name badfilter, parseAdblockLine line = .rule kind name badfilter := by
  cases parsed : parseAdblockLine line with
  | skip => exact .inl rfl
  | rule kind name badfilter => exact .inr ⟨kind, name, badfilter, rfl⟩
  | comment =>
    simp only [parseAdblockLine] at parsed
    rw [if_neg (by simpa [leftOut] using content)] at parsed
    split at parsed
    · contradiction
    · split at parsed <;> contradiction

/-- A line from which nothing is taken only counts as skipped. -/
theorem addHostsLine_of_none {line : Text} (some : hostsBlank line = false)
    (none : (hostsFields line).filterMap hostsName = []) (builder : Builder) :
    builder.addHostsLine line = { builder with skipped := builder.skipped + 1 } := by
  rw [Builder.addHostsLine_eq, Builder.tell]
  simp [TaggedLine.rules, TaggedLine.cancels, TaggedLine.skipped, none, some]

/-- A line with one name adds that name. -/
theorem addHostsLine_of_single {line name : Text} (single : (hostsFields line).filterMap hostsName = [name])
    {builder : Builder} (plain : builder.exempt = none) :
    builder.addHostsLine line = builder.updateSet .block (insert name) := by
  cases builder with
  | mk exempt sets badfilter patternOrder skipped exempted =>
    subst plain
    rw [Builder.addHostsLine_eq, Builder.tell]
    simp [TaggedLine.rules, TaggedLine.cancels, TaggedLine.skipped, single, Builder.addRule, Builder.exempts,
      Kind.isPattern, Builder.updateSet]

theorem hostsName_of_isHostName {field : Text} (accepted : isHostName field = true)
    (other : field.stripDot.eqIgnoreAsciiCase "localhost.localdomain".toList = false) :
    hostsName field = some field.stripDot.toAsciiLowercase := by
  unfold hostsName
  split
  · next same =>
    have lower : field.toAsciiLowercase = "localhost.localdomain".toList := eq_of_beq same
    have noDot : field.getLast? ≠ some '.' := by
      intro last
      have ends : field.toAsciiLowercase.getLast? = some '.' := by
        rw [toAsciiLowercase, List.getLast?_map, last]
        rfl
      rw [lower] at ends
      exact absurd ends (by decide)
    rw [stripDot_of_getLast? noDot, same] at other
    contradiction
  · exact normalizeName_of_isHostName accepted

/-- Each parser reads only its own kind of line. -/
theorem parsers_read_own_lines (line : Text) (content : leftOut line.trim = false) :
    (isHostsLine line.trim = true → parseAdblockLine line = .skip) ∧
    (∀ kind name badfilter, parseAdblockLine line = .rule kind name badfilter →
      ∀ builder : Builder, builder.addHostsLine line = { builder with skipped := builder.skipped + 1 }) ∧
    ∀ first fields, line.trim.splitWhitespace = first :: fields → isAddress first = false →
      isHostsLine line.trim = true → first.stripDot.eqIgnoreAsciiCase "localhost.localdomain".toList = false →
      ∀ builder : Builder, builder.exempt = none →
        builder.addHostsLine line = builder.updateSet .block (insert first.stripDot.toAsciiLowercase) := by
  refine ⟨?_, ?_, ?_⟩
  · intro hosts
    rcases parseAdblockLine_cases content with skip | ⟨kind, name, badfilter, rule⟩
    · exact skip
    · obtain ⟨head, options, ruleLine⟩ := parseAdblockLine_ruleLine rule
      exact absurd ruleLine (parseAdblockLine_of_isHostsLine hosts head options)
  · intro kind name badfilter rule builder
    obtain ⟨head, options, ruleLine⟩ := parseAdblockLine_ruleLine rule
    obtain ⟨notBlank, none⟩ := hostsFields_of_ruleLine ruleLine
    exact addHostsLine_of_none notBlank none builder
  · intro first fields split noAddress hosts other builder plain
    rw [isHostsLine, split] at hosts
    dsimp only at hosts
    rw [noAddress, if_neg Bool.false_ne_true, Bool.and_eq_true] at hosts
    have comment : ∀ field ∈ fields.head?, field.head? = some '#' := by
      intro field next
      have starts := hosts.2
      rw [Option.mem_def.mp next] at starts
      exact eq_of_beq starts
    apply addHostsLine_of_single _ plain
    rw [hostsFields_of_hostName split hosts.1 comment]
    exact List.filterMap_cons_some (hostsName_of_isHostName hosts.1 other)

theorem parsers_read_own_lines_sample :
    parseAdblockLine "fe80::1%*$ important ".toList = .skip ∧
      (∀ builder : Builder, builder.addHostsLine "@@||ads.example^$ important, badfilter".toList =
        { builder with skipped := builder.skipped + 1 }) ∧
      ∀ builder : Builder, builder.exempt = none → builder.addHostsLine " Ads.Example. # *^".toList =
        builder.updateSet .block (insert "ads.example".toList) :=
  ⟨(parsers_read_own_lines "fe80::1%*$ important ".toList (by decide)).1 (by decide),
    (parsers_read_own_lines "@@||ads.example^$ important, badfilter".toList (by decide)).2.1
      .allow "ads.example".toList true (by decide),
    (parsers_read_own_lines " Ads.Example. # *^".toList (by decide)).2.2 "Ads.Example.".toList
      ["#".toList, "*^".toList] (by decide) (by decide) (by decide) (by decide)⟩

/-- The lines of a text without its byte order mark. -/
def listLines (text : Text) : List Text := ((text.stripPrefix ['\uFEFF']).getD text).lines

/-- The rule lines of one kind, as the detector counts them. -/
def ruleLines (hosts : Bool) (lines : List Text) : ℕ :=
  lines.countP fun line => !leftOut line.trim && isHostsLine line.trim == hosts

theorem foldl_countLine (lines : List Text) (counts : ℕ × ℕ) :
    lines.foldl countLine counts = (counts.1 + ruleLines true lines, counts.2 + ruleLines false lines) := by
  induction lines generalizing counts with
  | nil => rfl
  | cons line rest ih =>
    have next : ∀ hosts, ruleLines hosts (line :: rest) =
        ruleLines hosts rest + if (!leftOut line.trim && isHostsLine line.trim == hosts) = true then 1 else 0 :=
      fun hosts => List.countP_cons
    rw [List.foldl_cons, ih, next, next]
    simp only [countLine]
    cases left : leftOut line.trim with
    | true => simp
    | false =>
      cases isHostsLine line.trim with
      | true => simp [Nat.add_assoc, Nat.add_comm 1]
      | false => simp [Nat.add_assoc, Nat.add_comm 1]

/-- A list in the hosts format has more hosts lines than others. -/
theorem counts_of_detectFormat {text : Text} (verdict : detectFormat text = some .hosts) :
    ∃ hosts other, (listLines text).foldl countLine (0, 0) = (hosts, other) ∧ compare hosts other = .gt := by
  rcases counted : (listLines text).foldl countLine (0, 0) with ⟨hosts, other⟩
  refine ⟨hosts, other, rfl, ?_⟩
  rw [detectFormat] at verdict
  rw [listLines] at counted
  rw [counted] at verdict
  dsimp only at verdict
  cases order : compare hosts other with
  | gt => rfl
  | lt =>
    rw [order] at verdict
    cases verdict
  | eq =>
    rw [order] at verdict
    cases verdict

/-- The adblock parser reads less than the hosts lines of a list that is taken for a hosts file. -/
theorem rules_lt_of_detectFormat {text : Text} (verdict : detectFormat text = some .hosts) :
    (listLines text).countP (fun line => parseAdblockLine line ≠ .comment ∧ parseAdblockLine line ≠ .skip) <
      ruleLines true (listLines text) := by
  have majority : ruleLines false (listLines text) < ruleLines true (listLines text) := by
    have counted : (listLines text).foldl countLine (0, 0) = _ := foldl_countLine _ _
    rw [Nat.zero_add, Nat.zero_add] at counted
    obtain ⟨hosts, other, counts, greater⟩ := counts_of_detectFormat verdict
    cases counts.symm.trans counted
    exact Nat.compare_eq_gt.mp greater
  refine lt_of_le_of_lt (List.countP_mono_left ?_) majority
  intro line _ read
  cases parsed : parseAdblockLine line with
  | comment => simp [parsed] at read
  | skip => simp [parsed] at read
  | rule kind name badfilter =>
    obtain ⟨head, options, ruleLine⟩ := parseAdblockLine_ruleLine parsed
    have noHosts : isHostsLine line.trim = false := by
      by_contra hosts
      exact parseAdblockLine_of_isHostsLine (Bool.not_eq_false _ ▸ hosts) head options ruleLine
    have content : leftOut line.trim = false := by
      by_contra comment
      rw [Bool.not_eq_false] at comment
      simp only [parseAdblockLine] at parsed
      rw [if_pos (by simpa [leftOut] using comment)] at parsed
      contradiction
    rw [noHosts, content]
    rfl

/-- A list with hosts lines of both kinds and one rule. -/
def mostlyHosts : Text := "! lists\n0.0.0.0 ads.example\n||ads.example^\nlog.example\n".toList

theorem rules_lt_of_detectFormat_sample :
    (listLines mostlyHosts).countP
        (fun line => parseAdblockLine line ≠ .comment ∧ parseAdblockLine line ≠ .skip) <
      ruleLines true (listLines mostlyHosts) :=
  rules_lt_of_detectFormat (by decide)

/-- The fields of a line before any comment. -/
def lineFields (line : Text) : List Text := Text.splitWhitespace (line.takeWhile (· != '#'))

/-- A field is a name, up to letter case and one trailing dot. -/
def Spells (field name : Text) : Prop := field.stripDot.toAsciiLowercase = name

/-- A hosts line that is no comment and names a host, behind an address or alone. -/
structure Names (line name : Text) : Prop where
  content : leftOut line.trim = false
  shape : ∃ first fields, lineFields line = first :: fields ∧
    ((IpAddr.isIpAddr first = true ∨ ':' ∈ first) ∧ (∃ field ∈ fields, Spells field name) ∨
      fields = [] ∧ Spells first name)

/-- A line that is no comment and starts with an address or has one field only. -/
def hasHostsShape (line : Text) : Bool :=
  !leftOut line.trim &&
    match lineFields line with
    | [] => false
    | first :: fields => IpAddr.isIpAddr first || first.contains ':' || fields.isEmpty

/-- A line with a host name as a field before any comment, wherever it stands. -/
def Mentions (line name : Text) : Prop :=
  ∃ field ∈ lineFields line, IsSite field.stripDot ∧ Spells field name ∧
    field.toAsciiLowercase ≠ "localhost.localdomain".toList

/-- The exemption of a list covers a name or a host under it. -/
def Exempt (exempt : Option Exemption) (name : Text) : Prop := exempt.any (·.coversSubtree name) = true

/-- A line of the text mentions a name that is not exempt. -/
def Given (text : Text) (exempt : Option Exemption) (name : Text) : Prop :=
  (∃ line ∈ listLines text, Mentions line name) ∧ ¬Exempt exempt name

theorem hostsName_eq_some_iff {field name : Text} : hostsName field = some name ↔
    IsSite field.stripDot ∧ Spells field name ∧ field.toAsciiLowercase ≠ "localhost.localdomain".toList := by
  unfold hostsName
  split
  · next same => exact ⟨nofun, fun other => absurd (eq_of_beq same) other.2.2⟩
  · next other =>
    have differs : field.toAsciiLowercase ≠ "localhost.localdomain".toList :=
      fun same => other (beq_iff_eq.mpr same)
    rw [normalizeName_eq_some_iff, Spells, and_iff_left differs]

/-- The fields that are read as names, apart from addresses. -/
theorem hostsFields_eq (line : Text) : hostsFields line =
    match lineFields line with
    | [] => []
    | first :: fields => if IpAddr.isIpAddr first || first.contains ':' then fields else first :: fields := by
  unfold hostsFields
  rw [splitWhitespace_trim]
  rfl

theorem mem_hostsFields_iff {line field : Text} (plain : IpAddr.isIpAddr field = false ∧ ':' ∉ field) :
    field ∈ hostsFields line ↔ field ∈ lineFields line := by
  rw [hostsFields_eq]
  cases lineFields line with
  | nil => rfl
  | cons first fields =>
    dsimp only
    split_ifs with address
    · refine ⟨List.mem_cons_of_mem _, fun member => ?_⟩
      rcases List.mem_cons.mp member with rfl | later
      · simp [plain.1, plain.2] at address
      · exact later
    · rfl

/-- An address in front of a line is not a name, so every field that is one is read as one. -/
theorem mentions_iff {line name : Text} :
    Mentions line name ↔ ∃ field ∈ hostsFields line, hostsName field = some name := by
  simp only [hostsName_eq_some_iff]
  refine exists_congr fun field => and_congr_left ?_
  rintro ⟨site, spells, -⟩
  have plain := isIpAddr_of_normalizeName (normalizeName_eq_some_iff.mpr ⟨site, spells⟩)
  exact (mem_hostsFields_iff plain).symm

/-- What a line in the shape of a hosts line mentions, it names. -/
theorem Mentions.names {line name : Text} (mentions : Mentions line name) (shape : hasHostsShape line = true) :
    Names line name := by
  obtain ⟨field, member, taken⟩ := mentions_iff.mp mentions
  obtain ⟨-, spells, -⟩ := hostsName_eq_some_iff.mp taken
  unfold hasHostsShape at shape
  rw [Bool.and_eq_true, Bool.not_eq_true'] at shape
  refine ⟨shape.1, ?_⟩
  rw [hostsFields_eq] at member
  cases split : lineFields line with
  | nil =>
    rw [split] at member
    contradiction
  | cons first fields =>
    rw [split] at member shape
    refine ⟨first, fields, rfl, ?_⟩
    dsimp only at member shape
    cases address : IpAddr.isIpAddr first || first.contains ':' with
    | true =>
      rw [address, if_pos rfl] at member
      rw [Bool.or_eq_true, List.contains_iff_mem] at address
      exact .inl ⟨address, field, member, spells⟩
    | false =>
      rw [address, Bool.false_or, List.isEmpty_iff] at shape
      rw [address, if_neg Bool.false_ne_true, shape.2, List.mem_singleton] at member
      exact .inr ⟨shape.2, member ▸ spells⟩

theorem hasHostsShape_of_names {line name : Text} (named : Names line name) : hasHostsShape line = true := by
  obtain ⟨content, first, fields, split, shape⟩ := named
  unfold hasHostsShape
  rw [content, split]
  rcases shape with ⟨isAddr | colon, -⟩ | ⟨rfl, -⟩
  · simp [isAddr]
  · simp [colon]
  · simp

theorem mem_block_iff {lists : List DnsList} {name : Text} : name ∈ (DomainRules.parseExempting lists).block ↔
    name ∈ (DomainRules.collect lists).settle.sets .block ∧
      (!name.namesAbove.any fun parent => parent ∈ (DomainRules.collect lists).settle.sets .block) = true :=
  mem_sorted_iff.trans Finset.mem_filter

/-- What a hosts list has left once it is settled: no line cancels a name, and no limit applies to one. -/
theorem mem_settle_iff {text name : Text} {exempt : Option Exemption} :
    name ∈ (DomainRules.collect [⟨⟨text, .hosts⟩, exempt⟩]).settle.sets .block ↔ Given text exempt name := by
  have collected := Builder.collected_collect [⟨⟨text, .hosts⟩, exempt⟩]
  obtain ⟨-, -, settled⟩ := Builder.Gathered.settle_spec collected
  rw [settled (.block, name), List.flatMap_singleton]
  constructor
  · rintro ⟨⟨rule, -⟩, -⟩
    obtain ⟨tagged, inList, kept⟩ := List.mem_flatMap.mp rule
    obtain ⟨line, inText, rfl⟩ := List.mem_map.mp inList
    obtain ⟨taken, covered⟩ := List.mem_filter.mp kept
    obtain ⟨stored, found, same⟩ := List.mem_map.mp taken
    cases same
    refine ⟨⟨line, inText, mentions_iff.mpr (List.mem_filterMap.mp found)⟩, ?_⟩
    rwa [Bool.not_eq_true', ← Bool.not_eq_true] at covered
  · rintro ⟨⟨line, inText, mentions⟩, uncovered⟩
    refine ⟨⟨List.mem_flatMap.mpr ⟨⟨.hosts, exempt, line⟩, List.mem_map_of_mem inText, ?_⟩, ?_⟩, nofun⟩
    · refine List.mem_filter.mpr ⟨List.mem_map_of_mem (List.mem_filterMap.mpr (mentions_iff.mp mentions)), ?_⟩
      rwa [Bool.not_eq_true', ← Bool.not_eq_true]
    · intro cancelled
      obtain ⟨tagged, inList, cancels⟩ := List.mem_flatMap.mp cancelled
      obtain ⟨line, -, rfl⟩ := List.mem_map.mp inList
      contradiction

/-- What a hosts list blocks: the names it gives that are not under another. -/
theorem mem_hosts_block_iff {text name : Text} {exempt : Option Exemption} :
    name ∈ (DomainRules.parseExempting [⟨⟨text, .hosts⟩, exempt⟩]).block ↔
      Given text exempt name ∧ ¬∃ parent ∈ name.namesAbove, Given text exempt parent := by
  rw [mem_block_iff, mem_settle_iff, Bool.not_eq_true', ← Bool.not_eq_true, List.any_eq_true]
  simp only [decide_eq_true_eq, mem_settle_iff]

/-- A hosts list blocks only what its hosts lines name exactly if each site that another line mentions is exempt,
is under a name that the list gives, or is named in a hosts line as well. -/
theorem hosts_list_blocks_named (text : Text) (exempt : Option Exemption) :
    (∀ name ∈ (DomainRules.parseExempting [⟨⟨text, .hosts⟩, exempt⟩]).block,
      ∃ line ∈ listLines text, Names line name) ↔
    ∀ line ∈ listLines text, hasHostsShape line = false → ∀ name, Mentions line name →
      Exempt exempt name ∨ (∃ parent ∈ name.namesAbove, Given text exempt parent) ∨
        ∃ other ∈ listLines text, Names other name := by
  constructor
  · intro named line inText _ name mentions
    by_cases covered : Exempt exempt name
    · exact .inl covered
    by_cases redundant : ∃ parent ∈ name.namesAbove, Given text exempt parent
    · exact .inr (.inl redundant)
    · exact .inr (.inr (named name (mem_hosts_block_iff.mpr ⟨⟨⟨line, inText, mentions⟩, covered⟩, redundant⟩)))
  · intro harmless name member
    obtain ⟨⟨⟨line, inText, mentions⟩, uncovered⟩, single⟩ := mem_hosts_block_iff.mp member
    cases shape : hasHostsShape line with
    | true => exact ⟨line, inText, mentions.names shape⟩
    | false =>
      rcases harmless line inText shape name mentions with covered | redundant | named
      · exact absurd covered uncovered
      · exact absurd redundant single
      · exact named

/-- A hosts list with comments of every kind; one mentions a site that a hosts line names as well. -/
def orderlyHosts : Text :=
  "! Homepage: www.example.com\n# see an.example\n0.0.0.0 Ads.Example. WWW.example.com # log.example\n".toList

theorem hosts_list_blocks_named_sample :
    (∃ line ∈ listLines orderlyHosts, hasHostsShape line = false ∧ Mentions line "www.example.com".toList) ∧
      ∀ name ∈ (DomainRules.parseExempting [⟨⟨orderlyHosts, .hosts⟩, none⟩]).block,
        ∃ line ∈ listLines orderlyHosts, Names line name := by
  have named : Names "0.0.0.0 Ads.Example. WWW.example.com # log.example".toList "www.example.com".toList :=
    ⟨by decide, _, _, rfl, .inl ⟨.inl (by decide), "WWW.example.com".toList, by decide, rfl⟩⟩
  have read : ∀ line ∈ listLines orderlyHosts, hasHostsShape line = false →
      ∀ name ∈ (hostsFields line).filterMap hostsName, name = "www.example.com".toList := by decide
  refine ⟨⟨"! Homepage: www.example.com".toList, by decide, by decide, ?_⟩, ?_⟩
  · exact mentions_iff.mpr ⟨"www.example.com".toList, by decide, by decide⟩
  · refine (hosts_list_blocks_named orderlyHosts none).mpr ?_
    intro line inText shape name mentions
    obtain rfl := read line inText shape name (List.mem_filterMap.mpr (mentions_iff.mp mentions))
    exact .inr (.inr ⟨_, by decide, named⟩)

/-- A hosts list that mentions a site in a comment. -/
def commentHosts : Text := "! Homepage: www.example.com\n".toList

/-- A hosts list with a line of prose. -/
def proseHosts : Text := "see www.example.com for more\n".toList

/-- A site that a comment or a line of prose mentions is blocked, though no hosts line names it. -/
theorem comment_blocks_site :
    ("www.example.com".toList ∈ (DomainRules.parse [⟨commentHosts, .hosts⟩]).block ∧
      ¬ ∃ line ∈ listLines commentHosts, Names line "www.example.com".toList) ∧
    ("www.example.com".toList ∈ (DomainRules.parse [⟨proseHosts, .hosts⟩]).block ∧
      ¬ ∃ line ∈ listLines proseHosts, Names line "www.example.com".toList) := by
  have comments : ∀ line ∈ listLines commentHosts, hasHostsShape line = false := by decide
  have prose : ∀ line ∈ listLines proseHosts, hasHostsShape line = false := by decide
  refine ⟨⟨by decide +kernel, ?_⟩, by decide +kernel, ?_⟩
  · rintro ⟨line, member, named⟩
    exact absurd ((comments line member).symm.trans (hasHostsShape_of_names named)) Bool.false_ne_true
  · rintro ⟨line, member, named⟩
    exact absurd ((prose line member).symm.trans (hasHostsShape_of_names named)) Bool.false_ne_true

end Tollgate
