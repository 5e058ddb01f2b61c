import Tollgate.Proofs.Filter.RuleSets
import Tollgate.ToMathlib.Retain

/-! # What each line contributes

A line gives rules and cancellations and may count as skipped, whatever was read before it. Which of its
rules are kept is up to the exemption of its list. The sets, the cancellations and the two counters after
reading any lists are unions and sums of what their lines contribute, and the order of the patterns is the
order in which the lines first give them.
-/

namespace Tollgate

deriving instance DecidableEq for Exemption

/-- A line with the format and the exemption of its list. -/
structure TaggedLine where
  format : ListFormat
  exempt : Option Exemption
  line : Text
deriving DecidableEq

/-- The name that a field of a hosts line is stored under. -/
def hostsName (field : Text) : Option Text :=
  if field.eqIgnoreAsciiCase "localhost.localdomain".toList then none else normalizeName field

/-- The fields of a hosts line that are read as names. -/
def hostsFields (line : Text) : List Text :=
  match Text.splitWhitespace (Text.trim (line.takeWhile (· != '#'))) with
  | [] => []
  | first :: fields => if IpAddr.isIpAddr first || first.contains ':' then fields else first :: fields

/-- Whether a hosts line has no field at all. -/
def hostsBlank (line : Text) : Bool := (Text.splitWhitespace (Text.trim (line.takeWhile (· != '#')))).isEmpty

/-- Whether an exemption leaves out a rule. -/
def exemptRule (exempt : Option Exemption) (rule : Kind × Text) : Bool :=
  exempt.any fun exempt => rule.1.coversExempt rule.2 exempt

namespace TaggedLine

/-- The rules that the line gives, exempt or not. -/
def rules (tagged : TaggedLine) : List (Kind × Text) :=
  match tagged.format with
  | .adblock =>
      match parseAdblockLine tagged.line with
      | .rule kind name false => [(kind, name)]
      | _ => []
  | .hosts => ((hostsFields tagged.line).filterMap hostsName).map (Kind.block, ·)

def cancels (tagged : TaggedLine) : List (Kind × Text) :=
  match tagged.format with
  | .adblock =>
      match parseAdblockLine tagged.line with
      | .rule kind name true => [(kind, name)]
      | _ => []
  | .hosts => []

/-- Whether the line counts as skipped when it is read. -/
def skipped (tagged : TaggedLine) : Bool :=
  match tagged.format with
  | .adblock => parseAdblockLine tagged.line = .skip
  | .hosts => !hostsBlank tagged.line && tagged.rules.isEmpty

/-- The rules that the exemption of the list leaves in. -/
def kept (tagged : TaggedLine) : List (Kind × Text) := tagged.rules.filter fun rule => !exemptRule tagged.exempt rule

def exempted (tagged : TaggedLine) : ℕ := tagged.rules.countP (exemptRule tagged.exempt)

end TaggedLine

/-- The lines of a list, tagged. -/
def DnsList.tagged (list : DnsList) : List TaggedLine :=
  (Text.lines ((list.source.text.stripPrefix ['\uFEFF']).getD list.source.text)).map
    (TaggedLine.mk list.source.format list.exempt)

namespace Builder

/-- Adds one rule, as both parsers do. -/
def addRule (builder : Builder) (rule : Kind × Text) : Builder :=
  match builder.exempts rule.1 rule.2 with
  | (true, builder) => builder
  | (false, builder) =>
      let added := builder.updateSet rule.1 (insert rule.2)
      if rule.1.isPattern && rule.2 ∉ builder.sets rule.1 then
        { added with patternOrder := added.patternOrder ++ [rule] }
      else added

/-- Reads a line as what it contributes. -/
def tell (builder : Builder) (tagged : TaggedLine) : Builder :=
  let told := tagged.rules.foldl addRule builder
  { told with
    badfilter := told.badfilter ∪ tagged.cancels.toFinset
    skipped := told.skipped + tagged.skipped.toNat }

theorem addAdblockLine_eq (builder : Builder) (line : Text) :
    builder.addAdblockLine line = builder.tell ⟨.adblock, builder.exempt, line⟩ := by
  unfold addAdblockLine tell
  simp only [TaggedLine.rules, TaggedLine.cancels, TaggedLine.skipped]
  cases parseAdblockLine line with
  | comment => simp
  | skip => simp
  | rule kind name badfilter =>
    cases badfilter with
    | true =>
      simp only [List.foldl_nil, List.toFinset_cons, List.toFinset_nil, reduceCtorEq, decide_false, Bool.toNat_false,
        Nat.add_zero, insert_empty_eq]
      rw [Finset.insert_eq, Finset.union_comm]
    | false =>
      simp only [List.foldl_cons, List.foldl_nil, List.toFinset_nil, Finset.union_empty, reduceCtorEq, decide_false,
        Bool.toNat_false, Nat.add_zero]
      rfl

theorem addHostsName_eq (state : Builder × ℕ) (field : Text) :
    addHostsName state field =
      (hostsName field).elim state fun name => (state.1.addRule (.block, name), state.2 + 1) := by
  unfold addHostsName hostsName
  split
  · rfl
  · cases normalizeName field with
    | none => rfl
    | some name =>
      simp only [addRule, Option.elim_some]
      rcases state.1.exempts .block name with ⟨_ | _, after⟩ <;> rfl

theorem foldl_addHostsName_eq (fields : List Text) (builder : Builder) (accepted : ℕ) :
    fields.foldl addHostsName (builder, accepted) =
      (((fields.filterMap hostsName).map (Kind.block, ·)).foldl addRule builder,
        accepted + (fields.filterMap hostsName).length) := by
  induction fields generalizing builder accepted with
  | nil => rfl
  | cons field rest ih =>
    rw [List.foldl_cons, addHostsName_eq]
    cases stored : hostsName field with
    | none =>
      rw [List.filterMap_cons_none stored]
      exact ih ..
    | some name =>
      rw [List.filterMap_cons_some stored, List.map_cons, List.foldl_cons, List.length_cons, ← Nat.add_assoc,
        Nat.add_right_comm]
      exact ih ..

theorem addHostsLine_eq (builder : Builder) (line : Text) :
    builder.addHostsLine line = builder.tell ⟨.hosts, builder.exempt, line⟩ := by
  unfold addHostsLine tell
  simp only [TaggedLine.rules, TaggedLine.cancels, TaggedLine.skipped, hostsFields, hostsBlank]
  cases Text.splitWhitespace (Text.trim (line.takeWhile (· != '#'))) with
  | nil => simp
  | cons first fields =>
    simp only [addHostsNames, foldl_addHostsName_eq, List.isEmpty_cons, Bool.not_false, Bool.true_and,
      List.toFinset_nil, Finset.union_empty, Nat.zero_add, List.length_eq_zero_iff, List.isEmpty_map]
    generalize List.filterMap hostsName _ = names
    cases names <;> simp

/-- A builder that holds these rules and cancellations, with these counts. -/
structure Gathered (builder : Builder) (rules cancels : List (Kind × Text)) (skipped exempted : ℕ) : Prop where
  sets : ∀ kind name, name ∈ builder.sets kind ↔ (kind, name) ∈ rules
  order : builder.patternOrder = (rules.filter fun rule => rule.1.isPattern).eraseDups
  badfilter : ∀ rule, rule ∈ builder.badfilter ↔ rule ∈ cancels
  skipped : builder.skipped = skipped
  exempted : builder.exempted = exempted

variable {builder : Builder} {rules cancels : List (Kind × Text)} {skipped exempted : ℕ}

private theorem Gathered.insert (gathered : Gathered builder rules cancels skipped exempted) (rule : Kind × Text)
    {after : Builder} (sets : after.sets = (builder.updateSet rule.1 (Insert.insert rule.2)).sets)
    (order : after.patternOrder = if rule.1.isPattern = true ∧ rule.2 ∉ builder.sets rule.1 then
      builder.patternOrder ++ [rule] else builder.patternOrder)
    (badfilter : after.badfilter = builder.badfilter) (skips : after.skipped = builder.skipped)
    (exempts : after.exempted = builder.exempted) : Gathered after (rules ++ [rule]) cancels skipped exempted where
  sets kind name := by
    rw [sets, mem_updateSet_insert, gathered.sets, List.mem_append, List.mem_singleton]
    exact or_congr_right Prod.mk_inj.symm
  order := by
    rw [order, gathered.order, List.filter_append, List.filter_singleton]
    simp only [gathered.sets]
    cases pattern : rule.1.isPattern with
    | false => simp
    | true =>
      have member : rule ∈ rules.filter (fun rule => rule.1.isPattern) ↔ rule ∈ rules := by
        rw [List.mem_filter, and_iff_left pattern]
      simp only [cond_true, true_and, List.eraseDups_concat, member, ite_not]
  badfilter := badfilter ▸ gathered.badfilter
  skipped := skips.trans gathered.skipped
  exempted := exempts.trans gathered.exempted

theorem Gathered.addRule (gathered : Gathered builder rules cancels skipped exempted) (rule : Kind × Text) :
    Gathered (builder.addRule rule) (rules ++ [rule].filter fun rule => !exemptRule builder.exempt rule) cancels skipped
      (exempted + [rule].countP (exemptRule builder.exempt)) := by
  have counted : builder.exempts rule.1 rule.2 = (exemptRule builder.exempt rule,
    { builder with exempted := builder.exempted + (exemptRule builder.exempt rule).toNat }) := rfl
  rw [Builder.addRule, counted, List.filter_singleton, List.countP_singleton]
  cases exemptRule builder.exempt rule with
  | true =>
    simp only [Bool.not_true, cond_false, if_true, List.append_nil]
    exact ⟨gathered.sets, gathered.order, gathered.badfilter, gathered.skipped, congrArg (· + 1) gathered.exempted⟩
  | false =>
    simp only [Bool.not_false, cond_true, Bool.false_eq_true, if_false, Nat.add_zero, Bool.and_eq_true,
      decide_eq_true_eq]
    split
    · next new =>
      refine gathered.insert rule rfl ?_ rfl rfl rfl
      rw [if_pos new]
      rfl
    · next old =>
      refine gathered.insert rule rfl ?_ rfl rfl rfl
      rw [if_neg old]
      rfl

theorem addRule_exempt (builder : Builder) (rule : Kind × Text) : (builder.addRule rule).exempt = builder.exempt := by
  have counted : builder.exempts rule.1 rule.2 = (exemptRule builder.exempt rule,
    { builder with exempted := builder.exempted + (exemptRule builder.exempt rule).toNat }) := rfl
  rw [addRule, counted]
  cases exemptRule builder.exempt rule with
  | true => rfl
  | false =>
    dsimp only
    split <;> rfl

theorem Gathered.addRules (gathered : Gathered builder rules cancels skipped exempted) (more : List (Kind × Text)) :
    (more.foldl Builder.addRule builder).exempt = builder.exempt ∧
      Gathered (more.foldl Builder.addRule builder) (rules ++ more.filter fun rule => !exemptRule builder.exempt rule)
        cancels skipped (exempted + more.countP (exemptRule builder.exempt)) := by
  induction more generalizing builder rules exempted with
  | nil => exact ⟨rfl, by rwa [List.filter_nil, List.append_nil]⟩
  | cons rule rest ih =>
    obtain ⟨same, next⟩ := ih (gathered.addRule rule)
    rw [addRule_exempt] at same next
    refine ⟨same, ?_⟩
    rw [List.append_assoc, ← List.filter_append, Nat.add_assoc, ← List.countP_append] at next
    exact next

/-- One line adds what it contributes. -/
theorem Gathered.tell (gathered : Gathered builder rules cancels skipped exempted) {tagged : TaggedLine}
    (same : builder.exempt = tagged.exempt) :
    (builder.tell tagged).exempt = builder.exempt ∧
      Gathered (builder.tell tagged) (rules ++ tagged.kept) (cancels ++ tagged.cancels)
        (skipped + tagged.skipped.toNat) (exempted + tagged.exempted) := by
  obtain ⟨exempt, added⟩ := gathered.addRules tagged.rules
  refine ⟨exempt, ?_⟩
  rw [same] at added
  refine ⟨added.sets, added.order, ?_, ?_, added.exempted⟩
  · intro rule
    rw [Builder.tell, Finset.mem_union, added.badfilter, List.mem_toFinset, List.mem_append]
  · rw [Builder.tell, added.skipped]

/-- A builder that holds what these lines contribute. -/
def Collected (builder : Builder) (lines : List TaggedLine) : Prop :=
  Gathered builder (lines.flatMap TaggedLine.kept) (lines.flatMap TaggedLine.cancels)
    (lines.map fun tagged => tagged.skipped.toNat).sum (lines.map TaggedLine.exempted).sum

theorem Collected.concat {lines : List TaggedLine} (collected : Collected builder lines) {tagged : TaggedLine}
    (same : builder.exempt = tagged.exempt) :
    (builder.tell tagged).exempt = builder.exempt ∧ Collected (builder.tell tagged) (lines ++ [tagged]) := by
  obtain ⟨exempt, told⟩ := Gathered.tell collected same
  refine ⟨exempt, ?_⟩
  unfold Collected
  simpa only [List.flatMap_append, List.flatMap_singleton, List.map_append, List.map_singleton, List.sum_append,
    List.sum_singleton] using told

private theorem Collected.foldl {lines : List TaggedLine} {add : Builder → Text → Builder} {format : ListFormat}
    (reads : ∀ builder line, add builder line = builder.tell ⟨format, builder.exempt, line⟩)
    (texts : List Text) (collected : Collected builder lines) :
    Collected (texts.foldl add builder) (lines ++ texts.map (TaggedLine.mk format builder.exempt)) := by
  induction texts generalizing builder lines with
  | nil => rwa [List.map_nil, List.append_nil]
  | cons text rest ih =>
    rw [List.foldl_cons, reads, List.map_cons]
    obtain ⟨exempt, next⟩ := @Collected.concat _ _ collected ⟨format, builder.exempt, text⟩ rfl
    have later := ih next
    rwa [exempt, List.append_assoc, List.singleton_append] at later

theorem Collected.addList {lines : List TaggedLine} (collected : Collected builder lines) (list : DnsList) :
    Collected (builder.addList list) (lines ++ list.tagged) := by
  have start : Collected { builder with exempt := list.exempt } lines :=
    ⟨collected.sets, collected.order, collected.badfilter, collected.skipped, collected.exempted⟩
  unfold Builder.addList DnsList.tagged
  cases list.source.format with
  | adblock => exact start.foldl addAdblockLine_eq _
  | hosts => exact start.foldl addHostsLine_eq _

/-- Reading lists collects what their lines contribute. -/
theorem collected_collect (lists : List DnsList) :
    Collected (DomainRules.collect lists) (lists.flatMap DnsList.tagged) := by
  have all : ∀ (rest : List DnsList) (builder : Builder) (lines : List TaggedLine), Collected builder lines →
      Collected (rest.foldl Builder.addList builder) (lines ++ rest.flatMap DnsList.tagged) := by
    intro rest
    induction rest with
    | nil =>
      intro builder lines collected
      rwa [List.flatMap_nil, List.append_nil]
    | cons list rest ih =>
      intro builder lines collected
      rw [List.foldl_cons, List.flatMap_cons, ← List.append_assoc]
      exact ih _ _ (collected.addList list)
  have start : Collected .empty [] := ⟨by simp [Builder.empty], rfl, by simp [Builder.empty], rfl, rfl⟩
  exact all lists _ [] start

end Builder

end Tollgate
