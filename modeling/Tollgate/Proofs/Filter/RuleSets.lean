import Tollgate.Proofs.Filter.StoredNames
import Mathlib.Data.Fintype.Basic

/-! # What the lists leave in the rule sets

Every line adds at most rules of the stored form that its list does not exempt, and each pattern
enters the order the first time it is added. Settling only removes rules, and it keeps at most
`maxWildcardPatterns` patterns over all kinds.
-/

namespace Tollgate

/-- What a rule of a kind looks like in its set. -/
def StoredRule (kind : Kind) (rule : Text) : Prop :=
  if kind.isPattern then isValidPattern rule = true else StoredName rule

theorem StoredRule.storedName {kind : Kind} {rule : Text} (stored : StoredRule kind rule) : StoredName rule := by
  rw [StoredRule] at stored
  split at stored
  · exact isValidPattern_stored stored
  · exact stored

/-- A rule that a list with this exemption may add. -/
def Admitted (exempt : Option Exemption) (kind : Kind) (rule : Text) : Prop :=
  StoredRule kind rule ∧ ∀ exemption ∈ exempt, kind.coversExempt rule exemption = false

theorem nameKind_isPattern {exception important exact : Bool} {kind : Kind}
    (kept : nameKind exception important exact = some kind) : kind.isPattern = false := by
  revert kept
  cases exception <;> cases important <;> cases exact <;> rintro ⟨⟩ <;> rfl

theorem wildcardKind_isPattern {exception important parents : Bool} {kind : Kind}
    (kept : wildcardKind exception important parents = some kind) : kind.isPattern = true := by
  revert kept
  cases exception <;> cases important <;> cases parents <;> rintro ⟨⟩ <;> rfl

private theorem storedRule_of_name {exception important exact : Bool} {kind : Kind} {raw name : Text}
    (normal : normalizeName raw = some name) (kept : nameKind exception important exact = some kind) :
    StoredRule kind name := by
  rw [StoredRule, nameKind_isPattern kept, if_neg Bool.false_ne_true]
  exact normalizeName_stored normal

theorem wildcardPattern_valid {pattern glob : Text} {parents : Bool}
    (kept : wildcardPattern pattern = some (parents, glob)) : isValidPattern glob = true := by
  unfold wildcardPattern at kept
  split at kept
  dsimp only at kept
  split at kept
  · next valid =>
    obtain ⟨_, rfl⟩ := Prod.mk.inj (Option.some.inj kept)
    exact valid
  · contradiction

theorem parseRule_stored {exception important : Bool} {pattern rule : Text} {kind : Kind}
    (parsed : parseRule exception pattern important = some (kind, rule)) : StoredRule kind rule := by
  rw [parseRule] at parsed
  split at parsed
  · simp only [Option.bind_eq_bind, Option.bind_eq_some_iff, Option.some.injEq, Prod.mk.injEq] at parsed
    obtain ⟨name, normal, other, kept, rfl, rfl⟩ := parsed
    exact storedRule_of_name normal kept
  · split at parsed
    · simp only [Option.bind_eq_bind, Option.bind_eq_some_iff, Option.some.injEq, Prod.mk.injEq, Prod.exists] at parsed
      obtain ⟨parents, glob, wildcard, other, kept, rfl, rfl⟩ := parsed
      rw [StoredRule, wildcardKind_isPattern kept, if_pos rfl]
      exact wildcardPattern_valid wildcard
    · simp only [Option.bind_eq_bind, Option.bind_eq_some_iff, Option.some.injEq, Prod.mk.injEq, Prod.exists] at parsed
      obtain ⟨exact, raw, _, name, normal, other, kept, rfl, rfl⟩ := parsed
      exact storedRule_of_name normal kept

theorem parseAdblockLine_stored {line rule : Text} {kind : Kind} {badfilter : Bool}
    (parsed : parseAdblockLine line = .rule kind rule badfilter) : StoredRule kind rule := by
  unfold parseAdblockLine at parsed
  dsimp only at parsed
  split at parsed
  · contradiction
  split at parsed
  · contradiction
  split at parsed
  · contradiction
  · next rule =>
    obtain ⟨rfl, rfl, rfl⟩ := Line.rule.inj parsed
    exact parseRule_stored rule

namespace Builder

/-- Every pattern in a set has its place in the order. -/
def Ordered (builder : Builder) : Prop :=
  ∀ kind : Kind, kind.isPattern = true → ∀ rule ∈ builder.sets kind, (kind, rule) ∈ builder.patternOrder

/-- What reading part of a list does to a builder. -/
structure Grows (before after : Builder) : Prop where
  exempt : after.exempt = before.exempt
  rules : ∀ kind, ∀ rule ∈ after.sets kind, rule ∈ before.sets kind ∨ Admitted before.exempt kind rule
  order : before.Ordered → after.Ordered

theorem Grows.refl (builder : Builder) : Grows builder builder := ⟨rfl, fun _ _ member => .inl member, id⟩

theorem Grows.trans {first second third : Builder} (lower : Grows first second) (upper : Grows second third) :
    Grows first third where
  exempt := upper.exempt.trans lower.exempt
  rules kind rule member := by
    rcases upper.rules kind rule member with earlier | admitted
    · exact lower.rules kind rule earlier
    · exact .inr (lower.exempt ▸ admitted)
  order ordered := upper.order (lower.order ordered)

theorem Grows.foldl {α : Type*} {step : Builder → α → Builder} (each : ∀ builder x, Grows builder (step builder x))
    (xs : List α) (builder : Builder) : Grows builder (xs.foldl step builder) := by
  induction xs generalizing builder with
  | nil => exact .refl builder
  | cons x xs ih => exact (each builder x).trans (ih _)

/-- Counters do not matter. -/
private theorem Grows.of_same {before after : Builder} (exempt : after.exempt = before.exempt)
    (sets : after.sets = before.sets) (order : after.patternOrder = before.patternOrder) : Grows before after where
  exempt := exempt
  rules _ _ member := .inl (sets ▸ member)
  order ordered kind pattern rule member := order ▸ ordered kind pattern rule (sets ▸ member)

theorem mem_updateSet_insert (builder : Builder) {kind other : Kind} {name rule : Text} :
    rule ∈ (builder.updateSet kind (insert name)).sets other ↔
      rule ∈ builder.sets other ∨ other = kind ∧ rule = name := by
  rw [updateSet]
  by_cases same : other = kind
  · subst same
    simp [or_comm]
  · simp [same]

theorem exempts_fst {builder : Builder} {kind : Kind} {name : Text} (kept : (builder.exempts kind name).1 = false) :
    ∀ exemption ∈ builder.exempt, kind.coversExempt name exemption = false := by
  intro exemption present
  rw [exempts, Option.mem_def.mp present] at kept
  simpa using kept

/-- Adding a rule that is not exempt, with its place in the order if it is a new pattern. -/
private theorem insert_grows {builder : Builder} {kind : Kind} {name : Text} (stored : StoredRule kind name)
    (kept : (builder.exempts kind name).1 = false) (place : List (Kind × Text))
    (placed : kind.isPattern = true → name ∉ builder.sets kind → (kind, name) ∈ place) :
    Grows builder { (builder.exempts kind name).2.updateSet kind (insert name) with
      patternOrder := builder.patternOrder ++ place } where
  exempt := rfl
  rules other rule member := by
    rcases (mem_updateSet_insert (builder.exempts kind name).2).mp member with earlier | ⟨rfl, rfl⟩
    · exact .inl earlier
    · exact .inr ⟨stored, exempts_fst kept⟩
  order ordered other pattern rule member := by
    rcases (mem_updateSet_insert (builder.exempts kind name).2).mp member with earlier | ⟨rfl, rfl⟩
    · exact List.mem_append_left _ (ordered other pattern rule earlier)
    · by_cases present : rule ∈ builder.sets other
      · exact List.mem_append_left _ (ordered other pattern rule present)
      · exact List.mem_append_right _ (placed pattern present)

theorem addAdblockLine_grows (builder : Builder) (line : Text) : Grows builder (builder.addAdblockLine line) := by
  rw [addAdblockLine]
  split
  · exact .refl builder
  · exact .of_same rfl rfl rfl
  · exact .of_same rfl rfl rfl
  · next kind name parsed =>
    have stored := parseAdblockLine_stored parsed
    split
    · next counted same =>
      have after : counted = (builder.exempts kind name).2 := by rw [same]
      rw [after]
      exact .of_same rfl rfl rfl
    · next counted same =>
      have after : counted = (builder.exempts kind name).2 := by rw [same]
      have kept : (builder.exempts kind name).1 = false := by rw [same]
      subst after
      dsimp only
      split
      · exact insert_grows stored kept [(kind, name)] (fun _ _ => List.mem_singleton_self _)
      · next old =>
        have grown := insert_grows stored kept [] (fun pattern new => absurd (by simp [pattern]; exact new) old)
        rw [List.append_nil] at grown
        exact grown

private theorem addHostsName_grows (state : Builder × ℕ) (name : Text) :
    Grows state.1 (addHostsName state name).1 := by
  rw [addHostsName]
  split
  · exact .refl _
  split
  · exact .refl _
  next normal accepted =>
  have stored : StoredRule .block normal := normalizeName_stored accepted
  split
  · next counted same =>
    have after : counted = (state.1.exempts .block normal).2 := by rw [same]
    rw [after]
    exact .of_same rfl rfl rfl
  · next counted same =>
    have after : counted = (state.1.exempts .block normal).2 := by rw [same]
    have kept : (state.1.exempts .block normal).1 = false := by rw [same]
    subst after
    have grown := insert_grows stored kept [] (fun pattern => absurd pattern Bool.false_ne_true)
    rw [List.append_nil] at grown
    exact grown

private theorem foldl_addHostsName_grows (names : List Text) (state : Builder × ℕ) :
    Grows state.1 (names.foldl addHostsName state).1 := by
  induction names generalizing state with
  | nil => exact .refl _
  | cons name rest ih => exact (addHostsName_grows state name).trans (ih _)

private theorem addHostsNames_grows (builder : Builder) (names : List Text) :
    Grows builder (builder.addHostsNames names) := by
  have grown := foldl_addHostsName_grows names (builder, 0)
  unfold addHostsNames
  dsimp only
  split
  · exact grown.trans (.of_same rfl rfl rfl)
  · exact grown

theorem addHostsLine_grows (builder : Builder) (line : Text) : Grows builder (builder.addHostsLine line) := by
  unfold addHostsLine
  dsimp only
  split
  · exact .refl _
  · exact addHostsNames_grows ..

/-- Reading a list adds only what the list admits. -/
theorem addList_rules (builder : Builder) (list : DnsList) :
    (∀ kind, ∀ rule ∈ (builder.addList list).sets kind, rule ∈ builder.sets kind ∨ Admitted list.exempt kind rule) ∧
      (builder.Ordered → (builder.addList list).Ordered) := by
  have grown : Grows { builder with exempt := list.exempt } (builder.addList list) := by
    rw [addList]
    cases list.source.format with
    | adblock => exact .foldl addAdblockLine_grows _ _
    | hosts => exact .foldl addHostsLine_grows _ _
  exact ⟨grown.rules, grown.order⟩

/-- Every rule that reading the lists leaves was admitted by one of them, and patterns are in order. -/
theorem collect_rules (lists : List DnsList) :
    (∀ kind, ∀ rule ∈ (DomainRules.collect lists).sets kind, ∃ list ∈ lists, Admitted list.exempt kind rule) ∧
      (DomainRules.collect lists).Ordered := by
  induction lists using List.reverseRecOn with
  | nil => exact ⟨fun _ _ member => by simp [DomainRules.collect, empty] at member,
      fun _ _ _ member => by simp [DomainRules.collect, empty] at member⟩
  | append_singleton lists list ih =>
    have step : DomainRules.collect (lists ++ [list]) = (DomainRules.collect lists).addList list := by
      simp [DomainRules.collect]
    obtain ⟨rules, order⟩ := addList_rules (DomainRules.collect lists) list
    rw [step]
    refine ⟨?_, order ih.2⟩
    intro kind rule member
    rcases rules kind rule member with earlier | admitted
    · obtain ⟨source, inside, admitted⟩ := ih.1 kind rule earlier
      exact ⟨source, List.mem_append_left _ inside, admitted⟩
    · exact ⟨list, by simp, admitted⟩

/-- A pass of the limits removes patterns only and keeps the count of those it has seen. -/
structure Limited (start : Builder) (seen : List (Kind × Text)) (state : Builder × Limits) : Prop where
  sets : ∀ kind, state.1.sets kind ⊆ start.sets kind
  room : state.2.kept ≤ maxWildcardPatterns
  kept : ∃ keep : Finset (Kind × Text), keep.card ≤ state.2.kept ∧
    ∀ entry ∈ seen, entry.2 ∈ state.1.sets entry.1 → entry ∈ keep

theorem mem_updateSet_erase (builder : Builder) {kind other : Kind} {name rule : Text} :
    rule ∈ (builder.updateSet kind (·.erase name)).sets other ↔
      rule ∈ builder.sets other ∧ ¬ (other = kind ∧ rule = name) := by
  rw [updateSet]
  by_cases same : other = kind
  · subst same
    simp [and_comm]
  · simp [same]

private theorem limitPattern_limited {start : Builder} {seen : List (Kind × Text)} {state : Builder × Limits}
    (limited : Limited start seen state) (entry : Kind × Text) :
    Limited start (seen ++ [entry]) (limitPattern state entry) := by
  obtain ⟨keep, size, covers⟩ := limited.kept
  obtain ⟨builder, limits⟩ := state
  obtain ⟨kind, pattern⟩ := entry
  rw [limitPattern]
  dsimp only
  split
  · next absent =>
    refine ⟨limited.sets, limited.room, keep, size, ?_⟩
    intro other member present
    rcases List.mem_append.mp member with earlier | last
    · exact covers other earlier present
    · obtain rfl := List.mem_singleton.mp last
      exact absurd present absent
  split
  · next room =>
    simp only [Bool.and_eq_true, decide_eq_true_eq] at room
    refine ⟨limited.sets, room.1, insert (kind, pattern) keep, ?_, ?_⟩
    · exact (Finset.card_insert_le _ _).trans (Nat.succ_le_succ size)
    · intro other member present
      rcases List.mem_append.mp member with earlier | last
      · exact Finset.mem_insert_of_mem (covers other earlier present)
      · exact Finset.mem_insert.mpr (.inl (List.mem_singleton.mp last))
  · refine ⟨?_, limited.room, keep, size, ?_⟩
    · intro other rule member
      exact limited.sets other ((mem_updateSet_erase builder).mp member).1
    · intro other member present
      obtain ⟨inside, different⟩ := (mem_updateSet_erase builder).mp present
      rcases List.mem_append.mp member with earlier | last
      · exact covers other earlier inside
      · obtain rfl := List.mem_singleton.mp last
        exact absurd ⟨rfl, rfl⟩ different

private theorem foldl_limitPattern {start : Builder} (entries seen : List (Kind × Text)) {state : Builder × Limits}
    (limited : Limited start seen state) : Limited start (seen ++ entries) (entries.foldl limitPattern state) := by
  induction entries generalizing seen state with
  | nil => rwa [List.append_nil]
  | cons entry rest ih =>
    have next := ih (seen ++ [entry]) (limitPattern_limited limited entry)
    rwa [List.append_assoc, List.singleton_append] at next

/-- The patterns that are left have places in a small set. -/
theorem limitPatterns_rules {builder : Builder} (ordered : builder.Ordered) :
    (∀ kind, builder.limitPatterns.sets kind ⊆ builder.sets kind) ∧
      ∃ keep : Finset (Kind × Text), keep.card ≤ maxWildcardPatterns ∧
        ∀ kind : Kind, kind.isPattern = true → ∀ rule ∈ builder.limitPatterns.sets kind, (kind, rule) ∈ keep := by
  have start : Limited builder [] ({ builder with patternOrder := [] }, ⟨0, 0, 0⟩) :=
    ⟨fun _ _ member => member, Nat.zero_le _, ∅, by simp, by simp⟩
  have limited := foldl_limitPattern ((builder.patternOrder.filter fun entry => entry.1.isException) ++
    builder.patternOrder.filter fun entry => !entry.1.isException) [] start
  obtain ⟨keep, size, covers⟩ := limited.kept
  refine ⟨limited.sets, keep, size.trans limited.room, ?_⟩
  intro kind pattern rule member
  refine covers (kind, rule) ?_ member
  have place := ordered kind pattern rule (limited.sets kind member)
  simp only [List.nil_append, List.mem_append, List.mem_filter, place, true_and]
  cases kind.isException <;> simp

/-- Settling removes rules and keeps few patterns. -/
theorem settle_rules {builder : Builder} (ordered : builder.Ordered) :
    (∀ kind, builder.settle.sets kind ⊆ builder.sets kind) ∧
      ∃ keep : Finset (Kind × Text), keep.card ≤ maxWildcardPatterns ∧
        ∀ kind : Kind, kind.isPattern = true → ∀ rule ∈ builder.settle.sets kind, (kind, rule) ∈ keep := by
  have cancelled : ∀ kind, builder.cancel.sets kind ⊆ builder.sets kind := fun kind => Finset.filter_subset _ _
  have stillOrdered : builder.cancel.Ordered :=
    fun kind pattern rule member => ordered kind pattern rule (cancelled kind member)
  obtain ⟨sets, keep⟩ := limitPatterns_rules stillOrdered
  exact ⟨fun kind => (sets kind).trans (cancelled kind), keep⟩

theorem settle_card {builder : Builder} (ordered : builder.Ordered) {first second : Kind} (different : first ≠ second)
    (firstPattern : first.isPattern = true) (secondPattern : second.isPattern = true) :
    (builder.settle.sets first).card + (builder.settle.sets second).card ≤ maxWildcardPatterns := by
  obtain ⟨_, keep, size, covers⟩ := settle_rules ordered
  have tagged : ∀ kind : Kind, Function.Injective (fun rule : Text => (kind, rule)) :=
    fun kind _ _ same => (Prod.mk.inj same).2
  have apart : Disjoint ((builder.settle.sets first).map ⟨_, tagged first⟩)
      ((builder.settle.sets second).map ⟨_, tagged second⟩) := by
    rw [Finset.disjoint_left]
    intro entry inFirst inSecond
    obtain ⟨_, _, rfl⟩ := Finset.mem_map.mp inFirst
    obtain ⟨_, _, same⟩ := Finset.mem_map.mp inSecond
    exact different (Prod.mk.inj same).1.symm
  have inside : (builder.settle.sets first).map ⟨_, tagged first⟩ ∪
      (builder.settle.sets second).map ⟨_, tagged second⟩ ⊆ keep := by
    intro entry member
    rcases Finset.mem_union.mp member with inFirst | inSecond
    · obtain ⟨rule, present, rfl⟩ := Finset.mem_map.mp inFirst
      exact covers first firstPattern rule present
    · obtain ⟨rule, present, rfl⟩ := Finset.mem_map.mp inSecond
      exact covers second secondPattern rule present
  have count := Finset.card_le_card inside
  rw [Finset.card_union_of_disjoint apart, Finset.card_map, Finset.card_map] at count
  exact count.trans size

end Builder

end Tollgate
