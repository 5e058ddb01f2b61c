import Tollgate.Proofs.Filter.PatternLookup
import Tollgate.Proofs.Filter.RuleSets

/-! # Reading a wildcard rule

The text of a rule is an anchor, a body and an end marker. The stored pattern is the body in lowercase
with runs of stars made one star, a star before it if there is no anchor and one after it if there is no
end marker. Making a run one star keeps the texts that a pattern matches, so what the pattern matches can
be read off the body.
-/

namespace Tollgate

open Glob

/-- Where a rule may start to match. -/
inductive Anchor
  | subtree
  | start
  | free
deriving DecidableEq, Repr

/-- Splits off the anchor. -/
def splitAnchor (pattern : Text) : Anchor × Text :=
  match pattern.stripPrefix ['|', '|'] with
  | some rest => (.subtree, rest)
  | none =>
      match (pattern.stripPrefix [':', '/', '/']).orElse fun _ => pattern.stripPrefix ['|'] with
      | some rest => (.start, rest)
      | none => (.free, pattern)

/-- Splits off the end marker. -/
def splitMarker (rest : Text) : Bool × Text :=
  match stripCaret rest with
  | some body => (true, body)
  | none => (false, rest)

/-- A rule: where it may start to match, whether it must match up to the end, and its body. -/
structure RuleParts where
  anchor : Anchor
  ended : Bool
  body : Text
deriving DecidableEq, Repr

def ruleParts (pattern : Text) : RuleParts :=
  ⟨(splitAnchor pattern).1, (splitMarker (splitAnchor pattern).2).1, (splitMarker (splitAnchor pattern).2).2⟩

/-- Lowercase, with each star after a star left out; the flag says whether a star came before. -/
def squeezeAfter : Bool → Text → Text
  | _, [] => []
  | star, c :: rest =>
      if c = '*' then if star then squeezeAfter true rest else '*' :: squeezeAfter true rest
      else c.toLower :: squeezeAfter false rest

/-- Lowercase, with each run of stars made one star. -/
def squeeze (text : Text) : Text := squeezeAfter false text

/-- A character that is no letter and no star. -/
structure Mark (c : Char) : Prop where
  noLetter : ¬ (97 ≤ c.toNat ∧ c.toNat ≤ 122)
  noCapital : ¬ (65 ≤ c.toNat ∧ c.toNat ≤ 90)
  noStar : c ≠ '*'

instance (c : Char) : Decidable (Mark c) :=
  decidable_of_iff (¬ (97 ≤ c.toNat ∧ c.toNat ≤ 122) ∧ ¬ (65 ≤ c.toNat ∧ c.toNat ≤ 90) ∧ c ≠ '*')
    ⟨fun ⟨letter, capital, star⟩ => ⟨letter, capital, star⟩, fun mark => ⟨mark.noLetter, mark.noCapital, mark.noStar⟩⟩

/-- Only a letter has another case. -/
theorem eq_of_toLower_eq {c d : Char} (noLetter : ¬ (97 ≤ c.toNat ∧ c.toNat ≤ 122)) (same : d.toLower = c) : d = c := by
  have code := congrArg Char.toNat same
  rw [Text.toNat_toLower] at code
  apply Char.toNat_inj.mp
  split at code <;> omega

theorem toLower_eq_star_iff (c : Char) : c.toLower = '*' ↔ c = '*' := by
  constructor
  · exact eq_of_toLower_eq (by decide)
  · rintro rfl
    rfl

theorem Mark.toLower {c : Char} (mark : Mark c) : c.toLower = c := by
  apply Char.toNat_inj.mp
  rw [Text.toNat_toLower, if_neg mark.noCapital]

theorem toLower_toLower (c : Char) : c.toLower.toLower = c.toLower := by
  apply Char.toNat_inj.mp
  rw [Text.toNat_toLower, Text.toNat_toLower]
  split
  · rw [if_neg (by omega)]
  · rfl

theorem foldl_mergeStars (glob merged : Text) :
    glob.foldl (fun merged c =>
      if c ≠ '*' ∨ merged.getLast? ≠ some '*' then merged ++ [c.toLower] else merged) merged =
      merged ++ squeezeAfter (merged.getLast? == some '*') glob := by
  induction glob generalizing merged with
  | nil => rw [squeezeAfter, List.append_nil, List.foldl_nil]
  | cons c rest ih =>
    rw [List.foldl_cons, ih, squeezeAfter]
    by_cases star : c = '*'
    · subst star
      by_cases after : merged.getLast? = some '*'
      · simp [after]
      · simp [after]
    · have lower : (c.toLower == '*') = false := beq_false_of_ne fun same => star ((toLower_eq_star_iff c).mp same)
      simp [star, lower]

theorem mergeStars_eq (glob : Text) : mergeStars glob = squeeze glob := foldl_mergeStars glob []

/-- What is stored for a rule, before runs of stars are made one star. -/
def RuleParts.glob (parts : RuleParts) : Text :=
  (if parts.anchor = .free then ['*'] else []) ++ if parts.ended then parts.body.stripDot else parts.body ++ ['*']

theorem wildcardPattern_eq (pattern : Text) : wildcardPattern pattern =
    if isValidPattern (squeeze (ruleParts pattern).glob) = true then
      some (decide ((ruleParts pattern).anchor = .subtree), squeeze (ruleParts pattern).glob)
    else none := by
  have marker : ∀ rest : Text, (stripCaret rest).elim (rest ++ ['*']) Text.stripDot =
      if (splitMarker rest).1 then (splitMarker rest).2.stripDot else (splitMarker rest).2 ++ ['*'] := by
    intro rest
    unfold splitMarker
    cases stripCaret rest <;> rfl
  unfold wildcardPattern RuleParts.glob ruleParts splitAnchor
  simp only [marker, mergeStars_eq]
  cases pattern.stripPrefix ['|', '|'] with
  | some rest => rfl
  | none =>
    cases (pattern.stripPrefix [':', '/', '/']).orElse fun _ => pattern.stripPrefix ['|'] with
    | some rest => rfl
    | none => rfl

/-- The bytes of a text in lowercase. -/
def lowerBytes (text : Text) : Bytes := text.toAsciiLowercase.asBytes

theorem lowerBytes_cons (c : Char) (rest : Text) :
    lowerBytes (c :: rest) = String.utf8EncodeChar c.toLower ++ lowerBytes rest := rfl

theorem lowerBytes_star (rest : Text) : lowerBytes ('*' :: rest) = starByte :: lowerBytes rest := rfl

theorem lowerBytes_append (first second : Text) : lowerBytes (first ++ second) = lowerBytes first ++ lowerBytes second := by
  rw [lowerBytes, Text.toAsciiLowercase, List.map_append, Text.asBytes_append]
  rfl

private theorem squeezeAfter_matches (text : Text) :
    (∀ name, Matches starByte (squeezeAfter false text).asBytes name ↔ Matches starByte (lowerBytes text) name) ∧
      ∀ name, Matches starByte (starByte :: (squeezeAfter true text).asBytes) name ↔
        Matches starByte (starByte :: lowerBytes text) name := by
  induction text with
  | nil => exact ⟨fun _ => Iff.rfl, fun _ => Iff.rfl⟩
  | cons c rest ih =>
    by_cases star : c = '*'
    · subst star
      have one : squeezeAfter false ('*' :: rest) = '*' :: squeezeAfter true rest := rfl
      have none : squeezeAfter true ('*' :: rest) = squeezeAfter true rest := rfl
      have bytes : Text.asBytes ('*' :: squeezeAfter true rest) = starByte :: (squeezeAfter true rest).asBytes := rfl
      constructor
      · intro name
        rw [one, bytes, lowerBytes_star]
        exact ih.2 name
      · intro name
        rw [none, lowerBytes_star, Matches.star_star_iff]
        exact ih.2 name
    · have kept : ∀ after, squeezeAfter after (c :: rest) = c.toLower :: squeezeAfter false rest := by
        intro after
        rw [squeezeAfter, if_neg star]
      have bytes : Text.asBytes (c.toLower :: squeezeAfter false rest) =
          String.utf8EncodeChar c.toLower ++ (squeezeAfter false rest).asBytes := rfl
      constructor
      · intro name
        rw [kept, bytes, lowerBytes_cons]
        exact Matches.append_congr ih.1 name
      · intro name
        rw [kept, bytes, lowerBytes_cons, ← List.cons_append, ← List.cons_append]
        exact Matches.append_congr ih.1 name

/-- Making runs of stars one star changes no match. -/
theorem squeeze_matches_iff (text : Text) (host : Bytes) :
    GlobMatches (squeeze text).asBytes host ↔ GlobMatches (lowerBytes text) host :=
  (squeezeAfter_matches text).1 _

/-- A part of the host where a rule may match: its start is up to the anchor, its end to the marker. -/
def RuleParts.Matches (parts : RuleParts) (host : Bytes) : Prop :=
  ∃ front part back, host = front ++ part ++ back ∧ GlobMatches (lowerBytes parts.body) part ∧
    (match parts.anchor with
      | .subtree => front = [] ∨ front.getLast? = some dotByte
      | .start => front = []
      | .free => True) ∧ (parts.ended = true → back = [])

theorem globMatches_append_star {glob host : Bytes} :
    GlobMatches (glob ++ [starByte]) host ↔ ∃ part back, host = part ++ back ∧ GlobMatches glob part := by
  rw [GlobMatches, Matches.append_star_iff]
  constructor
  · rintro ⟨_, _, split, matched⟩
    obtain ⟨part, back, rfl, rfl, rfl⟩ := List.map_eq_append_iff.mp split
    exact ⟨part, back, rfl, matched⟩
  · rintro ⟨part, back, rfl, matched⟩
    exact ⟨_, _, List.map_append, matched⟩

theorem globMatches_cons_star {glob host : Bytes} :
    GlobMatches (starByte :: glob) host ↔ ∃ front part, host = front ++ part ∧ GlobMatches glob part := by
  rw [GlobMatches, Matches.star_iff]
  constructor
  · rintro ⟨_, _, split, matched⟩
    obtain ⟨front, part, rfl, rfl, rfl⟩ := List.map_eq_append_iff.mp split
    exact ⟨front, part, rfl, matched⟩
  · rintro ⟨front, part, rfl, matched⟩
    exact ⟨_, _, List.map_append, matched⟩

/-- The part of the glob behind the anchor matches a name whose start matches the body. -/
theorem globMatches_marker {ended : Bool} {body : Text} (plain : ended = true → body.getLast? ≠ some '.') (host : Bytes) :
    GlobMatches (lowerBytes (if ended then body.stripDot else body ++ ['*'])) host ↔
      ∃ part back, host = part ++ back ∧ GlobMatches (lowerBytes body) part ∧ (ended = true → back = []) := by
  cases ended with
  | true =>
    rw [if_pos rfl, Text.stripDot_of_getLast? (plain rfl)]
    constructor
    · intro matched
      exact ⟨host, [], (List.append_nil _).symm, matched, fun _ => rfl⟩
    · rintro ⟨part, back, rfl, matched, ends⟩
      rwa [ends rfl, List.append_nil]
  | false =>
    have star : lowerBytes ['*'] = [starByte] := rfl
    rw [if_neg Bool.false_ne_true, lowerBytes_append, star, globMatches_append_star]
    simp

/-- The stored glob covers a host exactly if the rule matches a part of it. -/
theorem covers_iff_matches {parts : RuleParts} (plain : parts.ended = true → parts.body.getLast? ≠ some '.')
    (host : Bytes) :
    (GlobMatches (lowerBytes parts.glob) host ∨
      parts.anchor = .subtree ∧ ∃ front name, host = front ++ dotByte :: name ∧
        GlobMatches (lowerBytes parts.glob) name) ↔ parts.Matches host := by
  have marker := globMatches_marker plain
  obtain ⟨anchor, ended, body⟩ := parts
  unfold RuleParts.Matches RuleParts.glob
  cases anchor with
  | free =>
    simp only [if_true, reduceCtorEq, false_and, or_false, List.singleton_append, lowerBytes_star,
      globMatches_cons_star, marker, true_and]
    constructor
    · rintro ⟨front, _, rfl, part, back, rfl, matched, ends⟩
      exact ⟨front, part, back, (List.append_assoc ..).symm, matched, ends⟩
    · rintro ⟨front, part, back, rfl, matched, ends⟩
      exact ⟨front, part ++ back, List.append_assoc .., part, back, rfl, matched, ends⟩
  | start =>
    simp only [reduceCtorEq, if_false, List.nil_append, false_and, or_false, marker]
    constructor
    · rintro ⟨part, back, rfl, matched, ends⟩
      exact ⟨[], part, back, rfl, matched, rfl, ends⟩
    · rintro ⟨_, part, back, rfl, matched, rfl, ends⟩
      exact ⟨part, back, rfl, matched, ends⟩
  | subtree =>
    simp only [reduceCtorEq, if_false, List.nil_append, true_and, marker]
    constructor
    · rintro (⟨part, back, rfl, matched, ends⟩ | ⟨front, _, rfl, part, back, rfl, matched, ends⟩)
      · exact ⟨[], part, back, rfl, matched, .inl rfl, ends⟩
      · exact ⟨front ++ [dotByte], part, back, by simp, matched, .inr (by simp), ends⟩
    · rintro ⟨front, part, back, rfl, matched, rfl | dot, ends⟩
      · exact .inl ⟨part, back, rfl, matched, ends⟩
      · obtain ⟨before, rfl⟩ := List.getLast?_eq_some_iff.mp dot
        exact .inr ⟨before, part ++ back, by simp, part, back, rfl, matched, ends⟩

theorem squeezeAfter_literal {c : Char} (plain : c ≠ '*') (after : Bool) (rest : Text) :
    squeezeAfter after (c :: rest) = c.toLower :: squeeze rest := by
  rw [squeezeAfter, if_neg plain]
  rfl

/-- A text may be squeezed first. -/
theorem squeezeAfter_squeezeAfter (text more : Text) {before after : Bool} (later : before = true → after = true) :
    squeezeAfter after (squeezeAfter before text ++ more) = squeezeAfter after (text ++ more) := by
  induction text generalizing before after with
  | nil => rfl
  | cons c rest ih =>
    by_cases star : c = '*'
    · subst star
      cases before with
      | true =>
        rw [later rfl]
        exact ih fun _ => rfl
      | false =>
        have next : squeezeAfter true (squeezeAfter true rest ++ more) = squeezeAfter true (rest ++ more) :=
          ih fun _ => rfl
        cases after with
        | true => exact next
        | false => exact congrArg ('*' :: ·) next
    · have lower : c.toLower ≠ '*' := fun same => star ((toLower_eq_star_iff c).mp same)
      have next : squeeze (squeeze rest ++ more) = squeeze (rest ++ more) := ih fun same => same
      rw [squeezeAfter_literal star, List.cons_append, List.cons_append, squeezeAfter_literal star,
        squeezeAfter_literal lower, next, toLower_toLower]

theorem squeezeAfter_congr {first second : Text} (same : squeeze first = squeeze second) (after : Bool) (more : Text) :
    squeezeAfter after (first ++ more) = squeezeAfter after (second ++ more) := by
  have left : squeezeAfter after (squeeze first ++ more) = _ := squeezeAfter_squeezeAfter first more nofun
  have right : squeezeAfter after (squeeze second ++ more) = _ := squeezeAfter_squeezeAfter second more nofun
  rw [← left, ← right, same]

/-- A mark at the start is not touched. -/
theorem squeeze_eq_cons_iff {c : Char} (mark : Mark c) {text rest : Text} :
    squeeze text = c :: rest ↔ ∃ behind, text = c :: behind ∧ squeeze behind = rest := by
  constructor
  · intro same
    cases text with
    | nil => cases same
    | cons d behind =>
      by_cases star : d = '*'
      · subst star
        exact absurd (List.cons.inj same).1.symm mark.noStar
      · rw [squeeze, squeezeAfter_literal star] at same
        obtain ⟨lower, later⟩ := List.cons.inj same
        obtain rfl := eq_of_toLower_eq mark.noLetter lower
        exact ⟨behind, rfl, later⟩
  · rintro ⟨behind, rfl, rfl⟩
    rw [squeeze, squeezeAfter_literal mark.noStar, mark.toLower]

theorem squeezeAfter_eq_nil {text : Text} (empty : squeeze text = []) : text = [] := by
  cases text with
  | nil => rfl
  | cons c rest =>
    rw [squeeze, squeezeAfter] at empty
    split at empty <;> cases empty

theorem squeezeAfter_concat {c : Char} (mark : Mark c) (after : Bool) (text : Text) :
    squeezeAfter after (text ++ [c]) = squeezeAfter after text ++ [c] := by
  induction text generalizing after with
  | nil => rw [List.nil_append, squeezeAfter_literal mark.noStar, mark.toLower]; rfl
  | cons d rest ih =>
    rw [List.cons_append, squeezeAfter, squeezeAfter]
    split
    · split
      · exact ih true
      · rw [ih true, List.cons_append]
    · rw [ih false, List.cons_append]

/-- A mark at the end is not touched. -/
theorem squeezeAfter_eq_concat_iff {c : Char} (mark : Mark c) {after : Bool} {text rest : Text} :
    squeezeAfter after text = rest ++ [c] ↔ ∃ front, text = front ++ [c] ∧ squeezeAfter after front = rest := by
  constructor
  · intro same
    induction text generalizing after rest with
    | nil => simp [squeezeAfter] at same
    | cons d behind ih =>
      rw [squeezeAfter] at same
      split at same
      · next star =>
        subst star
        split at same
        · next before =>
          obtain ⟨front, rfl, later⟩ := ih same
          subst before
          exact ⟨'*' :: front, rfl, later⟩
        · next before =>
          cases rest with
          | nil => exact absurd (List.cons.inj same).1.symm mark.noStar
          | cons e rest =>
            obtain ⟨rfl, later⟩ := List.cons.inj same
            obtain ⟨front, rfl, squeezed⟩ := ih later
            refine ⟨'*' :: front, rfl, ?_⟩
            rw [squeezeAfter, if_pos rfl, if_neg before, squeezed]
      · next star =>
        cases rest with
        | nil =>
          obtain ⟨lower, later⟩ := List.cons.inj same
          obtain rfl := eq_of_toLower_eq mark.noLetter lower
          obtain rfl := squeezeAfter_eq_nil later
          exact ⟨[], rfl, rfl⟩
        | cons e rest =>
          obtain ⟨rfl, later⟩ := List.cons.inj same
          obtain ⟨front, rfl, squeezed⟩ := ih later
          refine ⟨d :: front, rfl, ?_⟩
          rw [squeezeAfter, if_neg star, squeezed]
  · rintro ⟨front, rfl, rfl⟩
    exact squeezeAfter_concat mark after front

variable {first second : Text}

/-- Marks at the start are found in both of two texts that squeeze to the same. -/
theorem stripPrefix_squeeze {marks : Text} (plain : ∀ c ∈ marks, Mark c) (same : squeeze first = squeeze second) :
    (first.stripPrefix marks).map squeeze = (second.stripPrefix marks).map squeeze := by
  have found : ∀ text rest : Text, squeeze text = marks ++ rest ↔ (text.stripPrefix marks).map squeeze = some rest := by
    intro text rest
    rw [Option.map_eq_some_iff]
    simp only [Text.stripPrefix_eq_some_iff]
    clear same
    induction marks generalizing text with
    | nil => simp
    | cons c marks ih =>
      obtain ⟨here, later⟩ := List.forall_mem_cons.mp plain
      rw [List.cons_append, squeeze_eq_cons_iff here]
      simp only [ih later]
      constructor
      · rintro ⟨_, rfl, behind, rfl, squeezed⟩
        exact ⟨behind, rfl, squeezed⟩
      · rintro ⟨behind, rfl, squeezed⟩
        exact ⟨_, rfl, behind, rfl, squeezed⟩
  apply Option.ext
  intro rest
  rw [← found, ← found, same]

/-- The same for marks at the end. -/
theorem stripSuffix_squeeze {marks : Text} (plain : ∀ c ∈ marks, Mark c) (same : squeeze first = squeeze second) :
    (first.stripSuffix marks).map squeeze = (second.stripSuffix marks).map squeeze := by
  have found : ∀ text rest : Text, squeeze text = rest ++ marks ↔ (text.stripSuffix marks).map squeeze = some rest := by
    intro text rest
    rw [Option.map_eq_some_iff]
    simp only [Text.stripSuffix_eq_some_iff]
    clear same
    induction marks using List.reverseRecOn generalizing text with
    | nil => simp
    | append_singleton marks c ih =>
      have here := plain c (by simp)
      rw [← List.append_assoc, squeeze, squeezeAfter_eq_concat_iff here]
      have earlier := ih fun d member => plain d (by simp [member])
      constructor
      · rintro ⟨front, rfl, squeezed⟩
        obtain ⟨inner, rfl, result⟩ := (earlier front).mp squeezed
        exact ⟨inner, (List.append_assoc ..).symm ▸ rfl, result⟩
      · rintro ⟨inner, rfl, result⟩
        exact ⟨inner ++ marks, (List.append_assoc ..).symm, (earlier _).mpr ⟨inner, rfl, result⟩⟩
  apply Option.ext
  intro rest
  rw [← found, ← found, same]

private theorem squeeze_cases {left right : Option Text} (same : left.map squeeze = right.map squeeze) :
    (left = none ∧ right = none) ∨
      ∃ rest other, left = some rest ∧ right = some other ∧ squeeze rest = squeeze other := by
  cases left with
  | none =>
    cases right with
    | none => exact .inl ⟨rfl, rfl⟩
    | some _ => cases same
  | some rest =>
    cases right with
    | none => cases same
    | some other => exact .inr ⟨rest, other, rfl, rfl, Option.some.inj same⟩

private theorem orElse_squeeze {left right other another : Option Text} (same : left.map squeeze = right.map squeeze)
    (others : other.map squeeze = another.map squeeze) :
    (left.orElse fun _ => other).map squeeze = (right.orElse fun _ => another).map squeeze := by
  rcases squeeze_cases same with ⟨rfl, rfl⟩ | ⟨_, _, rfl, rfl, _⟩
  · exact others
  · exact same

/-- The anchor does not depend on letter case and lengths of runs. -/
theorem splitAnchor_squeeze (same : squeeze first = squeeze second) :
    (splitAnchor first).1 = (splitAnchor second).1 ∧
      squeeze (splitAnchor first).2 = squeeze (splitAnchor second).2 := by
  have bars := @stripPrefix_squeeze _ _ ['|', '|'] (Text.forall_of_all (by decide)) same
  have start := orElse_squeeze (@stripPrefix_squeeze _ _ [':', '/', '/'] (Text.forall_of_all (by decide)) same)
    (@stripPrefix_squeeze _ _ ['|'] (Text.forall_of_all (by decide)) same)
  unfold splitAnchor
  rcases squeeze_cases bars with ⟨left, right⟩ | ⟨rest, other, left, right, squeezed⟩
  · rw [left, right]
    rcases squeeze_cases start with ⟨left, right⟩ | ⟨rest, other, left, right, squeezed⟩
    · rw [left, right]
      exact ⟨rfl, same⟩
    · rw [left, right]
      exact ⟨rfl, squeezed⟩
  · rw [left, right]
    exact ⟨rfl, squeezed⟩

theorem splitMarker_squeeze (same : squeeze first = squeeze second) :
    (splitMarker first).1 = (splitMarker second).1 ∧
      squeeze (splitMarker first).2 = squeeze (splitMarker second).2 := by
  have caret : (stripCaret first).map squeeze = (stripCaret second).map squeeze :=
    orElse_squeeze (stripSuffix_squeeze (Text.forall_of_all (by decide)) same) (stripSuffix_squeeze (Text.forall_of_all (by decide)) same)
  unfold splitMarker
  rcases squeeze_cases caret with ⟨left, right⟩ | ⟨rest, other, left, right, squeezed⟩
  · rw [left, right]
    exact ⟨rfl, same⟩
  · rw [left, right]
    exact ⟨rfl, squeezed⟩

theorem stripDot_squeeze (same : squeeze first = squeeze second) : squeeze first.stripDot = squeeze second.stripDot := by
  have dot := @stripSuffix_squeeze _ _ ['.'] (Text.forall_of_all (by decide)) same
  unfold Text.stripDot
  rcases squeeze_cases dot with ⟨left, right⟩ | ⟨rest, other, left, right, squeezed⟩
  · rw [left, right]
    exact same
  · rw [left, right]
    exact squeezed

theorem RuleParts.glob_squeeze (same : squeeze first = squeeze second) (anchor : Anchor) (ended : Bool) :
    squeeze (RuleParts.mk anchor ended first).glob = squeeze (RuleParts.mk anchor ended second).glob := by
  have marker : squeeze (if ended then first.stripDot else first ++ ['*']) =
      squeeze (if ended then second.stripDot else second ++ ['*']) := by
    cases ended with
    | true => exact stripDot_squeeze same
    | false => exact squeezeAfter_congr same false ['*']
  unfold RuleParts.glob
  dsimp only
  split
  · have both := squeezeAfter_congr marker true []
    rw [List.append_nil, List.append_nil] at both
    exact congrArg ('*' :: ·) both
  · exact marker

/-- Rules that differ in letter case and in the lengths of runs of stars are read the same. -/
theorem wildcardPattern_congr (same : squeeze first = squeeze second) :
    wildcardPattern first = wildcardPattern second := by
  obtain ⟨anchors, rests⟩ := splitAnchor_squeeze same
  obtain ⟨markers, bodies⟩ := splitMarker_squeeze rests
  rw [wildcardPattern_eq, wildcardPattern_eq, ruleParts, ruleParts, anchors, markers, RuleParts.glob_squeeze bodies]

end Tollgate
