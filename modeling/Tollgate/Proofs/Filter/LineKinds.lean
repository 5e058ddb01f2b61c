import Tollgate.Model.Filter.Detect
import Tollgate.Proofs.Filter.LineEffects
import Tollgate.Proofs.Filter.WildcardText
import Tollgate.ToMathlib.Words

/-! # Which parser reads a line

A line that the adblock parser reads is a head of plain characters, one of them `|`, `^` or `*`, and options
that are made of letters, commas and white space. A hosts line starts with an address or a host name, which
are plain as well but hold none of the three marks. So the first `%` or white space of a hosts line, which is
not plain, stands before any options, and no parser reads the lines of the other.
-/

namespace Tollgate

open Text

/-- The codes between `*` and `|`: no white space and none of `#`, `$` and `%`. -/
def Plain (c : Char) : Prop := 42 ≤ c.toNat ∧ c.toNat ≤ 124

instance (c : Char) : Decidable (Plain c) := inferInstanceAs (Decidable (_ ∧ _))

/-- The marks that a rule has and a host name does not. -/
def Marked (c : Char) : Prop := c = '|' ∨ c = '^' ∨ c = '*'

instance (c : Char) : Decidable (Marked c) := inferInstanceAs (Decidable (_ ∨ _))

theorem Plain.notWhitespace {c : Char} (plain : Plain c) : isWhitespace c = false := by
  obtain ⟨low, high⟩ := plain
  simp only [isWhitespace, Bool.or_eq_false_iff, Bool.and_eq_false_iff, decide_eq_false_iff_not, beq_eq_false_iff_ne]
  omega

theorem StoredChar.plain_of_toLower {c : Char} (stored : StoredChar c.toLower) : Plain c := by
  have bounds := stored.toNat
  rw [toNat_toLower] at bounds
  split at bounds
  · exact ⟨by omega, by omega⟩
  · exact ⟨by omega, by omega⟩

/-- A character of a host name. -/
def NameChar (c : Char) : Prop := c.isAlphanum = true ∨ c = '-' ∨ c = '_' ∨ c = '.'

theorem NameChar.toNat {c : Char} (name : NameChar c) :
    45 ≤ c.toNat ∧ c.toNat ≤ 57 ∨ 65 ≤ c.toNat ∧ c.toNat ≤ 90 ∨ c.toNat = 95 ∨ 97 ≤ c.toNat ∧ c.toNat ≤ 122 := by
  rcases name with alphanum | rfl | rfl | rfl
  · rw [isAlphanum_iff] at alphanum
    omega
  all_goals decide

theorem NameChar.plain {c : Char} (name : NameChar c) : Plain c := by
  have codes := name.toNat
  exact ⟨by omega, by omega⟩

theorem NameChar.notMarked {c : Char} (name : NameChar c) : ¬ Marked c := by
  rintro (rfl | rfl | rfl) <;> exact absurd name.toNat (by decide)

theorem mem_stripDot {text : Text} {c : Char} (member : c ∈ text) : c ∈ text.stripDot ∨ c = '.' := by
  unfold stripDot
  cases stripped : stripSuffix text ['.'] with
  | none => exact .inl member
  | some rest =>
    rw [stripSuffix_eq_some_iff.mp stripped, List.mem_append, List.mem_singleton] at member
    exact member

theorem mem_of_mem_stripDot {text : Text} {c : Char} (member : c ∈ text.stripDot) : c ∈ text := by
  unfold stripDot at member
  cases stripped : stripSuffix text ['.'] with
  | none => rwa [stripped] at member
  | some rest =>
    rw [stripped, Option.getD_some] at member
    rw [stripSuffix_eq_some_iff.mp stripped]
    exact List.mem_append_left _ member

/-- Trimming takes white space off both ends. -/
theorem trim_split (text : Text) : ∃ front back, text = front ++ (text.trim ++ back) ∧
    (∀ c ∈ front, isWhitespace c = true) ∧ ∀ c ∈ back, isWhitespace c = true := by
  refine ⟨text.takeWhile isWhitespace, (text.dropWhile isWhitespace).rtakeWhile isWhitespace, ?_, ?_, ?_⟩
  · rw [trim, List.rdropWhile_append_rtakeWhile, List.takeWhile_append_dropWhile]
  · exact fun c member => List.mem_takeWhile_imp member
  · exact fun c member => List.mem_rtakeWhile_imp member

theorem mem_trim {text : Text} {c : Char} (member : c ∈ text) : c ∈ text.trim ∨ isWhitespace c = true := by
  obtain ⟨front, back, split, before, behind⟩ := trim_split text
  rw [split, List.mem_append, List.mem_append] at member
  rcases member with inFront | inside | inBack
  · exact .inr (before c inFront)
  · exact .inl inside
  · exact .inr (behind c inBack)

theorem splitWhitespace_eq (text : Text) : text.splitWhitespace = text.words isWhitespace := rfl

theorem splitWhitespace_trim (text : Text) : text.trim.splitWhitespace = text.splitWhitespace := by
  obtain ⟨front, back, split, before, behind⟩ := trim_split text
  have whole := congrArg (List.words isWhitespace) split
  rw [List.words_append_of_seps before, List.words_append_seps _ behind] at whole
  exact whole.symm

/-- A front of characters of one class is taken off. -/
def Consumes (p : Char → Prop) (input rest : Text) : Prop := ∃ front, input = front ++ rest ∧ ∀ c ∈ front, p c

namespace Consumes

variable {p q : Char → Prop} {input middle rest : Text}

theorem refl (p : Char → Prop) (input : Text) : Consumes p input input := ⟨[], rfl, nofun⟩

theorem trans (first : Consumes p input middle) (second : Consumes p middle rest) : Consumes p input rest := by
  obtain ⟨front, rfl, chars⟩ := first
  obtain ⟨back, rfl, more⟩ := second
  refine ⟨front ++ back, (List.append_assoc ..).symm, ?_⟩
  intro c member
  rcases List.mem_append.mp member with inFront | inBack
  · exact chars c inFront
  · exact more c inBack

theorem weaken (consumes : Consumes p input rest) (wider : ∀ c, p c → q c) : Consumes q input rest := by
  obtain ⟨front, split, chars⟩ := consumes
  exact ⟨front, split, fun c member => wider c (chars c member)⟩

theorem mem (consumes : Consumes p input rest) {c : Char} (member : c ∈ rest) : c ∈ input := by
  obtain ⟨front, rfl, -⟩ := consumes
  exact List.mem_append_right front member

theorem forall_of_nil (consumes : Consumes p input []) : ∀ c ∈ input, p c := by
  obtain ⟨front, rfl, chars⟩ := consumes
  rwa [List.append_nil]

theorem stripPrefix {marks : Text} (chars : ∀ c ∈ marks, p c) (stripped : input.stripPrefix marks = some rest) :
    Consumes p input rest := ⟨marks, stripPrefix_eq_some_iff.mp stripped, chars⟩

end Consumes

/-- What a reader consumes is made of characters of one class. -/
def Reads (p : Char → Prop) (reader : Text → Option Text) : Prop :=
  ∀ input rest, reader input = some rest → Consumes p input rest

namespace Reads

variable {p : Char → Prop} {reader : Text → Option Text}

theorem readNumber {radix maxDigits limit : ℕ} {allowZeroPrefix : Bool}
    (digits : ∀ c, (IpAddr.toDigit radix c).isSome = true → p c) :
    Reads p (IpAddr.readNumber radix maxDigits limit allowZeroPrefix) := by
  intro input rest read
  simp only [IpAddr.readNumber] at read
  split at read
  · contradiction
  split at read
  · contradiction
  split at read
  · contradiction
  obtain rfl := Option.some.inj read
  refine ⟨input.takeWhile fun c => (IpAddr.toDigit radix c).isSome, ?_, ?_⟩
  · exact (List.prefix_iff_eq_append.mp (List.takeWhile_prefix _)).symm
  · intro c member
    have digit := List.mem_takeWhile_imp member
    exact digits c digit

theorem readSeparator (reads : Reads p reader) {separator : Char} (allowed : p separator) (index : ℕ) :
    Reads p (IpAddr.readSeparator separator index reader) := by
  intro input rest read
  unfold IpAddr.readSeparator at read
  split at read
  · obtain ⟨behind, stripped, inner⟩ := Option.bind_eq_some_iff.mp read
    have first : Consumes p input behind := .stripPrefix (List.forall_mem_singleton.mpr allowed) stripped
    exact first.trans (reads behind rest inner)
  · exact reads input rest read

theorem foldlM {ι : Type*} {step : Text → ι → Option Text} (reads : ∀ i, Reads p (step · i)) (indices : List ι) :
    Reads p fun input => indices.foldlM step input := by
  induction indices with
  | nil =>
    intro input rest read
    obtain rfl := Option.some.inj read
    exact .refl p input
  | cons i indices ih =>
    intro input rest read
    obtain ⟨middle, first, later⟩ := Option.bind_eq_some_iff.mp read
    exact (reads i input middle first).trans (ih middle rest later)

end Reads

theorem toDigit_ten {c : Char} (digit : (IpAddr.toDigit 10 c).isSome = true) : c.isDigit = true := by
  rw [isDigit_iff]
  simp only [IpAddr.toDigit] at digit
  split at digit
  · assumption
  · split at digit
    · simp only [Option.filter, decide_eq_true_eq] at digit
      split at digit
      · omega
      · contradiction
    · split at digit
      · simp only [Option.filter, decide_eq_true_eq] at digit
        split at digit
        · omega
        · contradiction
      · contradiction

theorem toDigit_plain {radix : ℕ} {c : Char} (digit : (IpAddr.toDigit radix c).isSome = true) : Plain c := by
  simp only [IpAddr.toDigit] at digit
  unfold Plain
  split at digit
  · omega
  · split at digit
    · omega
    · split at digit
      · omega
      · contradiction

theorem readIpv4_reads : Reads (fun c => c.isDigit = true ∨ c = '.') IpAddr.readIpv4 := by
  apply Reads.foldlM
  intro i
  apply Reads.readSeparator
  · exact .readNumber fun c digit => .inl (toDigit_ten digit)
  · exact .inr rfl

theorem readIpv4_plain : Reads Plain IpAddr.readIpv4 := by
  intro input rest read
  apply (readIpv4_reads input rest read).weaken
  rintro c (digit | rfl)
  · have codes := (isDigit_iff c).mp digit
    exact ⟨by omega, by omega⟩
  · decide

theorem readGroups_plain (i remaining : ℕ) (input : Text) :
    Consumes Plain input (IpAddr.readGroups i remaining input).2.2 := by
  have separator : Plain ':' := by decide
  induction remaining generalizing i input with
  | zero => exact .refl ..
  | succ remaining ih =>
    rw [IpAddr.readGroups]
    split
    · next rest embedded =>
      split at embedded
      · exact readIpv4_plain.readSeparator separator i input rest embedded
      · contradiction
    · split
      · next rest group =>
        have numbers : Reads Plain (IpAddr.readNumber 16 4 65536 true) := .readNumber fun c digit => toDigit_plain digit
        exact (numbers.readSeparator separator i input rest group).trans (ih (i + 1) rest)
      · exact .refl ..

theorem readIpv6_plain : Reads Plain IpAddr.readIpv6 := by
  intro input rest read
  have head := readGroups_plain 0 8 input
  simp only [IpAddr.readIpv6] at read
  split at read
  · obtain rfl := Option.some.inj read
    exact head
  · split at read
    · contradiction
    · obtain ⟨behind, stripped, rfl⟩ := Option.map_eq_some_iff.mp read
      have colons : Consumes Plain _ behind := .stripPrefix (forall_of_all (by decide)) stripped
      exact (head.trans colons).trans (readGroups_plain ..)

/-- Without a colon no group but the first is read. -/
theorem readGroups_of_notMem {input : Text} (absent : ':' ∉ input) (i remaining : ℕ) :
    IpAddr.readGroups (i + 1) remaining input = (i + 1, false, input) := by
  cases remaining with
  | zero => rfl
  | succ remaining =>
    have none : ∀ reader, IpAddr.readSeparator ':' (i + 1) reader input = none := by
      intro reader
      have stripped : input.stripPrefix [':'] = none := by
        rw [Option.eq_none_iff_forall_ne_some]
        intro rest found
        rw [stripPrefix_eq_some_iff.mp found] at absent
        exact absent (List.mem_cons_self ..)
      rw [IpAddr.readSeparator, if_pos (Nat.succ_pos i), stripped, Option.bind_none]
    rw [IpAddr.readGroups, none, none]
    split
    · next embedded => simp at embedded
    · rfl

theorem readIpv6_eq_none {input : Text} (absent : ':' ∉ input) : IpAddr.readIpv6 input = none := by
  have noColons : ∀ {rest : Text}, ':' ∉ rest → rest.stripPrefix [':', ':'] = none := by
    intro rest plain
    rw [Option.eq_none_iff_forall_ne_some]
    intro behind found
    rw [stripPrefix_eq_some_iff.mp found] at plain
    exact plain (List.mem_cons_self ..)
  have groups : ∀ (size : ℕ) (embedded : Bool) (rest : Text), IpAddr.readGroups 0 8 input = (size, embedded, rest) →
      size < 8 ∧ (embedded = true ∨ ':' ∉ rest) := by
    intro size embedded rest read
    rw [IpAddr.readGroups] at read
    split at read
    · cases read
      exact ⟨by decide, .inl rfl⟩
    · split at read
      · next behind group =>
        have numbers : Reads (fun _ => True) (IpAddr.readNumber 16 4 65536 true) := .readNumber fun _ _ => trivial
        have consumed := numbers.readSeparator trivial 0 input behind group
        have plain : ':' ∉ behind := fun member => absent (consumed.mem member)
        rw [readGroups_of_notMem plain] at read
        cases read
        exact ⟨by decide, .inr plain⟩
      · cases read
        exact ⟨by decide, .inr absent⟩
  unfold IpAddr.readIpv6
  rcases read : IpAddr.readGroups 0 8 input with ⟨size, embedded, rest⟩
  obtain ⟨small, ends⟩ := groups size embedded rest read
  dsimp only
  rw [if_neg (by omega)]
  rcases ends with rfl | plain
  · rfl
  · split
    · rfl
    · rw [noColons plain, Option.map_none]

theorem isIpv6Addr_plain {text : Text} (accepted : IpAddr.isIpv6Addr text = true) : ∀ c ∈ text, Plain c :=
  (readIpv6_plain text [] (eq_of_beq accepted)).forall_of_nil

theorem isIpAddr_plain {text : Text} (accepted : IpAddr.isIpAddr text = true) : ∀ c ∈ text, Plain c := by
  unfold IpAddr.isIpAddr at accepted
  split at accepted
  · next rest read =>
    rw [List.isEmpty_iff.mp accepted] at read
    exact (readIpv4_plain text [] read).forall_of_nil
  · exact isIpv6Addr_plain accepted

/-- An address without a colon is made of digits and dots. -/
theorem isIpAddr_digits {text : Text} (accepted : IpAddr.isIpAddr text = true) (absent : ':' ∉ text) :
    ∀ c ∈ text, c.isDigit = true ∨ c = '.' := by
  unfold IpAddr.isIpAddr at accepted
  split at accepted
  · next rest read =>
    rw [List.isEmpty_iff.mp accepted] at read
    exact (readIpv4_reads text [] read).forall_of_nil
  · rw [readIpv6_eq_none absent] at accepted
    contradiction

/-- An accepted name is made of the characters of host names and has a dot. -/
theorem normalizeName_chars {raw name : Text} (accepted : normalizeName raw = some name) :
    (∀ c ∈ raw, NameChar c) ∧ '.' ∈ raw.stripDot := by
  obtain ⟨site, -⟩ := normalizeName_eq_some_iff.mp accepted
  have chars : ∀ c ∈ raw.stripDot, c = '.' ∨ NameChar c := by
    apply List.forall_of_splitOn
    intro label member c inside
    rcases (site.labels label member).2.2 c inside with alphanum | dash | line
    · exact .inl alphanum
    · exact .inr (.inl dash)
    · exact .inr (.inr (.inl line))
  refine ⟨?_, site.dot⟩
  intro c member
  rcases mem_stripDot member with inside | rfl
  · rcases chars c inside with rfl | name
    · exact .inr (.inr (.inr rfl))
    · exact name
  · exact .inr (.inr (.inr rfl))

/-- A name between plain characters, one of which is a mark. -/
def Framed (pattern name : Text) : Prop :=
  ∃ front back, pattern = front ++ (name ++ back) ∧ (∀ c ∈ front ++ back, Plain c) ∧ ∃ c ∈ front ++ back, Marked c

/-- A pattern as a rule writes it. -/
def RuleText (pattern : Text) : Prop := (∀ c ∈ pattern, Plain c) ∧ ∃ c ∈ pattern, Marked c

theorem Framed.ruleText {pattern raw name : Text} (framed : Framed pattern raw)
    (accepted : normalizeName raw = some name) : RuleText pattern := by
  obtain ⟨front, back, rfl, plain, mark, member, marked⟩ := framed
  simp only [List.mem_append] at plain member
  constructor
  · intro c inside
    rw [List.mem_append, List.mem_append] at inside
    rcases inside with inFront | inName | inBack
    · exact plain c (.inl inFront)
    · exact ((normalizeName_chars accepted).1 c inName).plain
    · exact plain c (.inr inBack)
  · refine ⟨mark, ?_, marked⟩
    rw [List.mem_append, List.mem_append]
    exact member.imp_right .inr

theorem stripCaret_eq_some {text name : Text} (stripped : stripCaret text = some name) :
    ∃ back, text = name ++ back ∧ (∀ c ∈ back, Plain c) ∧ '^' ∈ back := by
  unfold stripCaret at stripped
  cases anchored : text.stripSuffix ['^', '|'] with
  | some body =>
    rw [anchored] at stripped
    cases stripped
    exact ⟨_, stripSuffix_eq_some_iff.mp anchored, forall_of_all (by decide), by decide⟩
  | none =>
    rw [anchored] at stripped
    exact ⟨_, stripSuffix_eq_some_iff.mp stripped, forall_of_all (by decide), by decide⟩

theorem Framed.of_caret {front rest name : Text} (plain : ∀ c ∈ front, Plain c)
    (stripped : stripCaret rest = some name) : Framed (front ++ rest) name := by
  obtain ⟨back, rfl, chars, caret⟩ := stripCaret_eq_some stripped
  refine ⟨front, back, rfl, ?_, '^', List.mem_append_right _ caret, .inr (.inl rfl)⟩
  intro c member
  rcases List.mem_append.mp member with inFront | inBack
  · exact plain c inFront
  · exact chars c inBack

theorem wildcardDomain_framed {pattern name : Text} (found : wildcardDomain pattern = some name) :
    Framed pattern name := by
  obtain ⟨rest, stripped, same⟩ := Option.bind_eq_some_iff.mp found
  rw [stripPrefix_eq_some_iff.mp stripped]
  dsimp only at same
  split at same
  · contradiction
  obtain rfl := Option.some.inj same
  cases caret : stripCaret rest with
  | some body => exact .of_caret (forall_of_all (by decide)) caret
  | none => exact ⟨['*', '.'], [], by rw [List.append_nil, Option.getD_none], forall_of_all (by decide),
    exists_of_any (by decide)⟩

theorem anchoredName_framed {pattern name : Text} {exact : Bool} (found : anchoredName pattern = some (exact, name)) :
    Framed pattern name := by
  unfold anchoredName at found
  split at found
  · next rest stripped =>
    rw [stripPrefix_eq_some_iff.mp stripped]
    split at found
    · next body caret =>
      cases found
      exact .of_caret (forall_of_all (by decide)) caret
    · split at found
      · contradiction
      · cases found
        exact ⟨['|', '|'], [], by rw [List.append_nil], forall_of_all (by decide),
          exists_of_any (by decide)⟩
  · split at found
    · next rest stripped =>
      obtain ⟨body, caret, same⟩ := Option.map_eq_some_iff.mp found
      cases same
      rw [stripPrefix_eq_some_iff.mp stripped, stripSuffix_eq_some_iff.mp caret]
      exact ⟨['.'], ['^'], rfl, forall_of_all (by decide),
        exists_of_any (by decide)⟩
    · split at found
      · next rest stripped =>
        obtain ⟨body, caret, same⟩ := Option.map_eq_some_iff.mp found
        cases same
        rw [stripPrefix_eq_some_iff.mp stripped]
        exact .of_caret (forall_of_all (by decide)) caret
      · split at found
        · next rest stripped =>
          obtain ⟨body, caret, same⟩ := Option.map_eq_some_iff.mp found
          cases same
          rw [stripPrefix_eq_some_iff.mp stripped]
          exact .of_caret (forall_of_all (by decide)) caret
        · split at found
          · obtain ⟨body, caret, same⟩ := Option.map_eq_some_iff.mp found
            cases same
            exact @Framed.of_caret [] _ _ nofun caret
          · contradiction

theorem mem_squeezeAfter {text : Text} {c : Char} (member : c ∈ text) (star : c ≠ '*') (after : Bool) :
    c.toLower ∈ squeezeAfter after text := by
  induction text generalizing after with
  | nil => contradiction
  | cons d rest ih =>
    rw [squeezeAfter]
    rcases List.mem_cons.mp member with rfl | later
    · rw [if_neg star]
      exact List.mem_cons_self ..
    · split
      · split
        · exact ih later true
        · exact List.mem_cons_of_mem _ (ih later true)
      · exact List.mem_cons_of_mem _ (ih later false)

/-- Every character of a wildcard rule is one of its body or of an anchor or an end marker. -/
theorem mem_ruleParts {pattern : Text} {c : Char} (member : c ∈ pattern) : c ∈ (ruleParts pattern).body ∨ Plain c := by
  have marker : ∀ rest : Text, c ∈ rest → c ∈ (splitMarker rest).2 ∨ Plain c := by
    intro rest inside
    unfold splitMarker
    cases caret : stripCaret rest with
    | none => exact .inl inside
    | some body =>
      obtain ⟨back, rfl, plain, -⟩ := stripCaret_eq_some caret
      exact (List.mem_append.mp inside).imp_right (plain c)
  have anchor : c ∈ (splitAnchor pattern).2 ∨ Plain c := by
    have front : ∀ {marks rest : Text}, (∀ c ∈ marks, Plain c) → pattern.stripPrefix marks = some rest →
        c ∈ rest ∨ Plain c := by
      intro marks rest plain stripped
      rw [stripPrefix_eq_some_iff.mp stripped, List.mem_append] at member
      exact member.symm.imp_right (plain c)
    unfold splitAnchor
    cases subtree : pattern.stripPrefix ['|', '|'] with
    | some rest => exact front (forall_of_all (by decide)) subtree
    | none =>
      cases scheme : pattern.stripPrefix [':', '/', '/'] with
      | some rest => exact front (forall_of_all (by decide)) scheme
      | none =>
        cases start : pattern.stripPrefix ['|'] with
        | some rest => exact front (forall_of_all (by decide)) start
        | none => exact .inl member
  rcases anchor with inside | plain
  · exact marker _ inside
  · exact .inr plain

theorem wildcardPattern_plain {pattern glob : Text} {parents : Bool}
    (found : wildcardPattern pattern = some (parents, glob)) : ∀ c ∈ pattern, Plain c := by
  rw [wildcardPattern_eq] at found
  split at found
  · next valid =>
    intro c member
    rcases mem_ruleParts member with inBody | plain
    · by_cases star : c = '*'
      · rw [star]
        decide
      · have inGlob : c ∈ (ruleParts pattern).glob ∨ c = '.' := by
          unfold RuleParts.glob
          rw [List.mem_append]
          cases (ruleParts pattern).ended with
          | true => exact (mem_stripDot inBody).imp_left .inr
          | false => exact .inl (.inr (List.mem_append_left _ inBody))
        rcases inGlob with inside | rfl
        · exact ((isValidPattern_stored valid).stored _ (mem_squeezeAfter inside star false)).plain_of_toLower
        · decide
    · exact plain
  · contradiction

theorem parseRule_ruleText {exception important : Bool} {pattern : Text} {rule : Kind × Text}
    (found : parseRule exception pattern important = some rule) : RuleText pattern := by
  unfold parseRule at found
  split at found
  · next raw domain =>
    obtain ⟨name, accepted, -⟩ := Option.bind_eq_some_iff.mp found
    exact (wildcardDomain_framed domain).ruleText accepted
  · split at found
    · next star =>
      obtain ⟨⟨parents, glob⟩, wildcard, -⟩ := Option.bind_eq_some_iff.mp found
      exact ⟨wildcardPattern_plain wildcard, '*', star, .inr (.inr rfl)⟩
    · obtain ⟨⟨exact, raw⟩, anchored, later⟩ := Option.bind_eq_some_iff.mp found
      obtain ⟨name, accepted, -⟩ := Option.bind_eq_some_iff.mp later
      exact (anchoredName_framed anchored).ruleText accepted

/-- A character of the options of a rule. -/
def OptionChar (c : Char) : Prop := c = ',' ∨ isWhitespace c = true ∨ c.isLower = true

instance (c : Char) : Decidable (OptionChar c) := inferInstanceAs (Decidable (_ ∨ _))

/-- A fold that never fails has met a condition at every element. -/
private theorem forall_of_foldlM {σ ι : Type*} {step : σ → ι → Option σ} {met : ι → Prop}
    (steps : ∀ before i after, step before i = some after → met i) {items : List ι} {start result : σ}
    (folded : items.foldlM step start = some result) : ∀ i ∈ items, met i := by
  induction items generalizing start with
  | nil => nofun
  | cons i rest ih =>
    obtain ⟨middle, first, later⟩ := Option.bind_eq_some_iff.mp folded
    exact List.forall_mem_cons.mpr ⟨steps start i middle first, ih later⟩

theorem parseOptions_chars {options : Text} {flags : Bool × Bool} (found : parseOptions (some options) = some flags) :
    ∀ c ∈ options, OptionChar c := by
  have each : ∀ part ∈ options.splitOn ',', Text.trim part = "important".toList ∨ Text.trim part = "badfilter".toList := by
    refine @forall_of_foldlM _ _ _ (fun part => Text.trim part = _ ∨ Text.trim part = _) ?_ _ _ _ found
    intro before part after step
    dsimp only at step
    split at step
    · exact .inl ‹_›
    · split at step
      · exact .inr ‹_›
      · contradiction
  apply List.forall_of_splitOn
  intro part member c inside
  rcases mem_trim inside with inTrimmed | space
  · right
    rcases each part member with same | same
    · rw [same] at inTrimmed
      exact List.all_eq_true.mp (by decide : "important".toList.all Char.isLower = true) c inTrimmed
    · rw [same] at inTrimmed
      exact List.all_eq_true.mp (by decide : "badfilter".toList.all Char.isLower = true) c inTrimmed
  · exact .inl space

/-- A line that the adblock parser reads: a rule, perhaps followed by options. -/
structure RuleLine (line head options : Text) : Prop where
  split : line = head ++ options
  rule : RuleText head
  options : options = [] ∨ ∃ list, options = '$' :: list ∧ ∀ c ∈ list, OptionChar c

/-- What the parser does once the exception mark and the options are split off. -/
private theorem ruleLine_of_read {line front pattern name : Text} {options : Option Text} {exception badfilter : Bool}
    {kind : Kind} (split : line = front ++ (pattern ++ options.elim [] ('$' :: ·))) (plain : ∀ c ∈ front, Plain c)
    (found : (match parseOptions options with
      | none => .skip
      | some (important, badfilter) =>
          match parseRule exception pattern important with
          | none => .skip
          | some (kind, name) => .rule kind name badfilter) = Line.rule kind name badfilter) :
    ∃ head tail, RuleLine line head tail := by
  split at found
  · contradiction
  next important _ flags =>
  split at found
  · contradiction
  next parsed =>
  obtain ⟨chars, mark, member, marked⟩ := parseRule_ruleText parsed
  refine ⟨front ++ pattern, _, by rw [split, List.append_assoc], ⟨?_, ?_⟩, ?_⟩
  · intro c inside
    rcases List.mem_append.mp inside with inFront | inPattern
    · exact plain c inFront
    · exact chars c inPattern
  · exact ⟨mark, List.mem_append_right _ member, marked⟩
  · cases options with
    | none => exact .inl rfl
    | some list => exact .inr ⟨list, rfl, parseOptions_chars flags⟩

theorem splitOnce_eq_some {text first second : Text} {c : Char} (found : text.splitOnce c = some (first, second)) :
    text = first ++ c :: second ∧ c ∉ first := by
  unfold splitOnce at found
  split at found
  · next member =>
    obtain ⟨rfl, rfl⟩ := Prod.mk.inj (Option.some.inj found)
    obtain ⟨front, back, rfl, absent⟩ := List.eq_append_cons_of_mem member
    have different : ∀ d ∈ front, (d != c) = true := by
      intro d inside
      simp only [bne_iff_ne, ne_eq]
      rintro rfl
      exact absent inside
    have stop : (c != c) = false := bne_self_eq_false c
    rw [List.takeWhile_append_of_pos different, List.dropWhile_append_of_pos different,
      List.takeWhile_cons_of_neg (by simp), List.dropWhile_cons_of_neg (by simp), List.append_nil, List.tail_cons]
    exact ⟨rfl, absent⟩
  · contradiction

theorem parseAdblockLine_ruleLine {line name : Text} {kind : Kind} {badfilter : Bool}
    (found : parseAdblockLine line = .rule kind name badfilter) : ∃ head options, RuleLine line.trim head options := by
  simp only [parseAdblockLine] at found
  split at found
  · contradiction
  cases stripped : line.trim.stripPrefix ['@', '@'] with
  | some rule =>
    rw [stripped] at found
    dsimp only at found
    cases once : rule.splitOnce '$' with
    | some parts =>
      obtain ⟨pattern, options⟩ := parts
      rw [once] at found
      refine @ruleLine_of_read _ ['@', '@'] pattern _ (some options) _ _ _ ?_ (forall_of_all (by decide)) found
      rw [stripPrefix_eq_some_iff.mp stripped, (splitOnce_eq_some once).1]
      rfl
    | none =>
      rw [once] at found
      refine @ruleLine_of_read _ ['@', '@'] rule _ none _ _ _ ?_ (forall_of_all (by decide)) found
      rw [stripPrefix_eq_some_iff.mp stripped]
      simp
  | none =>
    rw [stripped] at found
    dsimp only at found
    cases once : line.trim.splitOnce '$' with
    | some parts =>
      obtain ⟨pattern, options⟩ := parts
      rw [once] at found
      exact @ruleLine_of_read _ [] pattern _ (some options) _ _ _ (splitOnce_eq_some once).1 nofun found
    | none =>
      rw [once] at found
      exact @ruleLine_of_read _ [] line.trim _ none _ _ _ (List.append_nil _).symm nofun found

/-- A character that is neither plain nor the start of options, before any options, is in no rule. -/
theorem not_ruleLine_of_stop {line front back head options : Text} {stop : Char} (split : line = front ++ stop :: back)
    (before : '$' ∉ front) (different : stop ≠ '$') (notPlain : ¬ Plain stop) : ¬ RuleLine line head options := by
  intro rule
  have starts : ∀ c ∈ options.head?, c = '$' := by
    rcases rule.options with none | ⟨list, some, -⟩
    · simp [none]
    · simp [some]
  rcases List.append_eq_append_iff.mp (rule.split.symm.trans split) with ⟨middle, rfl, same⟩ | ⟨middle, same, later⟩
  · cases middle with
    | nil => exact different (starts stop (by rw [same]; rfl))
    | cons c middle =>
      have dollar : c = '$' := starts c (by rw [same]; rfl)
      exact before (by simp [dollar])
  · cases middle with
    | nil => exact different (starts stop (by rw [← List.nil_append options, ← later]; rfl))
    | cons c middle =>
      obtain ⟨rfl, -⟩ := List.cons.inj later
      exact notPlain (rule.rule.1 _ (by simp [same]))

theorem isHostName_iff (field : Text) : isHostName field = true ↔ ¬ 253 < field.stripDot.len ∧
    (∀ label ∈ field.stripDot.splitOn '.', hostLabelOk label = true) ∧ 2 ≤ (field.stripDot.splitOn '.').length ∧
    ((field.stripDot.splitOn '.').getLastD []).all Char.isDigit = false := by
  simp only [isHostName]
  split
  · next long => simp [long]
  · next short =>
    rw [Bool.and_eq_true, Bool.and_eq_true, List.all_eq_true, decide_eq_true_eq, Bool.not_eq_true', and_assoc]
    exact (and_iff_right short).symm

theorem hostLabelOk_nameLabelOk {label : Text} (valid : hostLabelOk label = true) : nameLabelOk label = true := by
  simp only [hostLabelOk, nameLabelOk, Bool.and_eq_true] at valid ⊢
  refine ⟨⟨?_, valid.1.1⟩, valid.2⟩
  cases label with
  | nil => exact absurd valid.1.2 Bool.false_ne_true
  | cons c rest => rfl

/-- A host name of the detector is one of the parser. -/
theorem normalizeName_of_isHostName {field : Text} (accepted : isHostName field = true) :
    normalizeName field = some field.stripDot.toAsciiLowercase := by
  obtain ⟨short, labels, count, last⟩ := (isHostName_iff field).mp accepted
  have dot : '.' ∈ field.stripDot := by
    by_contra absent
    rw [List.splitOn_eq_singleton absent] at count
    exact absurd count (by simp)
  rw [List.all_eq_false] at last
  simp only [Bool.not_eq_true] at last
  refine normalizeName_eq_some_iff.mpr ⟨⟨Nat.le_of_not_lt short, dot, ?_, last⟩, rfl⟩
  exact fun label member => nameLabelOk_iff.mp (hostLabelOk_nameLabelOk (labels label member))

/-- A field that is read as a name is no address and has no colon. -/
theorem isIpAddr_of_normalizeName {field name : Text} (accepted : normalizeName field = some name) :
    IpAddr.isIpAddr field = false ∧ ':' ∉ field := by
  obtain ⟨site, -⟩ := normalizeName_eq_some_iff.mp accepted
  have chars := (normalizeName_chars accepted).1
  have absent : ':' ∉ field := fun member => absurd (chars ':' member).toNat (by decide)
  refine ⟨?_, absent⟩
  by_contra address
  have digits := isIpAddr_digits (Bool.not_eq_false _ ▸ address) absent
  have inside : ∀ c ∈ field.stripDot, c = '.' ∨ c.isDigit = true :=
    fun c member => (digits c (mem_of_mem_stripDot member)).symm
  have parts := List.forall_splitOn inside
  have member : (field.stripDot.splitOn '.').getLastD [] ∈ field.stripDot.splitOn '.' := by
    rw [List.getLastD_eq_getLast?, List.getLast?_eq_some_getLast (List.splitOn_ne_nil _ _), Option.getD_some]
    exact List.getLast_mem _
  obtain ⟨c, last, noDigit⟩ := site.last
  rw [parts _ member c last] at noDigit
  contradiction

theorem isIpAddr_of_isHostName {field : Text} (accepted : isHostName field = true) :
    IpAddr.isIpAddr field = false ∧ ':' ∉ field :=
  isIpAddr_of_normalizeName (normalizeName_of_isHostName accepted)

theorem trim_head {text : Text} {c : Char} (first : c ∈ text.trim.head?) : isWhitespace c = false := by
  obtain ⟨back, whole⟩ := List.rdropWhile_prefix isWhitespace (text.dropWhile isWhitespace)
  have start := List.head?_dropWhile_not isWhitespace text
  obtain ⟨rest, same⟩ := List.head?_eq_some_iff.mp first
  have front : (text.dropWhile isWhitespace).head? = some c := by
    rw [← whole]
    change (text.trim ++ back).head? = some c
    rw [same]
    rfl
  rw [front] at start
  simpa using start

/-- The first field of a trimmed line is its start. -/
theorem trim_eq_of_splitWhitespace {line first : Text} {fields : List Text}
    (split : line.trim.splitWhitespace = first :: fields) : ∃ back, line.trim = first ++ back ∧ first ≠ [] ∧
      (∀ c ∈ first, isWhitespace c = false) ∧ (∀ c ∈ back.head?, isWhitespace c = true) ∧
      back.splitWhitespace = fields := by
  obtain ⟨front, back, whole, seps, nonempty, plain, ends, rest⟩ := List.words_eq_cons split
  cases front with
  | nil => exact ⟨back, whole, nonempty, plain, ends, rest⟩
  | cons c front =>
    have start := trim_head (by rw [whole]; rfl : c ∈ line.trim.head?)
    rw [seps c (List.mem_cons_self ..)] at start
    contradiction

/-- The adblock parser skips hosts lines. -/
theorem parseAdblockLine_of_isHostsLine {line : Text} (hosts : isHostsLine line.trim = true) :
    ∀ head options, ¬ RuleLine line.trim head options := by
  intro head options
  unfold isHostsLine at hosts
  split at hosts
  · contradiction
  next first fields split =>
  obtain ⟨back, whole, nonempty, noSpace, ends, rest⟩ := trim_eq_of_splitWhitespace split
  have space : fields ≠ [] → '$' ∉ first → ¬ RuleLine line.trim head options := by
    intro more absent
    cases back with
    | nil => exact absurd rest.symm more
    | cons c back =>
      have white := ends c rfl
      apply not_ruleLine_of_stop whole absent
      · rintro rfl
        exact absurd white (by decide)
      · intro plain
        rw [plain.notWhitespace] at white
        contradiction
  split at hosts
  · next address =>
    have more : fields ≠ [] := by
      rintro rfl
      contradiction
    unfold isAddress at address
    split at address
    · next zoned zone once =>
      obtain ⟨same, -⟩ := splitOnce_eq_some once
      have stop : line.trim = zoned ++ '%' :: (zone ++ back) := by
        rw [whole, same, List.append_assoc, List.cons_append]
      apply not_ruleLine_of_stop stop
      · exact fun member => absurd (isIpv6Addr_plain address '$' member) (by decide)
      · decide
      · decide
    · exact space more fun member => absurd (isIpAddr_plain address '$' member) (by decide)
  · rw [Bool.and_eq_true] at hosts
    have chars := (normalizeName_chars (normalizeName_of_isHostName hosts.1)).1
    have absent : '$' ∉ first := fun member => absurd (chars '$' member).toNat (by decide)
    by_cases more : fields = []
    · intro rule
      obtain ⟨mark, member, marked⟩ := rule.rule.2
      have inLine : mark ∈ first ++ back := by
        rw [← whole, rule.split]
        exact List.mem_append_left _ member
      rcases List.mem_append.mp inLine with inFirst | inBack
      · exact (chars mark inFirst).notMarked marked
      · have white := List.seps_of_words_eq_nil (rest.trans more) mark inBack
        rw [(rule.rule.1 mark member).notWhitespace] at white
        contradiction
    · exact space more absent

theorem OptionChar.notDot {c : Char} (option : OptionChar c) : c ≠ '.' ∧ c ≠ '#' := by
  constructor
  · rintro rfl
    exact absurd option (by decide)
  · rintro rfl
    exact absurd option (by decide)

theorem hostsName_chars {field name : Text} (taken : hostsName field = some name) :
    (∀ c ∈ field, NameChar c) ∧ '.' ∈ field := by
  unfold hostsName at taken
  split at taken
  · contradiction
  · obtain ⟨chars, dot⟩ := normalizeName_chars taken
    exact ⟨chars, mem_of_mem_stripDot dot⟩

/-- The fields of a rule: the rule with the start of its options, and more options. -/
theorem RuleLine.fields {line head options : Text} (rule : RuleLine line head options) :
    ∃ first fields, line.splitWhitespace = first :: fields ∧ (∃ c ∈ first, Marked c) ∧
      ∀ field ∈ fields, '.' ∉ field := by
  obtain ⟨mark, member, marked⟩ := rule.rule.2
  have plain : ∀ c ∈ head ++ options.takeWhile (fun c => !isWhitespace c), isWhitespace c = false := by
    intro c inside
    rcases List.mem_append.mp inside with inHead | inOptions
    · exact (rule.rule.1 c inHead).notWhitespace
    · simpa using List.mem_takeWhile_imp inOptions
  have ends : ∀ c ∈ (options.dropWhile fun c => !isWhitespace c).head?, isWhitespace c = true := by
    intro c next
    have met := List.head?_dropWhile_not (fun c => !isWhitespace c) options
    rw [Option.mem_def.mp next] at met
    simpa using met
  refine ⟨head ++ options.takeWhile (fun c => !isWhitespace c),
    (options.dropWhile fun c => !isWhitespace c).words isWhitespace, ?_, ?_, ?_⟩
  · have whole : line = (head ++ options.takeWhile (fun c => !isWhitespace c)) ++
        options.dropWhile (fun c => !isWhitespace c) := by
      rw [List.append_assoc, List.takeWhile_append_dropWhile, rule.split]
    rw [splitWhitespace_eq, whole]
    exact List.words_append (List.ne_nil_of_mem (List.mem_append_left _ member)) plain ends
  · exact ⟨mark, List.mem_append_left _ member, marked⟩
  · intro field found dot
    have inOptions : '.' ∈ options := (List.dropWhile_sublist _).subset (List.mem_of_mem_words found '.' dot)
    rcases rule.options with rfl | ⟨list, rfl, chars⟩
    · exact absurd inOptions List.not_mem_nil
    · rcases List.mem_cons.mp inOptions with same | inList
      · exact absurd same (by decide)
      · exact (chars '.' inList).notDot.1 rfl

/-- A rule has no comment. -/
theorem RuleLine.takeWhile {line head options : Text} (rule : RuleLine line.trim head options) :
    line.takeWhile (· != '#') = line := by
  apply List.takeWhile_eq_self_iff.mpr
  intro c member
  rw [bne_iff_ne]
  rintro rfl
  rcases mem_trim member with inside | space
  · rw [rule.split, List.mem_append] at inside
    rcases inside with inHead | inOptions
    · exact absurd (rule.rule.1 '#' inHead) (by decide)
    · rcases rule.options with rfl | ⟨list, rfl, chars⟩
      · exact absurd inOptions List.not_mem_nil
      · rcases List.mem_cons.mp inOptions with same | inList
        · exact absurd same (by decide)
        · exact (chars '#' inList).notDot.2 rfl
  · exact absurd space (by decide)

/-- The hosts parser takes no name from a rule. -/
theorem hostsFields_of_ruleLine {line head options : Text} (rule : RuleLine line.trim head options) :
    hostsBlank line = false ∧ (hostsFields line).filterMap hostsName = [] := by
  obtain ⟨first, fields, split, ⟨mark, member, marked⟩, noDot⟩ := rule.fields
  unfold hostsBlank hostsFields
  rw [rule.takeWhile, split]
  refine ⟨rfl, ?_⟩
  have later : ∀ field ∈ fields, hostsName field = none := by
    intro field found
    rw [Option.eq_none_iff_forall_ne_some]
    exact fun name taken => noDot field found (hostsName_chars taken).2
  rw [List.filterMap_eq_nil_iff]
  dsimp only
  split
  · exact later
  · refine List.forall_mem_cons.mpr ⟨?_, later⟩
    rw [Option.eq_none_iff_forall_ne_some]
    exact fun name taken => ((hostsName_chars taken).1 mark member).notMarked marked

/-- The hosts parser reads a line with a single host name as that name. -/
theorem hostsFields_of_hostName {line first : Text} {fields : List Text}
    (split : line.trim.splitWhitespace = first :: fields) (accepted : isHostName first = true)
    (comment : ∀ field ∈ fields.head?, field.head? = some '#') : hostsFields line = [first] := by
  obtain ⟨noAddress, noColon⟩ := isIpAddr_of_isHostName accepted
  rw [splitWhitespace_trim] at split
  obtain ⟨front, back, rfl, seps, nonempty, noSpace, ends, rest⟩ := List.words_eq_cons split
  have chars := (normalizeName_chars (normalizeName_of_isHostName accepted)).1
  have noHash : '#' ∉ first := fun member => absurd (chars '#' member).toNat (by decide)
  have plain : ∀ text : Text, '#' ∉ text → ∀ c ∈ text, (c != '#') = true := by
    intro text absent c member
    rw [bne_iff_ne]
    rintro rfl
    exact absent member
  have spaces : ∀ text : Text, (∀ c ∈ text, isWhitespace c = true) → '#' ∉ text :=
    fun text white member => absurd (white '#' member) (by decide)
  have blank : ∀ c ∈ back.takeWhile (· != '#'), isWhitespace c = true := by
    cases fields with
    | nil => exact fun c member => List.seps_of_words_eq_nil rest c ((List.takeWhile_sublist _).subset member)
    | cons second fields =>
      obtain ⟨gap, behind, rfl, white, -⟩ := List.words_eq_cons rest
      obtain ⟨word, rfl⟩ := List.head?_eq_some_iff.mp (comment second rfl)
      rw [List.takeWhile_append_of_pos (plain gap (spaces gap white)), List.cons_append,
        List.takeWhile_cons_of_neg (by simp), List.append_nil]
      exact white
  have cut : (front ++ (first ++ back)).takeWhile (· != '#') = front ++ (first ++ back.takeWhile (· != '#')) := by
    rw [List.takeWhile_append_of_pos (plain front (spaces front seps)),
      List.takeWhile_append_of_pos (plain first noHash)]
  have words : (front ++ (first ++ back.takeWhile (· != '#'))).words isWhitespace = [first] := by
    rw [List.words_append_of_seps seps, List.words_append_seps _ blank, List.words_singleton nonempty noSpace]
  unfold hostsFields
  rw [cut, splitWhitespace_trim, splitWhitespace_eq, words]
  dsimp only
  rw [noAddress, List.contains_eq_mem, decide_eq_false noColon]
  rfl

end Tollgate
