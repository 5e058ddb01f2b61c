import Tollgate.Model.Filter.DomainRules
import Tollgate.Proofs.Filter.GlobScan

/-! # Stored names and patterns

What the lists contribute is lowercase ASCII: a name has at least one dot and labels of letters,
digits, `-` and `_`, and a pattern may also hold `*`. On such text one character is one byte, so a
byte comparison, a byte scan and a byte suffix all mean what they mean for the characters.
-/

namespace Tollgate

open Text

/-- The characters of stored names and patterns. -/
def StoredChar (c : Char) : Prop := c.isLower ∨ c.isDigit ∨ c = '-' ∨ c = '_' ∨ c = '*' ∨ c = '.'

theorem isLower_iff (c : Char) : c.isLower = true ↔ 97 ≤ c.toNat ∧ c.toNat ≤ 122 := by
  change (decide (c.val ≥ 97) && decide (c.val ≤ 122)) = true ↔ _
  simp only [Bool.and_eq_true, decide_eq_true_eq, ge_iff_le, UInt32.le_iff_toNat_le]
  rfl

theorem isDigit_iff (c : Char) : c.isDigit = true ↔ 48 ≤ c.toNat ∧ c.toNat ≤ 57 := by
  simp only [Char.isDigit, Bool.and_eq_true, decide_eq_true_eq, ge_iff_le, UInt32.le_iff_toNat_le]
  rfl

theorem isUpper_iff (c : Char) : c.isUpper = true ↔ 65 ≤ c.toNat ∧ c.toNat ≤ 90 := by
  change decide (c.val ≥ 65 ∧ c.val ≤ 90) = true ↔ _
  simp only [decide_eq_true_eq, ge_iff_le, UInt32.le_iff_toNat_le]
  rfl

theorem isAlphanum_iff (c : Char) : c.isAlphanum = true ↔
    ((65 ≤ c.toNat ∧ c.toNat ≤ 90) ∨ 97 ≤ c.toNat ∧ c.toNat ≤ 122) ∨ 48 ≤ c.toNat ∧ c.toNat ≤ 57 := by
  change ((c.isUpper || c.isLower) || c.isDigit) = true ↔ _
  rw [Bool.or_eq_true, Bool.or_eq_true, isUpper_iff, isLower_iff, isDigit_iff]

/-- The codes of stored characters: no capital letters, and nothing above `z`. -/
theorem StoredChar.toNat {c : Char} (stored : StoredChar c) :
    c.toNat < 123 ∧ ¬ (65 ≤ c.toNat ∧ c.toNat ≤ 90) ∧ 42 ≤ c.toNat := by
  rcases stored with lower | digit | rfl | rfl | rfl | rfl
  · have bounds := (isLower_iff c).mp lower
    omega
  · have bounds := (isDigit_iff c).mp digit
    omega
  all_goals decide

theorem StoredChar.ascii {c : Char} (stored : StoredChar c) : Ascii c := by
  have bounds := stored.toNat
  change c.toNat < 128
  omega

theorem StoredChar.toLower_eq {c : Char} (stored : StoredChar c) : c.toLower = c := by
  apply Char.toNat_inj.mp
  rw [toNat_toLower, if_neg stored.toNat.2.1]

theorem StoredChar.ne_bar {c : Char} (stored : StoredChar c) : c ≠ '|' := by
  rintro rfl
  exact absurd stored.toNat.1 (by decide)

theorem StoredChar.ne_newline {c : Char} (stored : StoredChar c) : c ≠ '\n' := by
  rintro rfl
  exact absurd stored.toNat.2.2 (by decide)

/-- Text of stored characters only. -/
def Stored (text : Text) : Prop := ∀ c ∈ text, StoredChar c

theorem Stored.asBytes_eq {text : Text} (stored : Stored text) : text.asBytes = text.map byte :=
  asBytes_of_ascii fun c member => (stored c member).ascii

theorem Stored.lower_eq {text : Text} (stored : Stored text) : text.asBytes.map lowerByte = text.asBytes := by
  rw [stored.asBytes_eq, List.map_map]
  apply List.map_congr_left
  intro c member
  rw [Function.comp_apply, ← byte_toLower (stored c member).ascii, (stored c member).toLower_eq]

theorem Stored.sublist {text part : Text} (stored : Stored text) (inside : part.Sublist text) : Stored part :=
  fun c member => stored c (inside.subset member)

/-- On stored text the scan over bytes decides the glob over characters. -/
theorem globMatches_stored {glob text : Text} (stored : Stored glob) (name : Stored text) :
    GlobMatches glob.asBytes text.asBytes ↔ Glob.Matches '*' glob text := by
  rw [GlobMatches, name.lower_eq, stored.asBytes_eq, name.asBytes_eq]
  exact Glob.Matches.map_iff (f := byte) (p := StoredChar)
    (fun _ _ first second same => byte_inj first.ascii second.ascii same) (.inr (.inr (.inr (.inr (.inl rfl)))))
    stored name

/-- The bytes after a dot are the bytes of the name after that dot. -/
theorem under_asBytes_iff {name : Text} (stored : Stored name) {tail : Bytes} :
    List.Under dotByte tail name.asBytes ↔ ∃ part : Text, List.Under '.' part name ∧ tail = part.asBytes := by
  have only : ∀ c ∈ name, byte c = byte '.' → c = '.' :=
    fun c member same => byte_inj (stored c member).ascii (by decide) same
  rw [stored.asBytes_eq]
  refine (List.under_map_iff only).trans ?_
  constructor
  · rintro ⟨part, under, rfl⟩
    exact ⟨part, under, (stored.sublist under.suffix.sublist).asBytes_eq.symm⟩
  · rintro ⟨part, under, rfl⟩
    exact ⟨part, under, (stored.sublist under.suffix.sublist).asBytes_eq⟩

/-- A stored name or pattern: lowercase, with at least one dot. -/
structure StoredName (name : Text) : Prop where
  stored : Stored name
  dot : '.' ∈ name

theorem toLower_of_alphanum {c : Char} (alphanum : c.isAlphanum = true) :
    c.toLower.isLower = true ∨ c.toLower.isDigit = true := by
  rw [isAlphanum_iff] at alphanum
  simp only [isLower_iff, isDigit_iff, toNat_toLower]
  split <;> omega

/-- A host name as lists may hold it: two or more labels of letters, digits, `-` and `_`, with the lengths that
DNS allows, and a last label that is not a number. -/
structure IsSite (name : Text) : Prop where
  short : name.len ≤ 253
  dot : '.' ∈ name
  labels : ∀ label ∈ name.splitOn '.', label ≠ [] ∧ Text.len label ≤ 63 ∧
    ∀ c ∈ label, c.isAlphanum = true ∨ c = '-' ∨ c = '_'
  last : ∃ c ∈ (name.splitOn '.').getLastD [], c.isDigit = false

theorem nameLabelOk_iff {label : Text} : nameLabelOk label = true ↔
    label ≠ [] ∧ label.len ≤ 63 ∧ ∀ c ∈ label, c.isAlphanum = true ∨ c = '-' ∨ c = '_' := by
  simp only [nameLabelOk, Bool.and_eq_true, Bool.not_eq_true', List.isEmpty_eq_false_iff, decide_eq_true_eq,
    List.all_eq_true, Bool.or_eq_true, beq_iff_eq, and_assoc, or_assoc, ne_eq]

/-- Which names are accepted, and as what. -/
theorem normalizeName_eq_some_iff {raw name : Text} :
    normalizeName raw = some name ↔ IsSite raw.stripDot ∧ raw.stripDot.toAsciiLowercase = name := by
  simp only [normalizeName]
  split
  · next sized =>
    refine ⟨nofun, ?_⟩
    rintro ⟨site, -⟩
    rcases sized with long | noDot
    · exact absurd site.short (Nat.not_le_of_lt long)
    · exact absurd site.dot noDot
  next sized =>
  split
  · next labels =>
    refine ⟨nofun, ?_⟩
    rintro ⟨site, -⟩
    rw [List.all_eq_true.mpr fun label member => nameLabelOk_iff.mpr (site.labels label member)] at labels
    contradiction
  next labels =>
  split
  · next digits =>
    refine ⟨nofun, ?_⟩
    rintro ⟨site, -⟩
    obtain ⟨c, inside, noDigit⟩ := site.last
    exact absurd (List.all_eq_true.mp digits c inside) (by rw [noDigit]; exact Bool.false_ne_true)
  next digits =>
    obtain ⟨short, dot⟩ := not_or.mp sized
    rw [Bool.not_eq_true', Bool.not_eq_false, List.all_eq_true] at labels
    rw [Bool.not_eq_true, List.all_eq_false] at digits
    simp only [Bool.not_eq_true] at digits
    have site : IsSite raw.stripDot := ⟨Nat.le_of_not_lt short, not_not.mp dot,
      fun label member => nameLabelOk_iff.mp (labels label member), digits⟩
    rw [Option.some_inj, and_iff_right site]

theorem normalizeName_stored {raw name : Text} (accepted : normalizeName raw = some name) : StoredName name := by
  obtain ⟨site, rfl⟩ := normalizeName_eq_some_iff.mp accepted
  have chars : ∀ c ∈ raw.stripDot, c = '.' ∨ StoredChar c.toLower := by
    apply List.forall_of_splitOn
    intro label member c inside
    rcases (site.labels label member).2.2 c inside with alphanum | rfl | rfl
    · rcases toLower_of_alphanum alphanum with lower | digit
      · exact .inl lower
      · exact .inr (.inl digit)
    · exact .inr (.inr (.inl rfl))
    · exact .inr (.inr (.inr (.inl rfl)))
  constructor
  · intro c member
    obtain ⟨original, inside, rfl⟩ := List.mem_map.mp member
    rcases chars original inside with rfl | stored
    · exact .inr (.inr (.inr (.inr (.inr rfl))))
    · exact stored
  · exact List.mem_map.mpr ⟨'.', site.dot, rfl⟩

theorem isValidPattern_stored {pattern : Text} (valid : isValidPattern pattern = true) : StoredName pattern := by
  simp only [isValidPattern, Bool.and_eq_true, List.all_eq_true, List.contains_iff_mem] at valid
  obtain ⟨⟨⟨⟨_, dot⟩, _⟩, labels⟩, _⟩ := valid
  refine ⟨fun c member => ?_, dot⟩
  have chars : ∀ c ∈ pattern, c = '.' ∨ StoredChar c := by
    refine List.forall_of_splitOn fun label inside c member => ?_
    have ok := labels label inside
    simp only [patternLabelOk, Bool.and_eq_true, List.all_eq_true, Bool.or_eq_true, beq_iff_eq] at ok
    rcases ok.2 c member with (((lower | digit) | rfl) | rfl) | rfl
    · exact .inl lower
    · exact .inr (.inl digit)
    · exact .inr (.inr (.inl rfl))
    · exact .inr (.inr (.inr (.inl rfl)))
    · exact .inr (.inr (.inr (.inr (.inl rfl))))
  rcases chars c member with rfl | stored
  · exact .inr (.inr (.inr (.inr (.inr rfl))))
  · exact stored

theorem isValidPattern_len {pattern : Text} (valid : isValidPattern pattern = true) : pattern.len ≤ 253 := by
  simp only [isValidPattern, Bool.and_eq_true, decide_eq_true_eq] at valid
  exact valid.1.1.1.1

end Tollgate
