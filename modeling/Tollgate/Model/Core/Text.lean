import Mathlib.Data.List.DropRight
import Mathlib.Data.List.Infix
import Mathlib.Data.UInt

/-! # Strings and byte strings of the host language

A string slice is its list of characters and a byte slice its list of bytes; `asBytes` is the UTF-8
encoding that relates them. The string operations below follow the standard library's documented
behavior: trimming and field splitting use Unicode white space, letter case is ASCII only, and the
length of a string counts bytes. Names and patterns are ASCII, where one character is one byte.
-/

namespace Tollgate

/-- A string slice, as its characters. -/
abbrev Text := List Char

/-- A byte slice. -/
abbrev Bytes := List UInt8

/-- ASCII lowercase of one byte. -/
def lowerByte (b : UInt8) : UInt8 := if 65 ≤ b ∧ b ≤ 90 then b + 32 else b

namespace Text

/-- Unicode `White_Space`, the characters `trim` and `split_whitespace` remove. -/
def isWhitespace (c : Char) : Bool :=
  let n := c.toNat
  (9 ≤ n && n ≤ 13) || n == 0x20 || n == 0x85 || n == 0xa0 || n == 0x1680 ||
    (0x2000 ≤ n && n ≤ 0x200a) || n == 0x2028 || n == 0x2029 || n == 0x202f || n == 0x205f || n == 0x3000

def trim (text : Text) : Text := (text.dropWhile isWhitespace).rdropWhile isWhitespace

def stripPrefix (text pattern : Text) : Option Text := text.dropPrefix? pattern

def stripSuffix (text pattern : Text) : Option Text := text.dropSuffix? pattern

/-- `text.strip_suffix('.').unwrap_or(text)`: one trailing dot removed. -/
def stripDot (text : Text) : Text := (stripSuffix text ['.']).getD text

/-- The parts around the first occurrence of a character. -/
def splitOnce (text : Text) (c : Char) : Option (Text × Text) :=
  if c ∈ text then some (text.takeWhile (· != c), (text.dropWhile (· != c)).tail) else none

/-- Lines end in `\n` or `\r\n`; the end of the last line is optional. -/
def lines (text : Text) : List Text :=
  let parts := text.splitOn '\n'
  let last := parts.getLastD []
  parts.dropLast.map (fun line => (stripSuffix line ['\r']).getD line) ++ (if last = [] then [] else [last])

def splitWhitespace (text : Text) : List Text := (text.splitOnP isWhitespace).filter (· ≠ [])

def toAsciiLowercase (text : Text) : Text := text.map Char.toLower

def eqIgnoreAsciiCase (left right : Text) : Bool := toAsciiLowercase left == toAsciiLowercase right

/-- The UTF-8 bytes of a string. -/
def asBytes (text : Text) : Bytes := text.flatMap String.utf8EncodeChar

/-- The length of a string counts bytes. -/
def len (text : Text) : ℕ := (asBytes text).length

/-- The string a byte slice encodes, if it is valid UTF-8. -/
def fromUtf8 (bytes : Bytes) : Option Text := bytes.toByteArray.utf8Decode?.map Array.toList

/-- A property of the characters of a literal, decided one by one. -/
theorem forall_of_all {p : Char → Prop} [DecidablePred p] {text : Text}
    (met : text.all (fun c => decide (p c)) = true) : ∀ c ∈ text, p c :=
  fun c member => of_decide_eq_true (List.all_eq_true.mp met c member)

theorem exists_of_any {p : Char → Prop} [DecidablePred p] {text : Text}
    (met : text.any (fun c => decide (p c)) = true) : ∃ c ∈ text, p c := by
  obtain ⟨c, member, holds⟩ := List.any_eq_true.mp met
  exact ⟨c, member, of_decide_eq_true holds⟩

theorem stripPrefix_eq_some_iff {text pattern rest : Text} :
    stripPrefix text pattern = some rest ↔ text = pattern ++ rest := by
  simp [stripPrefix, List.dropPrefix?_eq_some_iff]

theorem stripSuffix_eq_some_iff {text pattern rest : Text} :
    stripSuffix text pattern = some rest ↔ text = rest ++ pattern := by
  simp [stripSuffix, List.dropSuffix?_eq_some_iff]

theorem stripDot_append (text : Text) : stripDot (text ++ ['.']) = text := by
  rw [stripDot, stripSuffix_eq_some_iff.mpr rfl, Option.getD_some]

theorem stripDot_of_getLast? {text : Text} (other : text.getLast? ≠ some '.') : stripDot text = text := by
  unfold stripDot
  cases stripped : stripSuffix text ['.'] with
  | none => rfl
  | some rest =>
    rw [stripSuffix_eq_some_iff.mp stripped] at other
    exact absurd List.getLast?_concat other

theorem fromUtf8_asBytes (text : Text) : fromUtf8 (asBytes text) = some text := by
  have decoded := List.utf8Decode?_utf8Encode (l := text)
  rw [List.utf8Encode] at decoded
  simp [fromUtf8, asBytes, decoded]

theorem asBytes_of_fromUtf8 {bytes : Bytes} {text : Text} (decoded : fromUtf8 bytes = some text) :
    asBytes text = bytes := by
  obtain ⟨chars, utf8, rfl⟩ := Option.map_eq_some_iff.mp decoded
  obtain ⟨original, encoded⟩ := ByteArray.isSome_utf8Decode?_iff.mp (Option.isSome_of_eq_some utf8)
  rw [encoded, List.utf8Decode?_utf8Encode] at utf8
  obtain rfl := Option.some.inj utf8
  have same := congrArg (fun array => array.data.toList) encoded
  simpa [List.utf8Encode, asBytes] using same.symm

@[simp] theorem asBytes_nil : asBytes [] = [] := rfl

@[simp] theorem asBytes_append (left right : Text) : asBytes (left ++ right) = asBytes left ++ asBytes right := by
  simp [asBytes]

theorem asBytes_injective : Function.Injective asBytes := by
  intro left right same
  have decoded := congrArg fromUtf8 same
  rw [fromUtf8_asBytes, fromUtf8_asBytes] at decoded
  exact Option.some.inj decoded

/-- An ASCII character is its own single byte. -/
def Ascii (c : Char) : Prop := c.toNat < 128

instance (c : Char) : Decidable (Ascii c) := inferInstanceAs (Decidable (_ < _))

/-- The byte of an ASCII character. -/
def byte (c : Char) : UInt8 := c.val.toUInt8

theorem utf8EncodeChar_of_ascii {c : Char} (ascii : Ascii c) : String.utf8EncodeChar c = [byte c] := by
  apply String.utf8EncodeChar_eq_singleton
  have small : c.val ≤ 0x7f := UInt32.le_iff_toNat_le.mpr (Nat.le_of_lt_succ ascii)
  simp [Char.utf8Size, small]

theorem asBytes_cons {c : Char} (ascii : Ascii c) (rest : Text) : asBytes (c :: rest) = byte c :: asBytes rest := by
  have split : asBytes (c :: rest) = String.utf8EncodeChar c ++ asBytes rest := rfl
  rw [split, utf8EncodeChar_of_ascii ascii, List.singleton_append]

theorem asBytes_of_ascii {text : Text} (ascii : ∀ c ∈ text, Ascii c) : asBytes text = text.map byte := by
  induction text with
  | nil => rfl
  | cons c rest ih =>
    obtain ⟨head, tail⟩ := List.forall_mem_cons.mp ascii
    rw [asBytes_cons head, ih tail, List.map_cons]

theorem len_stripDot_le (text : Text) : len (stripDot text) ≤ len text := by
  unfold stripDot
  cases stripped : stripSuffix text ['.'] with
  | none => exact le_rfl
  | some rest =>
    rw [stripSuffix_eq_some_iff.mp stripped, Option.getD_some, len, len, asBytes_append, List.length_append]
    exact Nat.le_add_right ..

theorem len_of_ascii {text : Text} (ascii : ∀ c ∈ text, Ascii c) : len text = text.length := by
  rw [len, asBytes_of_ascii ascii, List.length_map]

theorem byte_toNat {c : Char} (ascii : Ascii c) : (byte c).toNat = c.toNat := by
  have bound : c.val.toNat < 128 := ascii
  change c.val.toNat % 2 ^ 8 = c.val.toNat
  omega

theorem byte_inj {c d : Char} (asciiC : Ascii c) (asciiD : Ascii d) (same : byte c = byte d) : c = d := by
  have nat := congrArg UInt8.toNat same
  rw [byte_toNat asciiC, byte_toNat asciiD] at nat
  exact Char.toNat_inj.mp nat

theorem toNat_toLower (c : Char) :
    c.toLower.toNat = if 65 ≤ c.toNat ∧ c.toNat ≤ 90 then c.toNat + 32 else c.toNat := by
  have condition : (c.val ≥ 'A'.val ∧ c.val ≤ 'Z'.val) ↔ (65 ≤ c.toNat ∧ c.toNat ≤ 90) := by
    rw [ge_iff_le, UInt32.le_iff_toNat_le, UInt32.le_iff_toNat_le]
    rfl
  unfold Char.toLower
  by_cases upper : 65 ≤ c.toNat ∧ c.toNat ≤ 90
  · rw [dif_pos (condition.mpr upper), if_pos upper]
    change (c.val + ('a'.val - 'A'.val)).toNat = c.val.toNat + 32
    have bound : c.val.toNat ≤ 90 := upper.2
    have delta : ('a'.val - 'A'.val).toNat = 32 := rfl
    rw [UInt32.toNat_add, delta]
    omega
  · rw [dif_neg (fun met => upper (condition.mp met)), if_neg upper]

theorem ascii_toLower {c : Char} (ascii : Ascii c) : Ascii c.toLower := by
  have bound : c.toNat < 128 := ascii
  change c.toLower.toNat < 128
  rw [toNat_toLower]
  split <;> omega

theorem toNat_lowerByte (b : UInt8) :
    (lowerByte b).toNat = if 65 ≤ b.toNat ∧ b.toNat ≤ 90 then b.toNat + 32 else b.toNat := by
  have condition : (65 ≤ b ∧ b ≤ 90) ↔ (65 ≤ b.toNat ∧ b.toNat ≤ 90) := by
    rw [UInt8.le_iff_toNat_le, UInt8.le_iff_toNat_le]
    rfl
  unfold lowerByte
  by_cases upper : 65 ≤ b.toNat ∧ b.toNat ≤ 90
  · rw [if_pos (condition.mpr upper), if_pos upper, UInt8.toNat_add]
    change (b.toNat + 32) % 256 = b.toNat + 32
    omega
  · rw [if_neg (fun met => upper (condition.mp met)), if_neg upper]

theorem byte_toLower {c : Char} (ascii : Ascii c) : byte c.toLower = lowerByte (byte c) := by
  apply UInt8.toNat_inj.mp
  rw [byte_toNat (ascii_toLower ascii), toNat_toLower, toNat_lowerByte, byte_toNat ascii]

theorem lowerByte_idem (b : UInt8) : lowerByte (lowerByte b) = lowerByte b := by
  apply UInt8.toNat_inj.mp
  rw [toNat_lowerByte, toNat_lowerByte]
  split_ifs <;> omega

/-- Every byte of a character that is not ASCII is large. -/
theorem le_of_mem_utf8EncodeChar {c : Char} (other : ¬ Ascii c) : ∀ b ∈ String.utf8EncodeChar c, 128 ≤ b.toNat := by
  have large : ¬ c.val.toNat ≤ 127 := fun small => other (Nat.lt_succ_of_le small)
  rw [String.utf8EncodeChar.eq_1, if_neg large]
  split_ifs <;>
    simp only [List.forall_mem_cons, UInt8.toNat_ofNat', List.not_mem_nil, false_implies, implies_true, and_true] <;>
    omega

theorem lower_utf8EncodeChar (c : Char) : (String.utf8EncodeChar c).map lowerByte = String.utf8EncodeChar c.toLower := by
  by_cases ascii : Ascii c
  · rw [utf8EncodeChar_of_ascii ascii, utf8EncodeChar_of_ascii (ascii_toLower ascii), List.map_singleton,
      byte_toLower ascii]
  · have same : c.toLower = c := by
      have large : ¬ c.toNat < 128 := ascii
      apply Char.toNat_inj.mp
      rw [toNat_toLower, if_neg (by omega)]
    rw [same]
    refine (List.map_congr_left ?_).trans (List.map_id _)
    intro b member
    have large := le_of_mem_utf8EncodeChar ascii b member
    apply UInt8.toNat_inj.mp
    rw [toNat_lowerByte, if_neg (by omega), id]

/-- Letter case is the same for characters and for bytes. -/
theorem asBytes_toAsciiLowercase (text : Text) : asBytes text.toAsciiLowercase = (asBytes text).map lowerByte := by
  rw [asBytes, toAsciiLowercase, List.flatMap_map, asBytes, List.map_flatMap]
  exact List.flatMap_congr fun c _ => (lower_utf8EncodeChar c).symm

/-- An ASCII byte in a string is a character of its own. -/
theorem asBytes_eq_append_iff {text : Text} {c : Char} (ascii : Ascii c) {front back : Bytes} :
    asBytes text = front ++ byte c :: back ↔
      ∃ before after, text = before ++ c :: after ∧ asBytes before = front ∧ asBytes after = back := by
  constructor
  · intro split
    induction text generalizing front with
    | nil => simp at split
    | cons d rest ih =>
      have first : asBytes (d :: rest) = String.utf8EncodeChar d ++ asBytes rest := rfl
      rw [first] at split
      by_cases single : Ascii d
      · rw [utf8EncodeChar_of_ascii single, List.singleton_append] at split
        cases front with
        | nil =>
          obtain ⟨same, rfl⟩ := List.cons.inj split
          obtain rfl := byte_inj single ascii same
          exact ⟨[], rest, rfl, rfl, rfl⟩
        | cons b front =>
          obtain ⟨rfl, later⟩ := List.cons.inj split
          obtain ⟨before, after, rfl, rfl, rfl⟩ := ih later
          exact ⟨d :: before, after, rfl, asBytes_cons single before, rfl⟩
      · rcases List.append_eq_append_iff.mp split with ⟨middle, rfl, later⟩ | ⟨middle, bytes, later⟩
        · obtain ⟨before, after, rfl, rfl, rfl⟩ := ih later
          exact ⟨d :: before, after, rfl, rfl, rfl⟩
        · cases middle with
          | nil =>
            obtain ⟨before, after, rfl, empty, rfl⟩ := @ih [] later.symm
            refine ⟨d :: before, after, rfl, ?_, rfl⟩
            have whole : asBytes (d :: before) = String.utf8EncodeChar d ++ asBytes before := rfl
            rw [whole, empty, bytes, List.append_nil, List.append_nil]
          | cons b middle =>
            obtain ⟨rfl, -⟩ := List.cons.inj later
            have large := le_of_mem_utf8EncodeChar single (byte c) (by simp [bytes])
            rw [byte_toNat ascii] at large
            exact absurd ascii (Nat.not_lt.mpr large)
  · rintro ⟨before, after, rfl, rfl, rfl⟩
    rw [asBytes_append, asBytes_cons ascii]

end Text

end Tollgate
