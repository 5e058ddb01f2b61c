import Mathlib.Data.Nat.Digits.Defs
import Tollgate.Model.Policy.Policy
import Tollgate.ToMathlib.PrefixCode

/-! # A reference for the JSON library

The file of learned pins as compact JSON text. The text determines the file it was printed from, so the
inverse of printing parses what is printed, as it is assumed of the library.
-/

namespace Tollgate.PinsJson

open PrefixCode

/-- A character of a JSON string. -/
def escape (c : Char) : Text :=
  if c = '"' ∨ c = '\\' then ['\\', c]
  else if c.toNat < 32 then ['\\', 'u', '0', '0', (c.toNat / 16).digitChar, (c.toNat % 16).digitChar]
  else [c]

def printString (text : Text) : Text := '"' :: text.flatMap escape ++ ['"']

def printNumber (n : ℕ) : Text := if n = 0 then ['0'] else ((Nat.digits 10 n).map Nat.digitChar).reverse

/-- The text in front of a value. -/
def hostKey : Text := "\x7b\"host\":".toList
def learnedAtKey : Text := ",\"learned_at\":".toList
def versionKey : Text := "\x7b\"version\":".toList
def pinsKey : Text := "\"pins\":".toList

def printEntry (entry : PinEntry) : Text :=
  hostKey ++ printString entry.host ++ learnedAtKey ++ printNumber entry.learnedAt.toNat ++ ['}']

/-- The rest of an array. -/
def printRest : List PinEntry → Text
  | [] => [']']
  | entry :: rest => ',' :: printEntry entry ++ printRest rest

def printEntries : List PinEntry → Text
  | [] => ['[', ']']
  | entry :: rest => '[' :: printEntry entry ++ printRest rest

def print (file : PinsFile) : Text :=
  versionKey ++ printNumber file.version.toNat ++ [','] ++ pinsKey ++ printEntries file.pins ++ ['}']

theorem digitChar_inj : ∀ a b : Fin 16, Nat.digitChar a = Nat.digitChar b → a = b := by decide

theorem readable_escape : Readable escape := by
  intro c d rest other same
  unfold escape at same
  split_ifs at same with quoted quoted' control' control quoted' control' quoted' control'
  · simpa using same
  · simp only [List.cons_append, List.cons.injEq] at same
    obtain ⟨-, rfl, -⟩ := same
    simp at quoted
  · simp only [List.cons_append, List.cons.injEq] at same
    exact absurd (.inr same.1.symm) quoted'
  · simp only [List.cons_append, List.cons.injEq] at same
    obtain ⟨-, rfl, -⟩ := same
    simp at quoted'
  · simp only [List.cons_append, List.nil_append, List.cons.injEq, true_and] at same
    obtain ⟨high, low, rfl⟩ := same
    have first := digitChar_inj ⟨c.toNat / 16, by omega⟩ ⟨d.toNat / 16, by omega⟩ high
    have second := digitChar_inj ⟨c.toNat % 16, by omega⟩ ⟨d.toNat % 16, by omega⟩ low
    simp only [Fin.mk.injEq] at first second
    exact ⟨Char.toNat_inj.mp (by omega), rfl⟩
  · simp only [List.cons_append, List.cons.injEq] at same
    exact absurd (.inr same.1.symm) quoted'
  · simp only [List.cons_append, List.cons.injEq] at same
    exact absurd (.inr same.1) quoted
  · simp only [List.cons_append, List.cons.injEq] at same
    exact absurd (.inr same.1) quoted
  · simpa using same

/-- No character is printed as a quote. -/
theorem escape_ne_quote (c : Char) (rest other : Text) : escape c ++ rest ≠ '"' :: other := by
  unfold escape
  split_ifs with quoted
  · simp
  · simp
  · intro same
    exact quoted (.inl (List.cons.inj same).1)

theorem escaped_inj {text text' rest other : Text}
    (same : text.flatMap escape ++ '"' :: rest = text'.flatMap escape ++ '"' :: other) : text = text' ∧ rest = other := by
  induction text generalizing text' with
  | nil =>
    cases text' with
    | nil => exact ⟨rfl, (List.cons.inj same).2⟩
    | cons d text' =>
      rw [List.flatMap_cons, List.append_assoc] at same
      exact absurd same.symm (escape_ne_quote d _ _)
  | cons c text ih =>
    rw [List.flatMap_cons, List.append_assoc] at same
    cases text' with
    | nil => exact absurd same (escape_ne_quote c _ _)
    | cons d text' =>
      rw [List.flatMap_cons, List.append_assoc] at same
      obtain ⟨rfl, later⟩ := readable_escape same
      obtain ⟨rfl, ends⟩ := ih later
      exact ⟨rfl, ends⟩

theorem readable_printString : Readable printString := by
  intro text text' rest other same
  simp only [printString, List.cons_append, List.append_assoc, List.nil_append, List.cons.injEq, true_and] at same
  exact escaped_inj same

theorem isDigit_digitChar : ∀ d : Fin 10, (Nat.digitChar d).isDigit = true := by decide

theorem printNumber_digits (n : ℕ) : ∀ c ∈ printNumber n, c.isDigit = true := by
  unfold printNumber
  split
  · simp
  · intro c member
    obtain ⟨d, digit, rfl⟩ := List.mem_map.mp (List.mem_reverse.mp member)
    exact isDigit_digitChar ⟨d, Nat.digits_lt_base (by omega) digit⟩

theorem printNumber_injective : Function.Injective printNumber := by
  apply Function.LeftInverse.injective (g := fun text => Nat.ofDigits 10 (text.reverse.map fun c => c.toNat - 48))
  intro n
  dsimp only [printNumber]
  split
  · next zero => rw [zero]; rfl
  · rw [List.reverse_reverse, List.map_map]
    have digits : (Nat.digits 10 n).map ((fun c : Char => c.toNat - 48) ∘ Nat.digitChar) = Nat.digits 10 n := by
      refine Eq.trans (List.map_congr_left fun d digit => ?_) (List.map_id _)
      have small : d < 10 := Nat.digits_lt_base (by omega) digit
      rw [Function.comp_apply, Nat.toNat_digitChar_of_lt_ten small]
      exact Nat.add_sub_cancel_left ..
    rw [digits, Nat.ofDigits_digits]

/-- A number ends where something that is not a digit follows. -/
theorem number_inj {n m : ℕ} {c d : Char} {rest other : Text} (stop : c.isDigit = false) (stop' : d.isDigit = false)
    (same : printNumber n ++ c :: rest = printNumber m ++ d :: other) : n = m ∧ rest = other := by
  have front (k : ℕ) (e : Char) (more : Text) (ends : e.isDigit = false) :
      (printNumber k ++ e :: more).takeWhile Char.isDigit = printNumber k := by
    rw [List.takeWhile_append_of_pos (printNumber_digits k), List.takeWhile_cons_of_neg (by simp [ends]), List.append_nil]
  have number : printNumber n = printNumber m := by
    rw [← front n c rest stop, same, front m d other stop']
  rw [number] at same
  exact ⟨printNumber_injective number, (List.cons.inj (List.append_cancel_left same)).2⟩

theorem readable_printEntry : Readable printEntry := by
  rintro ⟨host, at_⟩ ⟨host', at_'⟩ rest other same
  simp only [printEntry, List.append_assoc] at same
  have text := List.append_cancel_left same
  obtain ⟨rfl, later⟩ := readable_printString text
  have tail := List.append_cancel_left later
  simp only [List.cons_append, List.nil_append] at tail
  obtain ⟨number, ends⟩ := number_inj (by decide) (by decide) tail
  obtain rfl := UInt64.toNat_inj.mp number
  exact ⟨rfl, ends⟩

theorem readable_printRest : Readable printRest := by
  intro entries entries' rest other same
  induction entries generalizing entries' with
  | nil =>
    cases entries' with
    | nil => exact ⟨rfl, (List.cons.inj same).2⟩
    | cons => exact absurd (List.cons.inj same).1 (by decide)
  | cons entry entries ih =>
    cases entries' with
    | nil => exact absurd (List.cons.inj same).1 (by decide)
    | cons entry' entries' =>
      simp only [printRest, List.cons_append, List.append_assoc, List.cons.injEq, true_and] at same
      obtain ⟨rfl, later⟩ := readable_printEntry same
      obtain ⟨rfl, ends⟩ := ih later
      exact ⟨rfl, ends⟩

theorem readable_printEntries : Readable printEntries := by
  intro entries entries' rest other same
  cases entries with
  | nil =>
    cases entries' with
    | nil => exact ⟨rfl, (List.cons.inj (List.cons.inj same).2).2⟩
    | cons => exact absurd (List.cons.inj (List.cons.inj same).2).1 (by decide)
  | cons entry entries =>
    cases entries' with
    | nil => exact absurd (List.cons.inj (List.cons.inj same).2).1 (by decide)
    | cons entry' entries' =>
      simp only [printEntries, List.cons_append, List.append_assoc, List.cons.injEq, true_and] at same
      obtain ⟨rfl, later⟩ := readable_printEntry same
      obtain ⟨rfl, ends⟩ := readable_printRest later
      exact ⟨rfl, ends⟩

/-- The text of a file determines the file. -/
theorem print_injective : Function.Injective print := by
  rintro ⟨version, pins⟩ ⟨version', pins'⟩ same
  simp only [print, List.append_assoc] at same
  have tail := List.append_cancel_left same
  simp only [List.cons_append, List.nil_append] at tail
  obtain ⟨number, later⟩ := number_inj (by decide) (by decide) tail
  obtain rfl := UInt32.toNat_inj.mp number
  have array := List.append_cancel_left later
  obtain ⟨rfl, -⟩ := readable_printEntries array
  rfl

/-- Prints JSON, and parses what was printed. -/
noncomputable def format : PinsFormat := ⟨print, Function.partialInv print⟩

theorem format_faithful : format.Faithful := Function.partialInv_left print_injective

end Tollgate.PinsJson
