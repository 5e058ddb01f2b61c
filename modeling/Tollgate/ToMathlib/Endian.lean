import Mathlib.Tactic.Ring
import Mathlib.Data.UInt

/-! # Fixed-width integers as bytes

Little-endian and big-endian encodings of a natural number in a given number of bytes. Encoding
keeps the number modulo the width and decoding inverts it on byte lists of that width.
-/

namespace Endian

/-- The lowest `width` bytes of a number, least significant first. -/
def leBytes : ℕ → ℕ → List UInt8
  | 0, _ => []
  | width + 1, n => UInt8.ofNat n :: leBytes width (n / 256)

/-- The number a byte list denotes, least significant byte first. -/
def ofLe : List UInt8 → ℕ
  | [] => 0
  | byte :: rest => byte.toNat + 256 * ofLe rest

/-- The lowest `width` bytes of a number, most significant first. -/
def beBytes (width n : ℕ) : List UInt8 := (leBytes width n).reverse

/-- The number a byte list denotes, most significant byte first. -/
def ofBe (bytes : List UInt8) : ℕ := ofLe bytes.reverse

@[simp] theorem length_leBytes (width n : ℕ) : (leBytes width n).length = width := by
  induction width generalizing n with
  | zero => rfl
  | succ width ih => simp [leBytes, ih]

@[simp] theorem length_beBytes (width n : ℕ) : (beBytes width n).length = width := by
  simp [beBytes]

theorem ofLe_lt (bytes : List UInt8) : ofLe bytes < 256 ^ bytes.length := by
  induction bytes with
  | nil => simp [ofLe]
  | cons byte rest ih =>
    have bound : byte.toNat < 256 := byte.toNat_lt
    rw [ofLe, List.length_cons, pow_succ]
    omega

theorem ofLe_leBytes (width n : ℕ) : ofLe (leBytes width n) = n % 256 ^ width := by
  induction width generalizing n with
  | zero => simp [leBytes, ofLe, Nat.mod_one]
  | succ width ih =>
    have byte : (UInt8.ofNat n).toNat = n % 256 := by simp
    rw [leBytes, ofLe, ih, byte, pow_succ, Nat.mul_comm (256 ^ width) 256, Nat.mod_mul]

theorem ofLe_leBytes_of_lt {width n : ℕ} (fits : n < 256 ^ width) : ofLe (leBytes width n) = n := by
  rw [ofLe_leBytes, Nat.mod_eq_of_lt fits]

theorem leBytes_ofLe (bytes : List UInt8) : leBytes bytes.length (ofLe bytes) = bytes := by
  induction bytes with
  | nil => rfl
  | cons byte rest ih =>
    have bound : byte.toNat < 256 := byte.toNat_lt
    have head : UInt8.ofNat (byte.toNat + 256 * ofLe rest) = byte := by
      apply UInt8.toNat_inj.mp
      simp only [UInt8.toNat_ofNat']
      omega
    have tail : (byte.toNat + 256 * ofLe rest) / 256 = ofLe rest := by omega
    rw [List.length_cons, ofLe, leBytes, head, tail, ih]

theorem ofBe_lt (bytes : List UInt8) : ofBe bytes < 256 ^ bytes.length := by
  simpa [ofBe] using ofLe_lt bytes.reverse

theorem ofBe_beBytes_of_lt {width n : ℕ} (fits : n < 256 ^ width) : ofBe (beBytes width n) = n := by
  simp [ofBe, beBytes, ofLe_leBytes_of_lt fits]

theorem beBytes_ofBe (bytes : List UInt8) : beBytes bytes.length (ofBe bytes) = bytes := by
  have round := leBytes_ofLe bytes.reverse
  rw [List.length_reverse] at round
  rw [beBytes, ofBe, round, List.reverse_reverse]

end Endian
