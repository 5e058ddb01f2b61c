import Tollgate.Model.Core.Text

/-! # Textual IP addresses

The standard library's address parser, as far as acceptance goes: four decimal octets without
leading zeros, or up to eight groups of hexadecimal digits with one `::` and an optional embedded
IPv4 tail. A reader consumes a front of its input and returns what is left; a failed reader
consumes nothing.
-/

namespace Tollgate.IpAddr

/-- `char::to_digit` for radix 10 and 16. -/
def toDigit (radix : ℕ) (c : Char) : Option ℕ :=
  let n := c.toNat
  let value :=
    if 48 ≤ n ∧ n ≤ 57 then some (n - 48)
    else if 97 ≤ n ∧ n ≤ 122 then some (n - 97 + 10)
    else if 65 ≤ n ∧ n ≤ 90 then some (n - 65 + 10)
    else none
  value.filter (· < radix)

/-- The number the leading digits spell, `limit` being one more than the largest the type holds. -/
def readNumber (radix maxDigits limit : ℕ) (allowZeroPrefix : Bool) (input : Text) : Option Text :=
  let digits := input.takeWhile (fun c => (toDigit radix c).isSome)
  let value := digits.foldl (fun result c => result * radix + (toDigit radix c).getD 0) 0
  if maxDigits < digits.length ∨ digits.length = 0 then none
  else if !allowZeroPrefix && input.head? == some '0' && 1 < digits.length then none
  else if limit ≤ value then none
  else some (input.drop digits.length)

/-- Every element of a sequence but the first follows a separator. -/
def readSeparator (separator : Char) (index : ℕ) (inner : Text → Option Text) (input : Text) : Option Text :=
  if 0 < index then (input.stripPrefix [separator]).bind inner else inner input

def readIpv4 (input : Text) : Option Text :=
  (List.range 4).foldlM (fun rest i => readSeparator '.' i (readNumber 10 3 256 false) rest) input

/-- Reads groups from slot `i` on while `remaining` slots are left; an embedded IPv4 address fills
two and ends the sequence. Returns the slots filled and whether such an address was read. -/
def readGroups : ℕ → ℕ → Text → ℕ × Bool × Text
  | i, 0, input => (i, false, input)
  | i, remaining + 1, input =>
      match (if 0 < remaining then readSeparator ':' i readIpv4 input else none) with
      | some rest => (i + 2, true, rest)
      | none =>
          match readSeparator ':' i (readNumber 16 4 65536 true) input with
          | some rest => readGroups (i + 1) remaining rest
          | none => (i, false, input)

def readIpv6 (input : Text) : Option Text :=
  let (headSize, headIpv4, rest) := readGroups 0 8 input
  if headSize = 8 then some rest
  else if headIpv4 then none
  else
    (rest.stripPrefix [':', ':']).map fun rest => (readGroups 0 (8 - (headSize + 1)) rest).2.2

/-- Whether `text.parse::<IpAddr>()` succeeds. -/
def isIpAddr (text : Text) : Bool :=
  match readIpv4 text with
  | some rest => rest.isEmpty
  | none => readIpv6 text == some []

/-- Whether `text.parse::<Ipv6Addr>()` succeeds. -/
def isIpv6Addr (text : Text) : Bool := readIpv6 text == some []

example : ["0.0.0.0", "::1", "fe80::1:2", "::ffff:10.0.0.1", "1:2:3:4:5:6:7:8"].all
    (fun text => isIpAddr text.toList) = true := by decide

example : ["1.2.3", "256.1.1.1", "01.2.3.4", "1::2::3", "ads.example", "fe80::1%lo0"].any
    (fun text => isIpAddr text.toList) = false := by decide

end Tollgate.IpAddr
