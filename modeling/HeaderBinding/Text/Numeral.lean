import HeaderBinding.Text.Basic

/-!
# Numerals

Reading numbers of a limited range. A number is out of range from the first digit that takes it
there, whatever follows that digit.
-/

namespace HeaderBinding

/-- Why a text is no number of the range. -/
inductive NumeralError where
  | malformed
  | outOfRange
deriving Repr, DecidableEq

namespace Numeral

/-- The value of a digit. Digits above nine are letters of either case. -/
def digit? (b : UInt8) : Option Nat :=
  if isDigit b then some (b.toNat - 0x30)
  else if 0x41 ≤ b && b ≤ 0x5A then some (b.toNat - 0x41 + 10)
  else if 0x61 ≤ b && b ≤ 0x7A then some (b.toNat - 0x61 + 10)
  else none

/-- Reads digits behind those of a number, up to the greatest number of the range. -/
def readDigits (base greatest n : Nat) : Bytes → Except NumeralError Nat
  | [] => .ok n
  | b :: s =>
    match digit? b with
    | none => .error .malformed
    | some d =>
      if base ≤ d then .error .malformed
      else if greatest < n * base + d then .error .outOfRange
      else readDigits base greatest (n * base + d) s

/-! ## Integers -/

/-- Reads a decimal integer of so many bits, one of them for the sign. -/
def integer (bits : Nat) (s : Bytes) : Except NumeralError Int :=
  let isNegative := s.head? == some 0x2D
  let digits := if isNegative || s.head? == some 0x2B then s.tail else s
  if digits.isEmpty then .error .malformed
  else match readDigits 10 (Nat.pow 2 bits - 1) 0 digits with
    | .error error => .error error
    | .ok n =>
      let value : Int := if isNegative then -n else n
      let bound := Int.pow 2 (bits - 1)
      if -bound ≤ value ∧ value < bound then .ok value else .error .outOfRange

/-! ## Literals -/

def underscore : UInt8 := 0x5F

/-- The base of a literal and the digits behind its mark: `0b`, `0o` and `0x` with something behind
them, or a zero for octal digits. -/
def literalParts : Bytes → Nat × Bytes
  | 0x30 :: mark :: b :: s =>
    if mark == 0x62 || mark == 0x42 then (2, b :: s)
    else if mark == 0x6F || mark == 0x4F then (8, b :: s)
    else if mark == 0x78 || mark == 0x58 then (16, b :: s)
    else (8, mark :: b :: s)
  | 0x30 :: s => (8, s)
  | s => (10, s)

/-- Does every underscore stand between two digits? -/
def isSeparated (behindDigit : Bool) : Bytes → Bool
  | [] => true
  | b :: s =>
    if b = underscore then behindDigit && s.head?.any (· != underscore) && isSeparated false s
    else isSeparated true s

/-- Reads a literal, whose digits may have underscores between them. The mark of its base counts as
a digit. -/
def literal (greatest : Nat) (s : Bytes) : Except NumeralError Nat :=
  if s.isEmpty then .error .malformed
  else
    let (base, digits) := literalParts s
    match readDigits base greatest 0 (digits.filter (· != underscore)) with
    | .error error => .error error
    | .ok n => if isSeparated (base != 10) digits then .ok n else .error .malformed

end Numeral

end HeaderBinding
