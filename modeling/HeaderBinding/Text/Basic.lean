/-!
# Text as bytes

Headers, paths and answers are byte strings: nothing promises that they are well-formed UTF-8.
Literal texts of the library are ASCII and are written with `ascii`.
-/

namespace HeaderBinding

/-- A text: any sequence of bytes. -/
abbrev Bytes := List UInt8

/-- The bytes of a literal whose characters are all ASCII. -/
def ascii (s : String) : Bytes :=
  s.toList.map fun c => c.toNat.toUInt8

/-- The decimal digits of a number. -/
def decimal (n : Nat) : Bytes :=
  ascii (Nat.repr n)

/-- The decimal digits of an integer, after a minus sign if it is negative. -/
def signedDecimal : Int → Bytes
  | .ofNat n => decimal n
  | .negSucc n => ascii "-" ++ decimal (n + 1)

def hexDigit (n : Nat) : UInt8 :=
  if n < 10 then (0x30 + n).toUInt8 else (0x61 + (n - 10)).toUInt8

/-- The last `width` hexadecimal digits of a number. -/
def hexadecimal : (width n : Nat) → Bytes
  | 0, _ => []
  | width + 1, n => hexadecimal width (n / 16) ++ [hexDigit (n % 16)]

def lineFeed : UInt8 := 0x0A

def carriageReturn : UInt8 := 0x0D

/-! ## Byte classes -/

def isDigit (b : UInt8) : Bool :=
  0x30 ≤ b && b ≤ 0x39

/-- An ASCII letter or an underscore. -/
def isIdentifierStart (b : UInt8) : Bool :=
  (0x41 ≤ b && b ≤ 0x5A) || (0x61 ≤ b && b ≤ 0x7A) || b == 0x5F

/-- An ASCII letter, digit or underscore. -/
def isWord (b : UInt8) : Bool :=
  isIdentifierStart b || isDigit b

namespace Bytes

/-- An identifier is a non-empty run of word bytes that does not start with a digit. -/
def isIdentifier : Bytes → Bool
  | [] => false
  | b :: s => isIdentifierStart b && s.all isWord

/-! ## Cutting and joining -/

/-- The texts in order with `separator` between neighbours. -/
def join (separator : Bytes) (texts : List Bytes) : Bytes :=
  separator.intercalate texts

/-- The pieces of a text between the occurrences of a byte: one more piece than occurrences. -/
def split (separator : UInt8) (s : Bytes) : List Bytes :=
  s.foldr
    (fun b pieces =>
      if b = separator then [] :: pieces
      else match pieces with
        | [] => [[b]]
        | piece :: others => (b :: piece) :: others)
    [[]]

theorem split_cons (separator b : UInt8) (s : Bytes) :
    split separator (b :: s) =
      if b = separator then [] :: split separator s
      else match split separator s with
        | [] => [[b]]
        | piece :: others => (b :: piece) :: others := rfl

/-- Even the empty text has a piece. -/
theorem split_ne_nil (separator : UInt8) (s : Bytes) : split separator s ≠ [] := by
  cases s with
  | nil => simp [split]
  | cons b s =>
    rw [split_cons]
    split
    · simp
    · split <;> simp

/-- The text without the occurrences of a byte at its end. -/
def dropTrailing (b : UInt8) (s : Bytes) : Bytes :=
  (s.reverse.dropWhile (· == b)).reverse

/-- The lines of a text that are left when the line feeds at its end are dropped. -/
def significantLines (s : Bytes) : List Bytes :=
  split lineFeed (s.dropTrailing lineFeed)

/-- What follows `start`, if the text starts with it. -/
def strip? : (start s : Bytes) → Option Bytes
  | [], s => some s
  | _ :: _, [] => none
  | a :: start, b :: s => if a = b then strip? start s else none

/-- Copies of a text one after another. However many copies of the empty text there are, they take
no time. -/
def repeated (n : Nat) (s : Bytes) : Bytes :=
  if s.isEmpty then [] else (List.replicate n s).flatten

theorem repeated_eq_flatten (n : Nat) (s : Bytes) : repeated n s = (List.replicate n s).flatten := by
  cases s <;> simp [repeated]

end Bytes

end HeaderBinding
