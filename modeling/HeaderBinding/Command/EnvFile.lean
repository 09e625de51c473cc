import HeaderBinding.Text.Blank
import HeaderBinding.Text.Utf8

/-!
# Files of variables

A file of assignments `NAME=value` or `NAME: value`, with comments behind `#`. A value may be
quoted, and a value that is not in single quotes may refer to variables set above it. A file with an
error sets nothing.
-/

namespace HeaderBinding

namespace EnvFile

/-- Variables and their values, the newest first. -/
abbrev Variables := List (Bytes × Bytes)

/-- The value set last, or nothing. -/
def valueOf (scope : Variables) (name : Bytes) : Bytes :=
  (scope.lookup name).getD []

/-! ## Blanks within a line -/

/-- The encodings of the blanks that end no line. -/
def inlineBlanks : List Bytes :=
  [[0x09], [0x0B], [0x0C], [0x0D], [0x20], [0xC2, 0x85], [0xC2, 0xA0]]

def isInlineBlank (code : Nat) : Bool :=
  [0x09, 0x0B, 0x0C, 0x0D, 0x20, 0x85, 0xA0].contains code

def trimInlineLeft (s : Bytes) : Bytes :=
  Bytes.dropEncodings inlineBlanks s

def trimInline (s : Bytes) : Bytes :=
  (Bytes.dropEncodings (inlineBlanks.map List.reverse) (trimInlineLeft s).reverse).reverse

/-- The text with LF for CR LF. -/
def plainLines : Bytes → Bytes
  | 0x0D :: 0x0A :: s => 0x0A :: plainLines s
  | b :: s => b :: plainLines s
  | [] => []

/-! ## Names -/

/-- The start of the next assignment, behind blanks and comment lines. -/
def statementStart (s : Bytes) : Bytes :=
  match h : s.trimLeft with
  | 0x23 :: rest =>
    have : (rest.dropWhile (· != lineFeed)).length < s.length := by
      have hrest := (List.dropWhile_suffix (l := rest) (· != lineFeed)).length_le
      have hs := Bytes.length_dropEncodings_le Blank.encodings s
      unfold Bytes.trimLeft at h
      rw [h] at hs
      simp only [List.length_cons] at hs
      omega
    statementStart (rest.dropWhile (· != lineFeed))
  | start => start
termination_by s.length

/-- A byte that may stand in a name: a Latin-1 letter or number, a point, an underscore, or a blank.
-/
def isNameByte (b : UInt8) : Bool :=
  isWord b || b == 0x2E || isInlineBlank b.toNat || b == 0xAA || b == 0xB5 || b == 0xBA
    || b == 0xB2 || b == 0xB3 || b == 0xB9 || (0xBC ≤ b && b ≤ 0xBE)
    || (0xC0 ≤ b && b != 0xD7 && b != 0xF7)

/-- The text behind `export` and blanks, if it starts so. -/
def dropExport (s : Bytes) : Bytes :=
  match Bytes.strip? (ascii "export") s with
  | some rest => if (trimInlineLeft rest).length < rest.length then trimInlineLeft rest else s
  | none => s

/-- The name of an assignment and the text of its value. A text without a mark of assignment is the
value of a variable without a name. -/
def name? (s : Bytes) : Option (Bytes × Bytes) :=
  let s := dropExport s
  let name := s.takeWhile fun b => b != 0x3D && b != 0x3A
  if s.isEmpty ∨ ¬ name.all isNameByte then none
  else match s.drop name.length with
    | _ :: value => some (Bytes.trimRight name, trimInlineLeft value)
    | [] => some ([], trimInlineLeft s)

/-! ## Values -/

/-- A byte of a variable's name in a value. -/
def isVariableByte (b : UInt8) : Bool :=
  (0x41 ≤ b && b ≤ 0x5A) || isDigit b || b == 0x5F

/-- The text without the given byte at its start. -/
def dropByte (b : UInt8) : Bytes → Bytes
  | [] => []
  | a :: s => if a = b then s else a :: s

/-- A reference behind its `$`: perhaps an opening parenthesis or brace, a name that may be empty,
and perhaps a closing brace. Gives the name and what follows the reference. -/
def reference (s : Bytes) : Bytes × Bytes :=
  let inner := dropByte 0x7B (dropByte 0x28 s)
  let name := inner.takeWhile isVariableByte
  (name, dropByte 0x7D (inner.drop name.length))

theorem length_dropByte_le (b : UInt8) (s : Bytes) : (dropByte b s).length ≤ s.length := by
  cases s with
  | nil => simp [dropByte]
  | cons a s =>
    simp only [dropByte]
    split <;> simp

theorem length_reference_le (s : Bytes) : (reference s).2.length ≤ s.length := by
  have h1 := length_dropByte_le 0x28 s
  have h2 := length_dropByte_le 0x7B (dropByte 0x28 s)
  have h3 := length_dropByte_le 0x7D ((dropByte 0x7B (dropByte 0x28 s)).drop
    ((dropByte 0x7B (dropByte 0x28 s)).takeWhile isVariableByte).length)
  simp only [List.length_drop] at h3
  simp only [reference]
  omega

/-- The text with its references replaced. A reference behind a backslash stays and the backslash
goes; one without a name stays too. -/
def expandVariables (scope : Variables) : Bytes → Bytes
  | [] => []
  | 0x5C :: 0x24 :: s =>
    have := length_reference_le s
    0x24 :: s.take (s.length - (reference s).2.length) ++ expandVariables scope (reference s).2
  | 0x24 :: s =>
    have := length_reference_le s
    (if (reference s).1.isEmpty then 0x24 :: s.take (s.length - (reference s).2.length)
      else valueOf scope (reference s).1) ++ expandVariables scope (reference s).2
  | b :: s => b :: expandVariables scope s
termination_by s => s.length

/-- The text with a line feed for `\n` and a carriage return for `\r`. Other pairs with a backslash
stay. -/
def lineEscapes : Bytes → Bytes
  | 0x5C :: 0x6E :: s => 0x0A :: lineEscapes s
  | 0x5C :: 0x72 :: s => 0x0D :: lineEscapes s
  | 0x5C :: b :: s => 0x5C :: b :: lineEscapes s
  | b :: s => b :: lineEscapes s
  | [] => []

/-- The text without the backslashes that stand before something other than `$`. -/
def dropBackslashes : Bytes → Bytes
  | 0x5C :: 0x24 :: s => 0x5C :: 0x24 :: dropBackslashes s
  | 0x5C :: b :: s => b :: dropBackslashes s
  | b :: s => b :: dropBackslashes s
  | [] => []

/-- Cuts a comment off a line given in reverse: the last `#` behind a blank, and what follows it. -/
def cutComment? : List TextUnit → Option (List TextUnit)
  | u :: v :: rest =>
    if u.code = 0x23 ∧ isInlineBlank v.code then some (v :: rest) else cutComment? (v :: rest)
  | _ => none

/-- The value on a line without quotes. -/
def plainValue (scope : Variables) (line : Bytes) : Bytes :=
  let reversed := (Utf8.units line).reverse
  let kept := ((cutComment? reversed).getD reversed).reverse
  expandVariables scope (trimInline (Utf8.sanitize (kept.flatMap TextUnit.bytes)))

/-- The text before the next quote that has no backslash before it, and what follows the quote. The
byte before the text is given. -/
def untilQuote? (quote before : UInt8) : Bytes → Option (Bytes × Bytes)
  | [] => none
  | b :: s =>
    if b = quote ∧ before ≠ 0x5C then some ([], s)
    else (untilQuote? quote b s).map fun (value, rest) => (b :: value, rest)

/-- The text without the given byte at its start and its end. -/
def trimByte (b : UInt8) (s : Bytes) : Bytes :=
  (s.dropTrailing b).dropWhile (· == b)

/-- The value at the start of a text and what follows it. -/
def value? (scope : Variables) (s : Bytes) : Option (Bytes × Bytes) :=
  match s with
  | 0x22 :: rest =>
    (untilQuote? 0x22 0x22 rest).map fun (value, rest) =>
      (expandVariables scope (dropBackslashes (lineEscapes (trimByte 0x22 value))), rest)
  | 0x27 :: rest =>
    (untilQuote? 0x27 0x27 rest).map fun (value, rest) => (trimByte 0x27 value, rest)
  | _ =>
    let line := s.takeWhile fun b => b != lineFeed && b != carriageReturn
    some (plainValue scope line, s.drop line.length)

/-! ## Files -/

/-- Reads assignments, at most as many as there are bytes. -/
def parseWithin (scope : Variables) : (bound : Nat) → Bytes → Option Variables
  | 0, _ => some scope
  | bound + 1, s =>
    match statementStart s with
    | [] => some scope
    | start =>
      match name? start with
      | none => none
      | some (name, behind) =>
        match value? scope behind with
        | none => none
        | some (value, rest) => parseWithin ((name, value) :: scope) bound rest

/-- The variables that a file sets, or nothing if it has an error. -/
def parse (s : Bytes) : Option Variables :=
  parseWithin [] (s.length + 1) (plainLines s)

end EnvFile

end HeaderBinding
