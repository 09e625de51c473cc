import HeaderBinding.Text.Numeral
import HeaderBinding.Text.Quoted

/-!
# Values of flags

A flag accepts the values of its kind. A refused value comes with the reason for it.
-/

namespace HeaderBinding

inductive FlagKind where
  | switch
  /-- A switch of the log. Its refusals are terse. -/
  | logSwitch
  | text
  /-- How much is logged. -/
  | level
  /-- The name or the number of a severity. -/
  | severity
  /-- A number of megabytes. -/
  | size
  /-- Levels for single modules. -/
  | moduleLevels
  /-- A line of a source file. -/
  | sourceLine
deriving Repr, DecidableEq

/-- A switch needs no value. -/
def FlagKind.isSwitch (kind : FlagKind) : Bool :=
  kind == .switch || kind == .logSwitch

/-- Why a flag does not accept a value. -/
inductive Refusal where
  | notSwitch (value : Bytes)
  | notInteger (value : Bytes) (error : NumeralError)
  | unreadable
  | outOfRange
  | notModuleLevels
  | negativeModuleLevel
  | notSourceLine
  | lineNotPositive
deriving Repr, DecidableEq

def Refusal.message : Refusal → Bytes
  | .notSwitch value =>
    ascii "strconv.ParseBool: parsing " ++ value.quoted ++ ascii ": invalid syntax"
  | .notInteger value .malformed =>
    ascii "strconv.ParseInt: parsing " ++ value.quoted ++ ascii ": invalid syntax"
  | .notInteger value .outOfRange =>
    ascii "strconv.ParseInt: parsing " ++ value.quoted ++ ascii ": value out of range"
  | .unreadable => ascii "parse error"
  | .outOfRange => ascii "value out of range"
  | .notModuleLevels => ascii "syntax error: expect comma-separated list of filename=N"
  | .negativeModuleLevel => ascii "negative value for vmodule level"
  | .notSourceLine => ascii "syntax error: expect file.go:234"
  | .lineNotPositive => ascii "negative or zero value for level"

/-! ## The kinds one by one -/

/-- The words for on and off. -/
def switchWords : List (String × Bool) :=
  [("1", true), ("t", true), ("T", true), ("true", true), ("TRUE", true), ("True", true),
   ("0", false), ("f", false), ("F", false), ("false", false), ("FALSE", false), ("False", false)]

def switchWord? (value : Bytes) : Option Bool :=
  (switchWords.find? fun word => ascii word.1 == value).map Prod.snd

/-- The refusal of what is no integer of 32 bits. -/
def integerRefusal? (value : Bytes) : Option Refusal :=
  match Numeral.integer 32 value with
  | .ok _ => none
  | .error error => some (.notInteger value error)

/-- The severities, the least one first. -/
def severities : List Bytes :=
  [ascii "INFO", ascii "WARNING", ascii "ERROR", ascii "FATAL"]

/-- A text with capitals for its ASCII letters and for the dotless i, whose capital is ASCII too. -/
def capitals : Bytes → Bytes
  | 0xC4 :: 0xB1 :: s => 0x49 :: capitals s
  | b :: s => (if 0x61 ≤ b && b ≤ 0x7A then b - 0x20 else b) :: capitals s
  | [] => []

/-- The refusal of what is neither a severity nor an integer. -/
def severityRefusal? (value : Bytes) : Option Refusal :=
  if severities.contains (capitals value) then none else integerRefusal? value

/-- The refusal of what is no literal of 64 bits. -/
def sizeRefusal? (value : Bytes) : Option Refusal :=
  match Numeral.literal (UInt64.size - 1) value with
  | .ok _ => none
  | .error .malformed => some .unreadable
  | .error .outOfRange => some .outOfRange

/-- The refusal of what is no module with its level. -/
def moduleLevelRefusal? (item : Bytes) : Option Refusal :=
  match item.split 0x3D with
  | [name, level] =>
    if name.isEmpty then some .notModuleLevels
    else match Numeral.integer 32 level with
      | .error _ => some .notModuleLevels
      | .ok n => if n < 0 then some .negativeModuleLevel else none
  | _ => some .notModuleLevels

/-- The refusal of the first item between commas that is wrong. Empty items do not count. -/
def moduleLevelsRefusal? (value : Bytes) : Option Refusal :=
  ((value.split 0x2C).filter (!·.isEmpty)).findSome? moduleLevelRefusal?

/-- The refusal of what is no file name with a point, a colon and a line number. -/
def sourceLineRefusal? (value : Bytes) : Option Refusal :=
  match value.split 0x3A with
  | [file, line] =>
    if !file.contains 0x2E then some .notSourceLine
    else match Numeral.integer 64 line with
      | .error _ => some .notSourceLine
      | .ok n => if n ≤ 0 then some .lineNotPositive else none
  | _ => some .notSourceLine

/-- The refusal of a value that is not of the kind. -/
def FlagKind.refusal? (kind : FlagKind) (value : Bytes) : Option Refusal :=
  match kind with
  | .switch => if (switchWord? value).isSome then none else some (.notSwitch value)
  | .logSwitch => if (switchWord? value).isSome then none else some .unreadable
  | .text => none
  | .level => integerRefusal? value
  | .severity => severityRefusal? value
  | .size => sizeRefusal? value
  | .moduleLevels => moduleLevelsRefusal? value
  | .sourceLine => sourceLineRefusal? value

end HeaderBinding
