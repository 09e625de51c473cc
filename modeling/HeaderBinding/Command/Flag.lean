import HeaderBinding.Command.FlagValue

/-!
# Flags

Flags may stand anywhere among the operands until `--`. A flag has a long name and perhaps a letter;
a switch needs no value, any other flag takes one behind `=`, behind its letter, or as the next
argument.
-/

namespace HeaderBinding

structure Flag where
  name : String
  letter : Option UInt8
  kind : FlagKind
deriving Repr, DecidableEq

namespace Flag

def isSwitch (f : Flag) : Bool := f.kind.isSwitch

/-- A flag without a letter. -/
def ofKind (kind : FlagKind) (name : String) : Flag := ⟨name, none, kind⟩

def switch (name : String) : Flag := ofKind .switch name

def text (name : String) : Flag := ofKind .text name

def lettered (name : String) (letter : UInt8) : Flag := ⟨name, some letter, .text⟩

/-- A flag as it is written on the command line. -/
def display (f : Flag) : Bytes :=
  match f.letter with
  | some letter => 0x2D :: letter :: ascii ", --" ++ ascii f.name
  | none => ascii "--" ++ ascii f.name

end Flag

inductive FlagError where
  | badForm (argument : Bytes)
  | unknown (name : Bytes)
  | unknownLetter (letter : UInt8) (letters : Bytes)
  | missingValue (argument : Bytes)
  | missingLetterValue (letter : UInt8) (letters : Bytes)
  | refused (flag : Flag) (value : Bytes) (refusal : Refusal)
deriving Repr, DecidableEq

def FlagError.message : FlagError → Bytes
  | .badForm argument => ascii "bad flag syntax: " ++ argument
  | .unknown name => ascii "unknown flag: --" ++ name
  | .unknownLetter letter letters =>
    ascii "unknown shorthand flag: " ++ quotedByte letter ++ ascii " in -" ++ letters
  | .missingValue argument => ascii "flag needs an argument: " ++ argument
  | .missingLetterValue letter letters =>
    ascii "flag needs an argument: " ++ quotedByte letter ++ ascii " in -" ++ letters
  | .refused flag value refusal =>
    ascii "invalid argument " ++ value.quoted ++ ascii " for " ++ flag.display.quoted
      ++ ascii " flag: " ++ refusal.message

/-- A flag and the value it was given. -/
structure Setting where
  flag : String
  value : Bytes
deriving Repr, DecidableEq

/-- Gives a flag a value. -/
def Flag.set (f : Flag) (value : Bytes) : Except FlagError Setting :=
  match f.kind.refusal? value with
  | some refusal => .error (.refused f value refusal)
  | none => .ok ⟨f.name, value⟩

/-- Flags read from an argument, and whether the next argument was taken as a value. -/
structure FlagReading where
  settings : List Setting
  tookNext : Bool
deriving Repr, DecidableEq

/-- Reads the letters behind a single hyphen. The last one may take a value. -/
def readLetters (flags : List Flag) (next : Option Bytes) (letters : Bytes) :
    Except FlagError FlagReading :=
  if (ascii "test.").isPrefixOf letters then .ok ⟨[], false⟩
  else match letters with
    | [] => .ok ⟨[], false⟩
    | letter :: others =>
      match flags.find? (·.letter == some letter) with
      | none => .error (.unknownLetter letter letters)
      | some flag =>
        match others with
        | 0x3D :: b :: value => (flag.set (b :: value)).map fun s => ⟨[s], false⟩
        | _ =>
          if flag.isSwitch then
            match flag.set (ascii "true"), readLetters flags next others with
            | .error error, _ => .error error
            | .ok _, .error error => .error error
            | .ok s, .ok reading => .ok { reading with settings := s :: reading.settings }
          else if !others.isEmpty then (flag.set others).map fun s => ⟨[s], false⟩
          else match next with
            | some value => (flag.set value).map fun s => ⟨[s], true⟩
            | none => .error (.missingLetterValue letter letters)

/-- Reads an argument of two hyphens and a name. -/
def readLong (flags : List Flag) (next : Option Bytes) (argument : Bytes) :
    Except FlagError FlagReading :=
  let body := argument.drop 2
  if body.head?.all fun b => b == 0x2D || b == 0x3D then .error (.badForm argument)
  else
    let name := body.takeWhile (· != 0x3D)
    match flags.find? fun f => ascii f.name == name with
    | none => .error (.unknown name)
    | some flag =>
      match body.drop name.length with
      | _ :: value => (flag.set value).map fun s => ⟨[s], false⟩
      | [] =>
        if flag.isSwitch then (flag.set (ascii "true")).map fun s => ⟨[s], false⟩
        else match next with
          | some value => (flag.set value).map fun s => ⟨[s], true⟩
          | none => .error (.missingValue argument)

/-- The arguments of a command: the flags in the order they were set, and the operands. -/
structure Arguments where
  settings : List Setting
  operands : List Bytes
deriving Repr, DecidableEq

namespace Arguments

/-- Reads the arguments of a command that has the given flags, behind those read already. -/
def readOnto (flags : List Flag) (read : Arguments) (arguments : List Bytes) :
    Except FlagError Arguments :=
  match arguments with
  | [] => .ok read
  | argument :: rest =>
    if argument = ascii "--" then .ok { read with operands := read.operands ++ rest }
    else if argument.length ≤ 1 ∨ argument.head? ≠ some 0x2D then
      readOnto flags { read with operands := read.operands ++ [argument] } rest
    else
      let reading :=
        if (ascii "--").isPrefixOf argument then readLong flags rest.head? argument
        else readLetters flags rest.head? argument.tail
      match reading with
      | .error error => .error error
      | .ok reading =>
        readOnto flags { read with settings := read.settings ++ reading.settings }
          (if reading.tookNext then rest.tail else rest)
termination_by arguments.length
decreasing_by
  · simp
  · simp only [List.length_cons]
    split
    · simp only [List.length_tail]
      omega
    · omega

/-- Reads the arguments of a command that has the given flags. -/
def read (flags : List Flag) (arguments : List Bytes) : Except FlagError Arguments :=
  readOnto flags ⟨[], []⟩ arguments

/-- All values given to a flag, in order. -/
def values (a : Arguments) (flag : String) : List Bytes :=
  (a.settings.filter (·.flag == flag)).map Setting.value

/-- The value given to a flag last. -/
def last? (a : Arguments) (flag : String) : Option Bytes :=
  (a.values flag).getLast?

/-- Is a switch on? -/
def isOn (a : Arguments) (flag : String) : Bool :=
  ((a.last? flag).bind switchWord?).getD false

end Arguments

/-! ## Finding the command -/

/-- The arguments that may name a command: those that are neither flags nor behind `--`. An argument
behind a flag that may take a value is passed over, unless it is the last. -/
def commandWords (flags : List Flag) : List Bytes → List Bytes
  | [] => []
  | argument :: rest =>
    if argument = ascii "--" then []
    else if takesNext argument then
      match rest with
      | _ :: next :: others => commandWords flags (next :: others)
      | _ => []
    else if argument.isEmpty ∨ argument.head? = some 0x2D then commandWords flags rest
    else argument :: commandWords flags rest
where
  /-- May a flag take the next argument as its value? -/
  takesNext (argument : Bytes) : Bool :=
    !argument.contains 0x3D &&
      match argument with
      | 0x2D :: 0x2D :: name => !flags.any fun f => f.isSwitch && ascii f.name == name
      | [0x2D, letter] => !flags.any fun f => f.isSwitch && f.letter == some letter
      | _ => false

end HeaderBinding
