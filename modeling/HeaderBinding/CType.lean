import HeaderBinding.Text.Blank
import HeaderBinding.Token.Basic

/-!
# Types

The types of members, parameters and return values: six scalar types, and enum types by name.
-/

namespace HeaderBinding

inductive Scalar where
  | int
  | float
  | long
  | longLong
  | void
  | char
deriving Repr, DecidableEq

namespace Scalar

def all : List Scalar := [.int, .float, .long, .longLong, .void, .char]

def name : Scalar → Bytes
  | .int => ascii "int"
  | .float => ascii "float"
  | .long => ascii "long"
  | .longLong => ascii "long long"
  | .void => ascii "void"
  | .char => ascii "char"

/-- The scalar type of that spelling. A run of blanks counts as one space. -/
def ofSpelling? (s : Bytes) : Option Scalar :=
  all.find? fun t => t.name == Bytes.join (ascii " ") s.words

/-- The scalar type of a keyword. -/
def ofKeyword? : TokenKind → Option Scalar
  | .intKeyword => some .int
  | .floatKeyword => some .float
  | .longKeyword => some .long
  | .voidKeyword => some .void
  | .charKeyword => some .char
  | _ => none

end Scalar

inductive CType where
  | scalar (type : Scalar)
  | enum (tag : Bytes)
deriving Repr, DecidableEq

namespace CType

/-- A type as it is written in a binding: an enum type by its tag alone. -/
def name : CType → Bytes
  | .scalar type => type.name
  | .enum tag => tag

def isEnum : CType → Bool
  | .scalar _ => false
  | .enum _ => true

end CType

end HeaderBinding
