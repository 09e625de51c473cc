import HeaderBinding.CType

/-!
# Declarations of a header

Includes, macros, enums, structs and function prototypes. Members and parameters are arguments: a
type and a name.
-/

namespace HeaderBinding

inductive IncludeKind where
  /-- An include in quotes. -/
  | custom
  /-- An include in angle brackets. -/
  | standard
deriving Repr, DecidableEq

namespace IncludeKind

def name : IncludeKind → Bytes
  | .custom => ascii "custom"
  | .standard => ascii "standard"

end IncludeKind

structure Include where
  name : Bytes
  kind : IncludeKind
deriving Repr, DecidableEq

inductive MacroKind where
  | define
  /-- The test for an undefined name that opens a header. -/
  | includeGuard
deriving Repr, DecidableEq

namespace MacroKind

def name : MacroKind → Bytes
  | .define => ascii "define"
  | .includeGuard => ascii "includeGuard"

/-- The word of the directive. -/
def directive : MacroKind → Bytes
  | .define => ascii "define"
  | .includeGuard => ascii "ifndef"

end MacroKind

/-- A macro by its name. Its value is not kept. -/
structure Macro where
  name : Bytes
  kind : MacroKind
deriving Repr, DecidableEq

/-- A struct member or a function parameter. -/
structure Argument where
  name : Bytes
  type : CType
deriving Repr, DecidableEq

/-- An enum with the texts of its enumerators. An explicit value stays part of the text. -/
structure Enum where
  name : Bytes
  attributes : List Bytes
deriving Repr, DecidableEq

/-- A struct with its members in layout order. -/
structure Struct where
  name : Bytes
  attributes : List Argument
deriving Repr, DecidableEq

/-- A function with its parameters in call order. -/
structure Prototype where
  name : Bytes
  returnType : CType
  arguments : List Argument
deriving Repr, DecidableEq

inductive Declaration where
  | inclusion (value : Include)
  | macroName (value : Macro)
  | enum (value : Enum)
  | struct (value : Struct)
  | prototype (value : Prototype)
deriving Repr, DecidableEq

namespace Declaration

def kindName : Declaration → Bytes
  | .inclusion _ => ascii "header"
  | .macroName _ => ascii "macro"
  | .enum _ => ascii "enum"
  | .struct _ => ascii "struct"
  | .prototype _ => ascii "prototype"

def name : Declaration → Bytes
  | .inclusion i => i.name
  | .macroName m => m.name
  | .enum e => e.name
  | .struct s => s.name
  | .prototype p => p.name

/-- Includes and macros come from directives. -/
def isDirective : Declaration → Bool
  | .inclusion _ | .macroName _ => true
  | .enum _ | .struct _ | .prototype _ => false

end Declaration

end HeaderBinding
