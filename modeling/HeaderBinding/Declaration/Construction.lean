import HeaderBinding.Declaration.Basic
import HeaderBinding.Text.Quoted

/-!
# Building declarations

Declarations made from parts that come from elsewhere are checked: names are identifiers, types and
kinds are known, and no enumerator is empty.
-/

namespace HeaderBinding

/-- Why parts make no declaration. -/
inductive ConstructionError where
  | headerWithoutName
  | unknownHeaderKind (kind : Bytes)
  | macroNotIdentifier (name : Bytes)
  | unknownMacroKind (kind : Bytes)
  | argumentNotIdentifier (name : Bytes)
  | argumentWithoutType (name : Bytes)
  | functionNotIdentifier (name : Bytes)
  | functionWithoutType (name : Bytes)
  | enumNotIdentifier (name : Bytes)
  | emptyEnumMember (name : Bytes)
  | structNotIdentifier (name : Bytes)
deriving Repr, DecidableEq

def ConstructionError.message : ConstructionError → Bytes
  | .headerWithoutName => ascii "a header needs a name"
  | .unknownHeaderKind kind => ascii "unknown header kind: " ++ kind
  | .macroNotIdentifier name => ascii "a macro name must be an identifier: " ++ name.quoted
  | .unknownMacroKind kind => ascii "unknown macro kind: " ++ kind
  | .argumentNotIdentifier name => ascii "an argument name must be an identifier: " ++ name.quoted
  | .argumentWithoutType name => ascii "argument " ++ name ++ ascii " has no type"
  | .functionNotIdentifier name => ascii "a function name must be an identifier: " ++ name.quoted
  | .functionWithoutType name => ascii "function " ++ name ++ ascii " has no return type"
  | .enumNotIdentifier name => ascii "an enum name must be an identifier: " ++ name.quoted
  | .emptyEnumMember name => ascii "enum " ++ name ++ ascii " has an empty member"
  | .structNotIdentifier name => ascii "a struct name must be an identifier: " ++ name.quoted

/-- The include kind of that name. -/
def IncludeKind.ofName? (name : Bytes) : Option IncludeKind :=
  [IncludeKind.custom, .standard].find? (·.name == name)

/-- The macro kind of that name. -/
def MacroKind.ofName? (name : Bytes) : Option MacroKind :=
  [MacroKind.define, .includeGuard].find? (·.name == name)

/-- A type that has a name. An enum type without a tag is none. -/
def CType.named? (type : Option CType) : Option CType :=
  type.filter fun t => !t.name.isEmpty

def Include.make (name kind : Bytes) : Except ConstructionError Include :=
  if name.isEmpty then .error .headerWithoutName
  else match IncludeKind.ofName? kind with
    | some kind => .ok ⟨name, kind⟩
    | none => .error (.unknownHeaderKind kind)

def Macro.make (name kind : Bytes) : Except ConstructionError Macro :=
  if !name.isIdentifier then .error (.macroNotIdentifier name)
  else match MacroKind.ofName? kind with
    | some kind => .ok ⟨name, kind⟩
    | none => .error (.unknownMacroKind kind)

def Argument.make (name : Bytes) (type : Option CType) : Except ConstructionError Argument :=
  if !name.isIdentifier then .error (.argumentNotIdentifier name)
  else match CType.named? type with
    | some type => .ok ⟨name, type⟩
    | none => .error (.argumentWithoutType name)

def Prototype.make (name : Bytes) (returnType : Option CType) (arguments : List Argument) :
    Except ConstructionError Prototype :=
  if !name.isIdentifier then .error (.functionNotIdentifier name)
  else match CType.named? returnType with
    | some type => .ok ⟨name, type, arguments⟩
    | none => .error (.functionWithoutType name)

def Enum.make (name : Bytes) (attributes : List Bytes) : Except ConstructionError Enum :=
  if !name.isIdentifier then .error (.enumNotIdentifier name)
  else if attributes.any List.isEmpty then .error (.emptyEnumMember name)
  else .ok ⟨name, attributes⟩

def Struct.make (name : Bytes) (attributes : List Argument) : Except ConstructionError Struct :=
  if !name.isIdentifier then .error (.structNotIdentifier name)
  else .ok ⟨name, attributes⟩

end HeaderBinding
