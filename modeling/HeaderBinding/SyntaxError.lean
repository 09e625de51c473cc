import HeaderBinding.Token.Basic

/-!
# What can be wrong with a header

Every fault of a header has one cause, and every cause belongs to one of four categories.
-/

namespace HeaderBinding

inductive SyntaxError.Category where
  /-- A directive or a token has no known form. -/
  | recognition
  /-- The source ended inside a construct. -/
  | unterminated
  /-- A member, an enumerator or a parameter is out of shape. -/
  | malformed
  /-- The construct is legal in a header but has no declaration here. -/
  | unsupported
deriving Repr, DecidableEq

inductive SyntaxError where
  | invalidDirective
  | invalidInclude
  | noMacroName
  | invalidToken
  | unclosedEnum
  | unclosedStruct
  | unclosedTypedef
  | unclosedPrototype
  | malformedMember
  | unknownType
  | pointerMember
  | noMemberEnd
  | emptyEnumerator
  | invalidEnumItem
  | noParameterName
  | noEnumName
  | noStructName
  | noFunctionName
  | multilineEnum
  | inlineEnumField
  | scalarVariable
  | noBody
  | trailingDeclarator
  | pointerReturn
  | functionBody
  | unsupportedTypedef
  | unsupportedDeclaration
  | linkageBlock
  | strayBrace
deriving Repr, DecidableEq

namespace SyntaxError

def category : SyntaxError → Category
  | .invalidDirective | .invalidInclude | .noMacroName | .invalidToken => .recognition
  | .unclosedEnum | .unclosedStruct | .unclosedTypedef | .unclosedPrototype => .unterminated
  | .malformedMember | .unknownType | .pointerMember | .noMemberEnd | .emptyEnumerator
  | .invalidEnumItem | .noParameterName | .noEnumName | .noStructName | .noFunctionName =>
    .malformed
  | .multilineEnum | .inlineEnumField | .scalarVariable | .noBody | .trailingDeclarator
  | .pointerReturn | .functionBody | .unsupportedTypedef | .unsupportedDeclaration | .linkageBlock
  | .strayBrace => .unsupported

def Category.title : Category → String
  | .recognition => "recognition error"
  | .unterminated => "unterminated construct"
  | .malformed => "malformed member"
  | .unsupported => "unsupported construct"

def explanation : SyntaxError → String
  | .invalidDirective => "not a valid directive"
  | .invalidInclude => "an include target must be enclosed in \"\" or <>"
  | .noMacroName => "a macro directive needs a name"
  | .invalidToken => "invalid token"
  | .unclosedEnum => "unclosed enum"
  | .unclosedStruct => "unclosed struct"
  | .unclosedTypedef => "unclosed typedef"
  | .unclosedPrototype => "unclosed function prototype"
  | .malformedMember => "a member must consist of a type and a name"
  | .unknownType => "unknown type"
  | .pointerMember => "pointer and array declarators are not supported"
  | .noMemberEnd => "a member must be terminated by ;"
  | .emptyEnumerator => "an enumerator must not be empty"
  | .invalidEnumItem => "an enumerator cannot contain the token"
  | .noParameterName => "a parameter needs a type and a name"
  | .noEnumName => "an enum needs a name"
  | .noStructName => "a struct needs a name"
  | .noFunctionName => "a function prototype needs a name"
  | .multilineEnum => "multi-line enum member lists are not supported"
  | .inlineEnumField => "enum-typed members are disabled"
  | .scalarVariable => "scalar variable declarations are not supported"
  | .noBody => "a declaration without a body is not supported"
  | .trailingDeclarator => "declaring variables along with a type is not supported"
  | .pointerReturn => "pointer return types are not supported"
  | .functionBody => "function definitions are not supported"
  | .unsupportedTypedef => "only struct and enum typedefs are supported"
  | .unsupportedDeclaration => "unsupported top-level declaration"
  | .linkageBlock => "linkage blocks are not supported"
  | .strayBrace => "unexpected closing brace"

/-- The category's title and what is wrong. -/
def message (e : SyntaxError) : Bytes :=
  ascii e.category.title ++ ascii ": " ++ ascii e.explanation

end SyntaxError

/-- A fault of a header: its cause, the text it is about, and the place it is reported at. -/
structure Fault where
  cause : SyntaxError
  detail : Bytes
  position : Position
deriving Repr, DecidableEq

/-- The place of a fault in a text that belongs to no source. -/
def Position.unknown : Position := ⟨0, 0, 0⟩

end HeaderBinding
