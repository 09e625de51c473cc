import HeaderBinding.Declaration.Basic
import HeaderBinding.Json

/-!
# Declarations as JSON

Field order is fixed. A list without elements is `null`, and only an enum type is marked as such.
-/

namespace HeaderBinding

namespace Argument

def toJson (a : Argument) : Json :=
  .object
    ([("name", .string a.name), ("type", .string a.type.name)]
      ++ if a.type.isEnum then [("enum", .bool true)] else [])

end Argument

namespace Declaration

def toJson : Declaration → Json
  | .inclusion i =>
    .object [("kind", .string (ascii "header")), ("name", .string i.name),
      ("header_kind", .string i.kind.name)]
  | .macroName m =>
    .object [("kind", .string (ascii "macro")), ("name", .string m.name),
      ("macro_kind", .string m.kind.name)]
  | .enum e =>
    .object [("kind", .string (ascii "enum")), ("name", .string e.name),
      ("attributes", .listOrNull (e.attributes.map .string))]
  | .struct s =>
    .object [("kind", .string (ascii "struct")), ("name", .string s.name),
      ("attributes", .listOrNull (s.attributes.map Argument.toJson))]
  | .prototype p =>
    .object [("kind", .string (ascii "prototype")), ("name", .string p.name),
      ("return_type", .string p.returnType.name),
      ("arguments", .listOrNull (p.arguments.map Argument.toJson))]

/-- The JSON document of a list of declarations, one line per item and field. -/
def document (declarations : List Declaration) : Bytes :=
  (Json.list (declarations.map toJson)).indented 0

end Declaration

end HeaderBinding
