import HeaderBinding.Text.Utf8

/-!
# JSON values and their texts

A text is written with the characters that mean something in markup and the two Unicode line
separators as escapes. A byte that is not part of well-formed UTF-8 is written as the replacement
character itself, in its three bytes and not as an escape.
-/

namespace HeaderBinding

inductive Json where
  | null
  | bool (value : Bool)
  | string (value : Bytes)
  | list (items : List Json)
  /-- The fields in the order they are written. -/
  | object (fields : List (String × Json))
deriving Repr

namespace Json

/-- How one unit of a text is written between the quotes. -/
def escapeUnit : TextUnit → Bytes
  | .stray _ => Utf8.replacement
  | .point code encoding =>
    if code = 0x22 then ascii "\\\""
    else if code = 0x5C then ascii "\\\\"
    else if code = 0x08 then ascii "\\b"
    else if code = 0x0C then ascii "\\f"
    else if code = 0x0A then ascii "\\n"
    else if code = 0x0D then ascii "\\r"
    else if code = 0x09 then ascii "\\t"
    else if code < 0x20 ∨ code = 0x3C ∨ code = 0x3E ∨ code = 0x26
        ∨ code = 0x2028 ∨ code = 0x2029 then
      ascii "\\u" ++ hexadecimal 4 code
    else encoding

def quote (s : Bytes) : Bytes :=
  ascii "\"" ++ (Utf8.units s).flatMap escapeUnit ++ ascii "\""

/-! ## Without white space -/

mutual

def compact : Json → Bytes
  | .null => ascii "null"
  | .bool true => ascii "true"
  | .bool false => ascii "false"
  | .string s => quote s
  | .list [] => ascii "[]"
  | .list (item :: items) => ascii "[" ++ item.compact ++ compactItems items ++ ascii "]"
  | .object [] => ascii "\x7b\x7d"
  | .object ((name, value) :: fields) =>
    ascii "\x7b" ++ quote (ascii name) ++ ascii ":" ++ value.compact ++ compactFields fields
      ++ ascii "\x7d"

def compactItems : List Json → Bytes
  | [] => []
  | item :: items => ascii "," ++ item.compact ++ compactItems items

def compactFields : List (String × Json) → Bytes
  | [] => []
  | (name, value) :: fields =>
    ascii "," ++ quote (ascii name) ++ ascii ":" ++ value.compact ++ compactFields fields

end

/-! ## One item or field a line -/

/-- A line break and the indentation of a level, two spaces each. -/
def lineAt (level : Nat) : Bytes :=
  lineFeed :: Bytes.repeated level (ascii "  ")

mutual

/-- The text of a value that stands at a level. -/
def indented (level : Nat) : Json → Bytes
  | .null => ascii "null"
  | .bool true => ascii "true"
  | .bool false => ascii "false"
  | .string s => quote s
  | .list [] => ascii "[]"
  | .list (item :: items) =>
    ascii "[" ++ lineAt (level + 1) ++ item.indented (level + 1) ++ indentedItems (level + 1) items
      ++ lineAt level ++ ascii "]"
  | .object [] => ascii "\x7b\x7d"
  | .object ((name, value) :: fields) =>
    ascii "\x7b" ++ lineAt (level + 1) ++ quote (ascii name) ++ ascii ": "
      ++ value.indented (level + 1) ++ indentedFields (level + 1) fields
      ++ lineAt level ++ ascii "\x7d"

def indentedItems (level : Nat) : List Json → Bytes
  | [] => []
  | item :: items => ascii "," ++ lineAt level ++ item.indented level ++ indentedItems level items

def indentedFields (level : Nat) : List (String × Json) → Bytes
  | [] => []
  | (name, value) :: fields =>
    ascii "," ++ lineAt level ++ quote (ascii name) ++ ascii ": " ++ value.indented level
      ++ indentedFields level fields

end

/-- A list, with `null` for the empty one. -/
def listOrNull : List Json → Json
  | [] => .null
  | items => .list items

end Json

end HeaderBinding
