import HeaderBinding.Text.Printable
import HeaderBinding.Text.Utf8

/-!
# Quoted text

A text between quotes on one line. Printable characters stand for themselves, the quote and the
backslash follow a backslash, and all else is written by its number or by a letter.
-/

namespace HeaderBinding

namespace Quoted

/-- A character that is not printable. -/
def escapeCode (code : Nat) : Bytes :=
  if code = 0x07 then ascii "\\a"
  else if code = 0x08 then ascii "\\b"
  else if code = 0x0C then ascii "\\f"
  else if code = 0x0A then ascii "\\n"
  else if code = 0x0D then ascii "\\r"
  else if code = 0x09 then ascii "\\t"
  else if code = 0x0B then ascii "\\v"
  else if code < 0x80 then ascii "\\x" ++ hexadecimal 2 code
  else if code < 0x10000 then ascii "\\u" ++ hexadecimal 4 code
  else ascii "\\U" ++ hexadecimal 8 code

/-- One unit between two occurrences of the quote. -/
def escapeUnit (quote : Nat) : TextUnit → Bytes
  | .stray b => ascii "\\x" ++ hexadecimal 2 b.toNat
  | .point code encoding =>
    if code = quote ∨ code = 0x5C then 0x5C :: encoding
    else if isPrintable code then encoding
    else escapeCode code

end Quoted

/-- The text in double quotes. -/
def Bytes.quoted (s : Bytes) : Bytes :=
  ascii "\"" ++ (Utf8.units s).flatMap (Quoted.escapeUnit 0x22) ++ ascii "\""

/-- The character of a byte's value in single quotes. -/
def quotedByte (b : UInt8) : Bytes :=
  let encoding := if b < 0x80 then [b] else [0xC0 + b / 64, 0x80 + b % 64]
  ascii "'" ++ Quoted.escapeUnit 0x27 (.point b.toNat encoding) ++ ascii "'"

end HeaderBinding
