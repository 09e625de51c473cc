import HeaderBinding.Token.Basic
import HeaderBinding.Token.Pattern

/-!
# The lexical rules

The rules in order of priority: of two rules that match a text, the one that stands first names its
kind, so `enum` is a keyword and `enumerate` an identifier.
-/

namespace HeaderBinding

structure LexicalRule where
  kind : TokenKind
  pattern : Pattern
deriving Repr, DecidableEq

namespace LexicalRule

open Pattern

/-- A rule for one fixed text. -/
def fixed (kind : TokenKind) (text : String) : LexicalRule :=
  ⟨kind, literal (ascii text)⟩

/-- Blanks within a line: tab, vertical tab, form feed and space. -/
def whiteSpace : LexicalRule :=
  ⟨.whiteSpace, oneOrMore (byteOf [0x09, 0x0B, 0x0C, 0x20])⟩

/-- LF, CR LF or CR. -/
def newline : LexicalRule :=
  ⟨.newline, oneOf [byte 0x0A, literal [0x0D, 0x0A], byte 0x0D]⟩

/-- Two slashes and the rest of the line. -/
def lineComment : LexicalRule :=
  ⟨.comment, .seq (literal (ascii "//")) (.star (charExcept [0x0A, 0x0D]))⟩

/-- From an opening mark to the first closing one: stars are followed by neither a star nor a slash
until the run of stars that a slash ends. -/
def blockComment : LexicalRule :=
  ⟨.comment,
    inOrder
      [literal (ascii "/*"),
       .star
         (.alt (charExcept (ascii "*"))
           (.seq (oneOrMore (byte 0x2A)) (charExcept (ascii "*/")))),
       oneOrMore (byte 0x2A),
       byte 0x2F]⟩

def wordStart : Pattern :=
  oneOf [.range 0x41 0x5A, .range 0x61 0x7A, byte 0x5F]

def wordByte : Pattern :=
  oneOf [.range 0x30 0x39, .range 0x41 0x5A, .range 0x61 0x7A, byte 0x5F]

def identifier : LexicalRule :=
  ⟨.identifier, .seq wordStart (.star wordByte)⟩

/-- A digit and any word bytes and points after it. -/
def number : LexicalRule :=
  ⟨.number, .seq (.range 0x30 0x39) (.star (.alt wordByte (byte 0x2E)))⟩

/-- A literal between two quotes on one line. A backslash takes the next character with it. -/
def quoted (kind : TokenKind) (quote : UInt8) : LexicalRule :=
  ⟨kind,
    inOrder
      [byte quote,
       .star (.alt (charExcept [0x0A, quote, 0x5C]) (.seq (byte 0x5C) (charExcept [0x0A]))),
       byte quote]⟩

/-- One operator character. -/
def operator : LexicalRule :=
  ⟨.operator, byteOf (ascii "+-/%&|^~!<>=?:.")⟩

/-- All rules in order of priority. -/
def all : List LexicalRule :=
  [whiteSpace, newline, lineComment, blockComment,
   fixed .includeDirective "#include", fixed .defineDirective "#define",
   fixed .ifndefDirective "#ifndef", fixed .endifDirective "#endif", fixed .directiveMarker "#",
   fixed .enumKeyword "enum", fixed .structKeyword "struct", fixed .typedefKeyword "typedef",
   fixed .intKeyword "int", fixed .floatKeyword "float", fixed .longKeyword "long",
   fixed .voidKeyword "void", fixed .charKeyword "char",
   identifier, number, quoted .stringLiteral 0x22, quoted .charLiteral 0x27,
   fixed .leftBrace "\x7b", fixed .rightBrace "\x7d", fixed .leftParen "(", fixed .rightParen ")",
   fixed .leftBracket "[", fixed .rightBracket "]", fixed .semicolon ";", fixed .comma ",",
   fixed .star "*", operator]

end LexicalRule

end HeaderBinding
