import HeaderBinding.Text.Basic

/-!
# Tokens of a header

A token keeps its text and the place where it starts. Blanks, comments and line breaks are tokens
too, so the texts of all tokens of a source make up the source.
-/

namespace HeaderBinding

inductive TokenKind where
  | whiteSpace
  | newline
  | comment
  | includeDirective
  | defineDirective
  | ifndefDirective
  | endifDirective
  /-- A `#` that starts none of the known directives. -/
  | directiveMarker
  | enumKeyword
  | structKeyword
  | typedefKeyword
  | intKeyword
  | floatKeyword
  | longKeyword
  | voidKeyword
  | charKeyword
  | identifier
  | number
  | stringLiteral
  | charLiteral
  | leftBrace
  | rightBrace
  | leftParen
  | rightParen
  | leftBracket
  | rightBracket
  | semicolon
  | comma
  | star
  | operator
  /-- Bytes that start no token. -/
  | invalid
deriving Repr, DecidableEq

namespace TokenKind

/-- Layout separates tokens and means nothing else. -/
def isLayout : TokenKind → Bool
  | .whiteSpace | .comment => true
  | _ => false

/-- The first token of a directive line. -/
def isDirective : TokenKind → Bool
  | .includeDirective | .defineDirective | .ifndefDirective | .endifDirective => true
  | .directiveMarker => true
  | _ => false

/-- Layout, or a line break where line breaks do not matter. -/
def isLayoutOrNewline (k : TokenKind) : Bool :=
  k.isLayout || k == .newline

/-- The name of a kind in a token listing. -/
def name : TokenKind → String
  | .whiteSpace => "white space"
  | .newline => "newline"
  | .comment => "comment"
  | .includeDirective => "#include"
  | .defineDirective => "#define"
  | .ifndefDirective => "#ifndef"
  | .endifDirective => "#endif"
  | .directiveMarker => "#"
  | .enumKeyword => "enum"
  | .structKeyword => "struct"
  | .typedefKeyword => "typedef"
  | .intKeyword => "int"
  | .floatKeyword => "float"
  | .longKeyword => "long"
  | .voidKeyword => "void"
  | .charKeyword => "char"
  | .identifier => "id"
  | .number => "number"
  | .stringLiteral => "string"
  | .charLiteral => "character"
  | .leftBrace => "\x7b"
  | .rightBrace => "\x7d"
  | .leftParen => "("
  | .rightParen => ")"
  | .leftBracket => "["
  | .rightBracket => "]"
  | .semicolon => ";"
  | .comma => ","
  | .star => "*"
  | .operator => "operator"
  | .invalid => "invalid"

end TokenKind

/-- A place in a source: a byte offset, and a row and a column that count from 1. -/
structure Position where
  offset : Nat
  row : Nat
  column : Nat
deriving Repr, DecidableEq

namespace Position

def start : Position := ⟨0, 1, 1⟩

/-- The place reported for the end of a source: its length, in the first row and column. -/
def endOf (source : Bytes) : Position := ⟨source.length, 1, 1⟩

end Position

structure Token where
  kind : TokenKind
  text : Bytes
  position : Position
deriving Repr, DecidableEq

namespace Token

/-- The texts of the tokens one after another. -/
def concat (tokens : List Token) : Bytes :=
  (tokens.map Token.text).flatten

@[simp] theorem concat_nil : concat [] = [] := rfl

@[simp] theorem concat_cons (t : Token) (tokens : List Token) :
    concat (t :: tokens) = t.text ++ concat tokens := by
  simp [concat]

@[simp] theorem concat_append (front tokens : List Token) :
    concat (front ++ tokens) = concat front ++ concat tokens := by
  simp [concat]

/-- The texts of the tokens with a space between neighbours. -/
def spaced (tokens : List Token) : Bytes :=
  Bytes.join (ascii " ") (tokens.map Token.text)

end Token

end HeaderBinding
