import HeaderBinding.Token.Rule

/-!
# Cutting a source into tokens

The next token is the longest text that some rule matches, and its kind is that of the first such
rule. If no rule matches, the bytes up to and including the one at which every rule has failed are
invalid; neighbouring invalid pieces are one token.
-/

namespace HeaderBinding

namespace Lexer

/-! ## The longest match -/

/-- The rules that can still match after a byte, with what they may go on to match. -/
def advance (b : UInt8) (rules : List LexicalRule) : List LexicalRule :=
  (rules.map fun rule => { rule with pattern := rule.pattern.derivative b }).filter
    fun rule => !rule.pattern.isVoid

/-- The kind of the first rule that matches what has been read. -/
def accepted? (rules : List LexicalRule) : Option TokenKind :=
  (rules.find? fun rule => rule.pattern.nullable).map LexicalRule.kind

/-- What reading on from a byte has found. Both numbers count bytes after that first byte. -/
structure Scan where
  /-- The kind and the size of the longest match. -/
  accepted : Option (TokenKind × Nat)
  /-- The bytes read, with the one at which every rule failed. -/
  read : Nat
deriving Repr, DecidableEq

/-- Reads on while some rule is alive, remembering the last match. -/
def scanRest (live : List LexicalRule) (count : Nat) (best : Option (TokenKind × Nat)) :
    Bytes → Scan
  | [] => ⟨best, count⟩
  | b :: s =>
    let next := advance b live
    if next.isEmpty then ⟨best, count + 1⟩
    else scanRest next (count + 1) (((accepted? next).map (·, count + 1)).or best) s

/-- Reads from the start of `b :: s` until every rule has failed or the text ends. -/
def scan (b : UInt8) (s : Bytes) : Scan :=
  let live := advance b LexicalRule.all
  if live.isEmpty then ⟨none, 0⟩
  else scanRest live 0 ((accepted? live).map (·, 0)) s

/-! ## Rows and columns -/

/-- A row and a column, both from 1. -/
structure Cursor where
  row : Nat
  column : Nat
deriving Repr, DecidableEq

namespace Cursor

/-- A line feed starts a row; an ASCII byte or the first byte of an encoding is a column of its own.
-/
def step (c : Cursor) (b : UInt8) : Cursor :=
  if b = lineFeed then ⟨c.row + 1, 1⟩
  else if b < 0x80 || (0xC0 ≤ b && b ≤ 0xF7) then ⟨c.row, c.column + 1⟩
  else c

def past (c : Cursor) (s : Bytes) : Cursor :=
  s.foldl step c

end Cursor

/-! ## Pieces -/

/-- A cut of the source before neighbouring invalid pieces are joined. -/
structure Piece where
  kind : TokenKind
  text : Bytes
  cursor : Cursor
deriving Repr, DecidableEq

/-- The pieces of a source. After a match the cursor stands one byte before the end of what was
read, not at the end of the match: the two differ after a match that needed more than one byte of
look-ahead. -/
def pieces (c : Cursor) : Bytes → List Piece
  | [] => []
  | b :: s =>
    match (scan b s).accepted with
    | some (kind, size) =>
      ⟨kind, b :: s.take size, c⟩
        :: pieces (c.past ((b :: s).take (scan b s).read)) (s.drop size)
    | none =>
      ⟨.invalid, b :: s.take (scan b s).read, c⟩
        :: pieces (c.past (b :: s.take (scan b s).read)) (s.drop (scan b s).read)
termination_by s => s.length
decreasing_by all_goals simp only [List.length_drop, List.length_cons]; omega

/-- Puts a piece before others, joining it with the first of them if both are invalid. -/
def joinInvalid (p : Piece) : List Piece → List Piece
  | [] => [p]
  | q :: others =>
    if p.kind = .invalid ∧ q.kind = .invalid then { p with text := p.text ++ q.text } :: others
    else p :: q :: others

/-- The pieces as tokens, the first at the given offset and each behind the one before it. -/
def place (offset : Nat) : List Piece → List Token
  | [] => []
  | p :: others =>
    ⟨p.kind, p.text, ⟨offset, p.cursor.row, p.cursor.column⟩⟩
      :: place (offset + p.text.length) others

end Lexer

/-- The tokens of a source. -/
def tokenize (source : Bytes) : List Token :=
  Lexer.place 0 ((Lexer.pieces ⟨1, 1⟩ source).foldr Lexer.joinInvalid [])

end HeaderBinding
