import HeaderBinding.Text.Basic

/-!
# Patterns of tokens

A pattern is a regular expression over bytes. `Matches` is its language; `derivative` and `nullable`
decide membership one byte at a time, and `isVoid` tells when no continuation can match.
-/

namespace HeaderBinding

/-- A regular expression over bytes. -/
inductive Pattern where
  /-- Matches nothing. -/
  | void
  /-- Matches the empty text. -/
  | empty
  /-- Matches one byte between two bounds, both included. -/
  | range (low high : UInt8)
  | seq (first second : Pattern)
  | alt (left right : Pattern)
  | star (body : Pattern)
deriving Repr, DecidableEq

namespace Pattern

/-- The language of a pattern. -/
inductive Matches : Pattern → Bytes → Prop where
  | empty : Matches .empty []
  | range {low high b : UInt8} (hl : low ≤ b) (hh : b ≤ high) : Matches (.range low high) [b]
  | seq {p q : Pattern} {s t : Bytes} : Matches p s → Matches q t → Matches (.seq p q) (s ++ t)
  | altLeft {p q : Pattern} {s : Bytes} : Matches p s → Matches (.alt p q) s
  | altRight {p q : Pattern} {s : Bytes} : Matches q s → Matches (.alt p q) s
  | starNil {p : Pattern} : Matches (.star p) []
  | starCons {p : Pattern} {s t : Bytes} :
      Matches p s → Matches (.star p) t → Matches (.star p) (s ++ t)

/-! ## Building patterns -/

def byte (b : UInt8) : Pattern :=
  .range b b

/-- Matches just the given text. -/
def literal : Bytes → Pattern
  | [] => .empty
  | [b] => byte b
  | b :: s => .seq (byte b) (literal s)

/-- Matches what one of the patterns matches. -/
def oneOf : List Pattern → Pattern
  | [] => .void
  | [p] => p
  | p :: ps => .alt p (oneOf ps)

/-- Matches the patterns one after another. -/
def inOrder : List Pattern → Pattern
  | [] => .empty
  | [p] => p
  | p :: ps => .seq p (inOrder ps)

def oneOrMore (p : Pattern) : Pattern :=
  .seq p (.star p)

/-- Matches one byte that stands in the text. -/
def byteOf (s : Bytes) : Pattern :=
  oneOf (s.map byte)

/-- Matches one ASCII byte that does not stand in the text. -/
def asciiExcept (s : Bytes) : Pattern :=
  oneOf (gaps 0x00 s)
where
  /-- The ranges of ASCII from `low` on that avoid the bytes of an ascending text. -/
  gaps (low : UInt8) : Bytes → List Pattern
    | [] => [.range low 0x7F]
    | b :: s => if low < b then .range low (b - 1) :: gaps (b + 1) s else gaps (b + 1) s

/-- Matches the encoding of one code point beyond ASCII: no overlong form, no surrogate, nothing
above the last code point. -/
def beyondAscii : Pattern :=
  oneOf
    [inOrder [.range 0xC2 0xDF, continuation],
     inOrder [byte 0xE0, .range 0xA0 0xBF, continuation],
     inOrder [.range 0xE1 0xEC, continuation, continuation],
     inOrder [byte 0xED, .range 0x80 0x9F, continuation],
     inOrder [.range 0xEE 0xEF, continuation, continuation],
     inOrder [byte 0xF0, .range 0x90 0xBF, continuation, continuation],
     inOrder [.range 0xF1 0xF3, continuation, continuation, continuation],
     inOrder [byte 0xF4, .range 0x80 0x8F, continuation, continuation]]
where
  continuation : Pattern := .range 0x80 0xBF

/-- Matches the encoding of one code point that is not one of the given ASCII bytes, which ascend.
-/
def charExcept (s : Bytes) : Pattern :=
  .alt (asciiExcept s) beyondAscii

/-! ## Matching byte by byte -/

/-- Does the pattern match the empty text? -/
def nullable : Pattern → Bool
  | .void => false
  | .empty => true
  | .range _ _ => false
  | .seq p q => p.nullable && q.nullable
  | .alt p q => p.nullable || q.nullable
  | .star _ => true

/-- Does the pattern match no text at all? -/
def isVoid : Pattern → Bool
  | .void => true
  | .empty => false
  | .range low high => high < low
  | .seq p q => p.isVoid || q.isVoid
  | .alt p q => p.isVoid && q.isVoid
  | .star _ => false

/-- A sequence, simplified at the neutral and absorbing patterns. -/
def thenMatch : Pattern → Pattern → Pattern
  | .void, _ => .void
  | .empty, q => q
  | p, q => .seq p q

/-- An alternative, simplified at the neutral pattern. -/
def orMatch : Pattern → Pattern → Pattern
  | .void, q => q
  | p, .void => p
  | p, q => .alt p q

/-- The pattern of what may follow a byte: it matches `s` if and only if the given pattern matches
`b :: s`. -/
def derivative (b : UInt8) : Pattern → Pattern
  | .void => .void
  | .empty => .void
  | .range low high => if low ≤ b && b ≤ high then .empty else .void
  | .seq p q =>
    if p.nullable then orMatch (thenMatch (p.derivative b) q) (q.derivative b)
    else thenMatch (p.derivative b) q
  | .alt p q => orMatch (p.derivative b) (q.derivative b)
  | .star p => thenMatch (p.derivative b) (.star p)

end Pattern

end HeaderBinding
