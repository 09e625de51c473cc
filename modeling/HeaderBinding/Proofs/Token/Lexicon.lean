import HeaderBinding.Proofs.Token.Encoding
import HeaderBinding.Token.Rule

/-!
# The lexicon over characters

The words of each kind of token are declared here over characters, with union, concatenation and
repetition of languages. A text belongs to an entry if it is the UTF-8 encoding of one of its words.
The patterns of the lexical rules, which read single bytes, have exactly these languages.
-/

namespace HeaderBinding

open scoped Computability

/-- A kind of token and the texts that may stand for it. -/
structure LexicalEntry where
  kind : TokenKind
  texts : Language UInt8

/-! ## Declarations -/

namespace Lexicon

def many (words : Language Char) : Language Char := words * words∗

def letter : Language Char := between 'A' 'Z' + between 'a' 'z' + anyOf ['_']

def digit : Language Char := between '0' '9'

/-- Stars, and then something that neither ends a comment nor is a star. -/
def starsInside : Language Char := many (anyOf ['*']) * noneOf ['*', '/']

/-- A character between two quotes that stands for itself, or any behind a backslash. -/
def quotedChar (quote : Char) : Language Char :=
  noneOf ['\n', quote, '\\'] + anyOf ['\\'] * noneOf ['\n']

def declare (kind : TokenKind) (words : Language Char) : LexicalEntry := ⟨kind, encoded words⟩

def quoted (kind : TokenKind) (quote : Char) : LexicalEntry :=
  declare kind (anyOf [quote] * (quotedChar quote)∗ * anyOf [quote])

/-- All entries in order of priority. -/
def entries : List LexicalEntry :=
  [declare .whiteSpace (many (anyOf ['\t', '\x0b', '\x0c', ' '])),
   declare .newline (text "\n" + text "\r\n" + text "\r"),
   declare .comment (text "//" * (noneOf ['\n', '\r'])∗),
   declare .comment
     (text "/*" * (noneOf ['*'] + starsInside)∗ * many (anyOf ['*']) * anyOf ['/']),
   declare .includeDirective (text "#include"), declare .defineDirective (text "#define"),
   declare .ifndefDirective (text "#ifndef"), declare .endifDirective (text "#endif"),
   declare .directiveMarker (text "#"),
   declare .enumKeyword (text "enum"), declare .structKeyword (text "struct"),
   declare .typedefKeyword (text "typedef"),
   declare .intKeyword (text "int"), declare .floatKeyword (text "float"),
   declare .longKeyword (text "long"), declare .voidKeyword (text "void"),
   declare .charKeyword (text "char"),
   declare .identifier (letter * (digit + letter)∗),
   declare .number (digit * (digit + letter + anyOf ['.'])∗),
   quoted .stringLiteral '\x22', quoted .charLiteral '\x27',
   declare .leftBrace (text "\x7b"), declare .rightBrace (text "\x7d"),
   declare .leftParen (text "("), declare .rightParen (text ")"),
   declare .leftBracket (text "["), declare .rightBracket (text "]"),
   declare .semicolon (text ";"), declare .comma (text ","), declare .star (text "*"),
   declare .operator
     (anyOf ['+', '-', '/', '%', '&', '|', '^', '~', '!', '<', '>', '=', '?', ':', '.'])]

end Lexicon

/-! ## The rules have the declared languages -/

namespace LexicalRule

open Pattern Lexicon

/-- The entry that a rule implements. -/
def entry (rule : LexicalRule) : LexicalEntry := ⟨rule.kind, rule.pattern.language⟩

theorem entry_eq_declare {rule : LexicalRule} {words : Language Char}
    (h : rule.pattern.language = encoded words) : rule.entry = declare rule.kind words := by
  rw [entry, declare, h]

theorem language_byte (c : Char) (h : c.toNat < 0x80) :
    (byte (byteOfChar c)).language = encoded (anyOf [c]) :=
  language_byteOf [c] (allAscii_iff.mpr (List.forall_mem_singleton.mpr h))

theorem language_oneOrMore {p : Pattern} {words : Language Char}
    (h : p.language = encoded words) : (oneOrMore p).language = encoded (many words) := by
  rw [oneOrMore, language_seq, language_star, many, encoded_mul, encoded_kstar, h]

theorem entry_fixed {kind : TokenKind} {t : String} (h : allAscii t.toList) :
    (fixed kind t).entry = declare kind (text t) :=
  entry_eq_declare (language_literal t h)

theorem entry_whiteSpace :
    whiteSpace.entry = declare .whiteSpace (many (anyOf ['\t', '\x0b', '\x0c', ' '])) :=
  entry_eq_declare (language_oneOrMore (language_byteOf ['\t', '\x0b', '\x0c', ' '] (by decide)))

theorem entry_newline :
    newline.entry = declare .newline (text "\n" + text "\r\n" + text "\r") := by
  have hlf : (byte 0x0A).language = encoded (text "\n") := language_literal "\n" (by decide)
  have hcrlf : (literal [0x0D, 0x0A]).language = encoded (text "\r\n") :=
    language_literal "\r\n" (by decide)
  have hcr : (byte 0x0D).language = encoded (text "\r") := language_literal "\r" (by decide)
  apply entry_eq_declare
  simp only [newline, oneOf, language_alt, hlf, hcrlf, hcr, encoded_add, add_assoc]

theorem entry_lineComment :
    lineComment.entry = declare .comment (text "//" * (noneOf ['\n', '\r'])∗) := by
  have hinside : (charExcept [0x0A, 0x0D]).language = encoded (noneOf ['\n', '\r']) :=
    language_charExcept ['\n', '\r'] (by decide) (by decide)
  apply entry_eq_declare
  rw [lineComment, language_seq, language_star, hinside, language_literal "//" (by decide),
    encoded_mul, encoded_kstar]

theorem entry_blockComment :
    blockComment.entry =
      declare .comment
        (text "/*" * (noneOf ['*'] + starsInside)∗ * many (anyOf ['*']) * anyOf ['/']) := by
  have hstar : (byte 0x2A).language = encoded (anyOf ['*']) := language_byte '*' (by decide)
  have hslash : (byte 0x2F).language = encoded (anyOf ['/']) := language_byte '/' (by decide)
  have hinside : (charExcept (ascii "*")).language = encoded (noneOf ['*']) :=
    language_charExcept ['*'] (by decide) (by decide)
  have hbehind : (charExcept (ascii "*/")).language = encoded (noneOf ['*', '/']) :=
    language_charExcept ['*', '/'] (by decide) (by decide)
  apply entry_eq_declare
  simp only [blockComment, inOrder, language_seq, language_star, language_alt,
    language_oneOrMore hstar, language_literal "/*" (by decide), hslash, hinside, hbehind,
    starsInside, encoded_mul, encoded_kstar, encoded_add, mul_assoc]

theorem language_wordStart : wordStart.language = encoded letter := by
  have hupper : (range 0x41 0x5A).language = encoded (between 'A' 'Z') :=
    language_range 'A' 'Z' (by decide) (by decide)
  have hlower : (range 0x61 0x7A).language = encoded (between 'a' 'z') :=
    language_range 'a' 'z' (by decide) (by decide)
  have hline : (byte 0x5F).language = encoded (anyOf ['_']) := language_byte '_' (by decide)
  simp only [wordStart, oneOf, language_alt, hupper, hlower, hline, letter, encoded_add, add_assoc]

theorem language_digit : (range 0x30 0x39).language = encoded digit :=
  language_range '0' '9' (by decide) (by decide)

theorem language_wordByte : wordByte.language = encoded (digit + letter) := by
  have hcons : wordByte.language = (range 0x30 0x39).language + wordStart.language :=
    language_oneOf_cons _
  rw [hcons, language_digit, language_wordStart, encoded_add]

theorem entry_identifier :
    identifier.entry = declare .identifier (letter * (digit + letter)∗) := by
  apply entry_eq_declare
  rw [identifier, language_seq, language_star, language_wordStart, language_wordByte, encoded_mul,
    encoded_kstar]

theorem entry_number :
    number.entry = declare .number (digit * (digit + letter + anyOf ['.'])∗) := by
  have hpoint : (byte 0x2E).language = encoded (anyOf ['.']) := language_byte '.' (by decide)
  apply entry_eq_declare
  rw [number, language_seq, language_star, language_alt, language_digit, language_wordByte, hpoint,
    encoded_mul, encoded_kstar, ← encoded_add]

theorem entry_quoted {kind : TokenKind} (quote : Char) (hquote : quote.toNat < 0x80)
    (hascending : (['\n', quote, '\\'].map byteOfChar).Pairwise (· < ·)) :
    (LexicalRule.quoted kind (byteOfChar quote)).entry = Lexicon.quoted kind quote := by
  have hmark := language_byte quote hquote
  have hslash : (byte 0x5C).language = encoded (anyOf ['\\']) := language_byte '\\' (by decide)
  have hplain : (charExcept [0x0A, byteOfChar quote, 0x5C]).language =
      encoded (noneOf ['\n', quote, '\\']) :=
    language_charExcept ['\n', quote, '\\'] hascending (by simp [allAscii, hquote])
  have hany : (charExcept [0x0A]).language = encoded (noneOf ['\n']) :=
    language_charExcept ['\n'] (by decide) (by decide)
  apply entry_eq_declare
  simp only [LexicalRule.quoted, inOrder, language_seq, language_star, language_alt, hmark, hslash,
    hplain, hany, quotedChar, encoded_mul, encoded_kstar, encoded_add, mul_assoc]

theorem entry_operator :
    operator.entry =
      declare .operator
        (anyOf ['+', '-', '/', '%', '&', '|', '^', '~', '!', '<', '>', '=', '?', ':', '.']) :=
  entry_eq_declare (language_byteOf _ (by decide))

theorem map_entry_all : all.map entry = Lexicon.entries := by
  have hstring : (LexicalRule.quoted .stringLiteral 0x22).entry =
      Lexicon.quoted .stringLiteral '\x22' := entry_quoted '\x22' (by decide) (by decide)
  have hchar : (LexicalRule.quoted .charLiteral 0x27).entry =
      Lexicon.quoted .charLiteral '\x27' := entry_quoted '\x27' (by decide) (by decide)
  simp (disch := decide) only [all, List.map_cons, List.map_nil, entry_fixed, entry_whiteSpace,
    entry_newline, entry_lineComment, entry_blockComment, entry_identifier, entry_number, hstring,
    hchar, entry_operator]
  rfl

end LexicalRule

end HeaderBinding
