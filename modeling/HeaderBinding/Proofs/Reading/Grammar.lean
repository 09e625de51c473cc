import HeaderBinding.Directive
import HeaderBinding.Reading.Outcome

/-!
# The grammar of a header

A header is a sequence of items. Layout may stand before every token of an item and counts only in
directive lines and in the bodies of enums. Line breaks are allowed around the braces of a body,
before the `;` of an item, and among members, parameters and enumerators; anywhere else a line break
is an item of its own.
-/

namespace HeaderBinding

/-- The tokens that are not layout. -/
def significant (tokens : List Token) : List Token :=
  tokens.filter fun t => !t.kind.isLayout

/-- The tokens that are neither layout nor line breaks. -/
def solid (tokens : List Token) : List Token :=
  tokens.filter fun t => !t.kind.isLayoutOrNewline

namespace Grammar

/-! ## Members and parameters -/

/-- The keywords that spell a scalar type. -/
inductive ScalarType : List TokenKind → Scalar → Prop where
  | int : ScalarType [.intKeyword] .int
  | float : ScalarType [.floatKeyword] .float
  | long : ScalarType [.longKeyword] .long
  | longLong : ScalarType [.longKeyword, .longKeyword] .longLong
  | void : ScalarType [.voidKeyword] .void
  | char : ScalarType [.charKeyword] .char

/-- One member or parameter: a scalar type and a name, or `enum`, a tag and a name. -/
inductive ArgumentForm (o : ReadOptions) : List Token → Argument → Prop where
  | scalar {type : List Token} {name : Token} {s : Scalar} :
      ScalarType (type.map Token.kind) s → name.kind = .identifier →
      ArgumentForm o (type ++ [name]) ⟨name.text, .scalar s⟩
  | enum {keyword tag name : Token} :
      o.noInlineEnum = false → keyword.kind = .enumKeyword → tag.kind = .identifier →
      name.kind = .identifier →
      ArgumentForm o [keyword, tag, name] ⟨name.text, .enum tag.text⟩

/-- Members, each with its `;`. A `;` may also stand alone. -/
inductive Members (o : ReadOptions) : List Token → List Argument → Prop where
  | nil : Members o [] []
  | semicolon {t : Token} {tokens : List Token} {members : List Argument} :
      t.kind = .semicolon → Members o tokens members → Members o (t :: tokens) members
  | member {form tokens : List Token} {t : Token} {a : Argument} {members : List Argument} :
      ArgumentForm o form a → t.kind = .semicolon → Members o tokens members →
      Members o (form ++ t :: tokens) (a :: members)

/-- One or more parameters with commas between them. -/
inductive Parameters (o : ReadOptions) : List Token → List Argument → Prop where
  | last {form : List Token} {a : Argument} : ArgumentForm o form a → Parameters o form [a]
  | cons {form tokens : List Token} {t : Token} {a : Argument} {parameters : List Argument} :
      ArgumentForm o form a → t.kind = .comma → Parameters o tokens parameters →
      Parameters o (form ++ t :: tokens) (a :: parameters)

/-- What stands between parentheses: nothing, `void` alone, or parameters. -/
inductive ParameterList (o : ReadOptions) : List Token → List Argument → Prop where
  | empty : ParameterList o [] []
  | void {t : Token} : t.kind = .voidKeyword → ParameterList o [t] []
  | parameters {tokens : List Token} {parameters : List Argument} :
      Parameters o tokens parameters → ParameterList o tokens parameters

/-! ## Enumerators -/

/-- The tokens that no enumerator holds. -/
def endsEnumerator (t : Token) : Bool :=
  t.kind == .comma || t.kind == .leftBrace || t.kind == .rightBrace || t.kind == .semicolon ||
    t.kind == .invalid

/-- The tokens whose texts make up an enumerator: all but comments and line breaks. -/
def isEnumeratorText (t : Token) : Bool :=
  t.kind != .comment && t.kind != .newline

/-- The text of an enumerator, without the blanks around it. -/
def enumeratorText (piece : List Token) : Bytes :=
  Bytes.trim (Token.concat (piece.filter isEnumeratorText))

/-- Enumerators with commas between them. Only the last one may be empty, and then counts for
nothing. -/
inductive Enumerators : List Token → List Bytes → Prop where
  | empty {piece : List Token} :
      (∀ t ∈ piece, endsEnumerator t = false) → enumeratorText piece = [] →
      Enumerators piece []
  | last {piece : List Token} :
      (∀ t ∈ piece, endsEnumerator t = false) → enumeratorText piece ≠ [] →
      Enumerators piece [enumeratorText piece]
  | cons {piece tokens : List Token} {t : Token} {texts : List Bytes} :
      (∀ t ∈ piece, endsEnumerator t = false) → enumeratorText piece ≠ [] → t.kind = .comma →
      Enumerators tokens texts →
      Enumerators (piece ++ t :: tokens) (enumeratorText piece :: texts)

/-! ## Bodies -/

def StructBody (o : ReadOptions) (body : List Token) (members : List Argument) : Prop :=
  Members o (solid body) members

/-- Line breaks in the body of an enum are an option. -/
def EnumBody (o : ReadOptions) (body : List Token) (attributes : List Bytes) : Prop :=
  Enumerators body attributes ∧ (o.multilineEnum = true ∨ ∀ t ∈ body, t.kind ≠ .newline)

/-- A body in braces, with line breaks allowed before it. -/
inductive Block {α : Type} (inside : List Token → α → Prop) : List Token → α → Prop where
  | mk {gap body : List Token} {left right : Token} {value : α} :
      solid gap = [] → left.kind = .leftBrace → inside body value → right.kind = .rightBrace →
      Block inside (gap ++ left :: (body ++ [right])) value

/-- What stands behind a body or a parameter list: a name, if there is one, and a `;`. Line breaks
are allowed before both. -/
inductive Ending : List Token → Option Token → Prop where
  | mk {front : List Token} {name : Option Token} {t : Token} :
      solid front = name.toList → (∀ n ∈ name, n.kind = .identifier) → t.kind = .semicolon →
      Ending (front ++ [t]) name

/-! ## Items -/

/-- An item from its first token on, with what it declares. -/
inductive Item (o : ReadOptions) : List Token → Option Declaration → Prop where
  | separator {t : Token} : t.kind = .newline ∨ t.kind = .semicolon → Item o [t] none
  | enum {keyword name : Token} {head block tail : List Token} {attributes : List Bytes} :
      keyword.kind = .enumKeyword → significant head = [name] → name.kind = .identifier →
      Block (EnumBody o) block attributes → Ending tail none →
      Item o (keyword :: (head ++ (block ++ tail))) (some (.enum ⟨name.text, attributes⟩))
  | struct {keyword name : Token} {head block tail : List Token} {members : List Argument} :
      keyword.kind = .structKeyword → significant head = [name] → name.kind = .identifier →
      Block (StructBody o) block members → Ending tail none →
      Item o (keyword :: (head ++ (block ++ tail))) (some (.struct ⟨name.text, members⟩))
  | typedefEnum {first keyword last : Token} {tag name : Option Token}
      {head block tail : List Token} {attributes : List Bytes} :
      first.kind = .typedefKeyword → significant head = keyword :: tag.toList →
      keyword.kind = .enumKeyword → (∀ t ∈ tag, t.kind = .identifier) →
      Block (EnumBody o) block attributes → Ending tail name → name.or tag = some last →
      Item o (first :: (head ++ (block ++ tail))) (some (.enum ⟨last.text, attributes⟩))
  | typedefStruct {first keyword last : Token} {tag name : Option Token}
      {head block tail : List Token} {members : List Argument} :
      first.kind = .typedefKeyword → significant head = keyword :: tag.toList →
      keyword.kind = .structKeyword → (∀ t ∈ tag, t.kind = .identifier) →
      Block (StructBody o) block members → Ending tail name → name.or tag = some last →
      Item o (first :: (head ++ (block ++ tail))) (some (.struct ⟨last.text, members⟩))
  | prototype {first name left right : Token} {type head body tail : List Token} {s : Scalar}
      {parameters : List Argument} :
      ScalarType (first.kind :: type.map Token.kind) s → significant head = type ++ [name] →
      name.kind = .identifier → left.kind = .leftParen →
      ParameterList o (solid body) parameters → right.kind = .rightParen → Ending tail none →
      Item o (first :: (head ++ left :: (body ++ right :: tail)))
        (some (.prototype ⟨name.text, .scalar s, parameters⟩))

/-- A directive and the rest of its line, up to a line break or a `;`. -/
inductive DirectiveLine : List Token → Option Declaration → Prop where
  | mk {t : Token} {line : List Token} {declaration : Option Declaration} :
      t.kind.isDirective = true → (∀ u ∈ line, u.kind ≠ .newline ∧ u.kind ≠ .semicolon) →
      parseStatement (Token.concat (t :: line)) = .ok declaration →
      DirectiveLine (t :: line) declaration

/-- A whole header, with its declarations in order. A directive line reaches as far as it can. -/
inductive Items (o : ReadOptions) : List Token → List Declaration → Prop where
  | nil {layout : List Token} : significant layout = [] → Items o layout []
  | item {layout front tokens : List Token} {declaration : Option Declaration}
      {declarations : List Declaration} :
      significant layout = [] → Item o front declaration → Items o tokens declarations →
      Items o (layout ++ (front ++ tokens)) (declaration.toList ++ declarations)
  | directive {layout front tokens : List Token} {declaration : Option Declaration}
      {declarations : List Declaration} :
      significant layout = [] → DirectiveLine front declaration →
      (∀ t ∈ tokens.head?, t.kind = .newline ∨ t.kind = .semicolon) →
      Items o tokens declarations →
      Items o (layout ++ (front ++ tokens)) (declaration.toList ++ declarations)

end Grammar

end HeaderBinding
