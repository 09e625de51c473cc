import HeaderBinding.Declaration.Basic
import HeaderBinding.Reading.Outcome

/-!
# Members, parameters and enumerators

Members and parameters have the shape of a type and a name. The tokens of one member are gathered up
to the mark that ends it and then read as a whole.
-/

namespace HeaderBinding

/-! ## One member -/

/-- A declarator mark that no member may hold. -/
def Token.isDeclaratorMark (t : Token) : Bool :=
  t.kind == .star || t.kind == .leftBracket || t.kind == .rightBracket

/-- A type at the front of `first :: others`, with the tokens behind it. -/
def scalarAt? (first : Token) (others : List Token) : Option (Scalar × List Token) :=
  match others with
  | second :: rest =>
    if first.kind = .longKeyword ∧ second.kind = .longKeyword then some (.longLong, rest)
    else (Scalar.ofKeyword? first.kind).map (·, others)
  | [] => (Scalar.ofKeyword? first.kind).map (·, others)

namespace Argument

/-- Reads `enum Tag name` from the tokens behind the keyword. -/
def ofEnumTokens? : List Token → Option Argument
  | [tag, name] =>
    if tag.kind = .identifier ∧ name.kind = .identifier then some ⟨name.text, .enum tag.text⟩
    else none
  | _ => none

/-- Reads a name and nothing else. -/
def ofNameTokens? (type : CType) : List Token → Option Argument
  | [name] => if name.kind = .identifier then some ⟨name.text, type⟩ else none
  | _ => none

/-- Reads the tokens of one member or parameter: a scalar type or `enum Tag`, and a name. The cause
`malformed` is reported for any other shape. -/
def ofTokens (o : ReadOptions) (malformed : SyntaxError) (first : Token) (others : List Token) :
    Except Fault Argument :=
  let detail := Token.spaced (first :: others)
  match (first :: others).find? Token.isDeclaratorMark with
  | some mark => .error ⟨.pointerMember, detail, mark.position⟩
  | none =>
    if first.kind = .enumKeyword then
      if o.noInlineEnum then .error ⟨.inlineEnumField, detail, first.position⟩
      else match ofEnumTokens? others with
        | some a => .ok a
        | none => .error ⟨malformed, detail, first.position⟩
    else match scalarAt? first others with
      | some (type, rest) =>
        match ofNameTokens? (.scalar type) rest with
        | some a => .ok a
        | none => .error ⟨malformed, detail, first.position⟩
      | none =>
        if first.kind = .identifier then .error (first.fault .unknownType)
        else .error ⟨malformed, detail, first.position⟩

end Argument

/-! ## Struct members -/

/-- What ends a list of members. -/
inductive Closer where
  | brace
  /-- The end of the source, reported at the given place. -/
  | endOfSource (position : Position)
deriving Repr, DecidableEq

/-- Reads members up to and including the closer. The members read so far and the tokens of the
current one are at hand; a `;` ends a member, and one without a member before it is ignored. -/
def readMembers (o : ReadOptions) (c : Construct) (closer : Closer) (done : Array Argument)
    (current : Array Token) : List Token → Outcome (List Argument)
  | [] =>
    match closer with
    | .brace => c.cut
    | .endOfSource position =>
      if current.isEmpty then .done done.toList []
      else .broken ⟨.noMemberEnd, Token.spaced current.toList, position⟩ []
  | t :: rest =>
    match t.kind with
    | .whiteSpace | .comment | .newline => readMembers o c closer done current rest
    | .semicolon =>
      match current.toList with
      | [] => readMembers o c closer done #[] rest
      | first :: others =>
        match Argument.ofTokens o .malformedMember first others with
        | .ok a => readMembers o c closer (done.push a) #[] rest
        | .error fault => .broken fault rest
    | .rightBrace =>
      if current.isEmpty ∧ closer = .brace then .done done.toList rest
      else .broken ⟨.noMemberEnd, Token.spaced current.toList, t.position⟩ (t :: rest)
    | .leftBrace =>
      .broken ⟨.malformedMember, Token.spaced (current.push t).toList, t.position⟩ (t :: rest)
    | _ => readMembers o c closer done (current.push t) rest

/-! ## Parameters -/

/-- Reads parameters up to and including the closing parenthesis. -/
def readParameters (o : ReadOptions) (c : Construct) (done : Array Argument)
    (current : Array Token) : List Token → Outcome (List Argument)
  | [] => c.cut
  | t :: rest =>
    match t.kind with
    | .whiteSpace | .comment | .newline => readParameters o c done current rest
    | .comma =>
      match current.toList with
      | [] => .broken ⟨.noParameterName, c.description, t.position⟩ rest
      | first :: others =>
        match Argument.ofTokens o .noParameterName first others with
        | .ok a => readParameters o c (done.push a) #[] rest
        | .error fault => .broken fault rest
    | .rightParen =>
      match current.toList with
      | [] => .broken ⟨.noParameterName, c.description, t.position⟩ rest
      | first :: others =>
        match Argument.ofTokens o .noParameterName first others with
        | .ok a => .done (done.push a).toList rest
        | .error fault => .broken fault rest
    | .leftParen | .leftBrace | .rightBrace | .semicolon =>
      .broken ⟨.malformedMember, Token.spaced (current.push t).toList, t.position⟩ (t :: rest)
    | _ => readParameters o c done (current.push t) rest

/-- Reads what follows the opening parenthesis: nothing, `void` alone, or parameters. -/
def readParameterList (o : ReadOptions) (c : Construct) (tokens : List Token) :
    Outcome (List Argument) :=
  match skipLines tokens with
  | [] => c.cut
  | t :: rest =>
    if t.kind = .rightParen then .done [] rest
    else if t.kind = .voidKeyword then
      match skipLines rest with
      | [] => c.cut
      | u :: behind =>
        if u.kind = .rightParen then .done [] behind
        else readParameters o c #[] #[t] (u :: behind)
    else readParameters o c #[] #[] (t :: rest)

/-! ## Enumerators -/

/-- Reads enumerators up to and including the closing brace. Comments and line breaks drop out of an
enumerator's text, and blanks around it are cut off. The last enumerator may be empty, no other. -/
def readEnumerators (o : ReadOptions) (c : Construct) (done : Array Bytes) (current : Array UInt8)
    (multiline : Bool) : List Token → Outcome (List Bytes)
  | [] => c.cut
  | t :: rest =>
    match t.kind with
    | .comment => readEnumerators o c done current multiline rest
    | .newline => readEnumerators o c done current true rest
    | .comma =>
      if (Bytes.trim current.toList).isEmpty then
        .broken ⟨.emptyEnumerator, c.description, t.position⟩ rest
      else readEnumerators o c (done.push (Bytes.trim current.toList)) #[] multiline rest
    | .rightBrace =>
      if multiline ∧ ¬ o.multilineEnum then .broken (c.fault .multilineEnum) rest
      else if (Bytes.trim current.toList).isEmpty then .done done.toList rest
      else .done (done.push (Bytes.trim current.toList)).toList rest
    | .leftBrace | .semicolon | .invalid => .broken (t.fault .invalidEnumItem) rest
    | _ => readEnumerators o c done (current ++ t.text) multiline rest

end HeaderBinding
