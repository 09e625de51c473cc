import HeaderBinding.Directive
import HeaderBinding.Reading.Member

/-!
# Top-level constructs

Each reader starts behind the first token of its construct and ends behind the construct. A line
break may stand before a brace, behind one and among members and parameters, but not between a
keyword and the name that belongs to it.
-/

namespace HeaderBinding

/-! ## Bodies -/

/-- Reads an opening brace, and what follows it with the given reader. -/
def readBody {α : Type} (c : Construct) (inside : List Token → Outcome α) (tokens : List Token) :
    Outcome α :=
  match skipLines tokens with
  | [] => c.cut
  | t :: rest =>
    if t.kind = .leftBrace then inside rest
    else .broken ⟨.noBody, c.description, t.position⟩ (t :: rest)

def readEnumBody (o : ReadOptions) (c : Construct) (tokens : List Token) : Outcome (List Bytes) :=
  readBody c (readEnumerators o c #[] #[] false) tokens

def readStructBody (o : ReadOptions) (c : Construct) (tokens : List Token) :
    Outcome (List Argument) :=
  readBody c (readMembers o c .brace #[] #[]) tokens

/-- Reads the `;` behind a construct. -/
def readEnd (c : Construct) (tokens : List Token) : Outcome Unit :=
  match skipLines tokens with
  | [] => c.cut
  | t :: rest =>
    if t.kind = .semicolon then .done () rest else .broken (t.fault .trailingDeclarator) (t :: rest)

/-! ## Enums and structs -/

def readEnum (o : ReadOptions) (start : Position) (tokens : List Token) : Outcome Enum :=
  match skipLayout tokens with
  | [] => .broken ⟨.unclosedEnum, ascii "enum", start⟩ []
  | t :: rest =>
    if t.kind = .identifier then
      (readEnumBody o ⟨ascii "enum " ++ t.text, start, .unclosedEnum⟩ rest).map (⟨t.text, ·⟩)
    else .broken (t.fault .noEnumName) (t :: rest)

def readEnumDeclaration (o : ReadOptions) (start : Position) (tokens : List Token) :
    Outcome Declaration :=
  (readEnum o start tokens).andThen fun e rest =>
    (readEnd ⟨ascii "enum " ++ e.name, start, .unclosedEnum⟩ rest).map fun _ => .enum e

def readStructDeclaration (o : ReadOptions) (start : Position) (tokens : List Token) :
    Outcome Declaration :=
  match skipLayout tokens with
  | [] => .broken ⟨.unclosedStruct, ascii "struct", start⟩ []
  | t :: rest =>
    if t.kind = .identifier then
      let c : Construct := ⟨ascii "struct " ++ t.text, start, .unclosedStruct⟩
      (readStructBody o c rest).andThen fun members rest =>
        (readEnd c rest).map fun _ => .struct ⟨t.text, members⟩
    else .broken (t.fault .noStructName) (t :: rest)

/-! ## Type definitions -/

/-- The tag in front of a body, if there is one, and the tokens behind it. -/
def takeTag (tokens : List Token) : Option Bytes × List Token :=
  match skipLayout tokens with
  | [] => (none, [])
  | t :: rest => if t.kind = .identifier then (some t.text, rest) else (none, t :: rest)

/-- The construct of a type definition, described by its words and its tag. -/
def typedefConstruct (words : String) (tag : Option Bytes) (start : Position) : Construct :=
  match tag with
  | some tag => ⟨ascii words ++ ascii " " ++ tag, start, .unclosedTypedef⟩
  | none => ⟨ascii words, start, .unclosedTypedef⟩

/-- Reads the name behind the body and the `;`. The name may be left out if there is a tag. -/
def readTypedefName (c : Construct) (tag : Option Bytes) (noName : SyntaxError)
    (tokens : List Token) : Outcome Bytes :=
  match skipLines tokens with
  | [] => c.cut
  | t :: rest =>
    if t.kind = .identifier then (readEnd c rest).map fun _ => t.text
    else match tag with
      | some tag => (readEnd c (t :: rest)).map fun _ => tag
      | none => .broken ⟨noName, c.description, t.position⟩ (t :: rest)

def readTypedefStruct (o : ReadOptions) (start : Position) (tokens : List Token) :
    Outcome Declaration :=
  let tag := (takeTag tokens).1
  let c := typedefConstruct "typedef struct" tag start
  (readStructBody o c (takeTag tokens).2).andThen fun members rest =>
    (readTypedefName c tag .noStructName rest).map fun name => .struct ⟨name, members⟩

def readTypedefEnum (o : ReadOptions) (start : Position) (tokens : List Token) :
    Outcome Declaration :=
  let tag := (takeTag tokens).1
  let c := typedefConstruct "typedef enum" tag start
  (readEnumBody o c (takeTag tokens).2).andThen fun attributes rest =>
    (readTypedefName c tag .noEnumName rest).map fun name => .enum ⟨name, attributes⟩

def readTypedef (o : ReadOptions) (start : Position) (tokens : List Token) : Outcome Declaration :=
  match skipLayout tokens with
  | [] => .broken ⟨.unclosedTypedef, ascii "typedef", start⟩ []
  | t :: rest =>
    if t.kind = .structKeyword then readTypedefStruct o start rest
    else if t.kind = .enumKeyword then readTypedefEnum o start rest
    else .broken (t.fault .unsupportedTypedef) (t :: rest)

/-! ## Prototypes -/

/-- The return type that starts with a scalar keyword, and the tokens behind it. -/
def takeReturnType (type : Scalar) (tokens : List Token) : Scalar × List Token :=
  match skipLayout tokens with
  | [] => (type, [])
  | t :: rest =>
    if type = .long ∧ t.kind = .longKeyword then (.longLong, rest) else (type, t :: rest)

/-- The construct of a function of a return type and a name. -/
def functionConstruct (type : Scalar) (name : Bytes) (start : Position) : Construct :=
  ⟨type.name ++ ascii " " ++ name, start, .unclosedPrototype⟩

/-- Reads the parameter list of a named function. Anything but a parenthesis behind the name is a
variable. -/
def readSignature (o : ReadOptions) (c : Construct) (tokens : List Token) :
    Outcome (List Argument) :=
  match skipLayout tokens with
  | [] => c.cut
  | t :: rest =>
    if t.kind = .leftParen then readParameterList o c rest
    else .broken (c.fault .scalarVariable) (t :: rest)

/-- Reads a prototype without its end, behind the keyword of its return type. -/
def readPrototype (o : ReadOptions) (start : Position) (keyword : Scalar) (tokens : List Token) :
    Outcome Prototype :=
  let type := (takeReturnType keyword tokens).1
  match skipLayout (takeReturnType keyword tokens).2 with
  | [] => .broken ⟨.unclosedPrototype, type.name, start⟩ []
  | t :: rest =>
    if t.kind = .identifier then
      (readSignature o (functionConstruct type t.text start) rest).map (⟨t.text, .scalar type, ·⟩)
    else if t.kind = .star then .broken ⟨.pointerReturn, type.name, t.position⟩ (t :: rest)
    else .broken (t.fault .noFunctionName) (t :: rest)

/-- Reads the `;` behind a prototype. A brace there starts a function definition. -/
def readPrototypeEnd (start : Position) (p : Prototype) (tokens : List Token) : Outcome Unit :=
  let description := p.returnType.name ++ ascii " " ++ p.name
  match skipLines tokens with
  | [] => .broken ⟨.unclosedPrototype, description, start⟩ []
  | t :: rest =>
    if t.kind = .semicolon then .done () rest
    else if t.kind = .leftBrace then .broken ⟨.functionBody, description, t.position⟩ (t :: rest)
    else .broken (t.fault .unsupportedDeclaration) (t :: rest)

def readPrototypeDeclaration (o : ReadOptions) (start : Position) (keyword : Scalar)
    (tokens : List Token) : Outcome Declaration :=
  (readPrototype o start keyword tokens).andThen fun p rest =>
    (readPrototypeEnd start p rest).map fun _ => .prototype p

/-! ## Directives and linkage -/

/-- The mark that ends a directive line. -/
def Token.endsDirective (t : Token) : Bool :=
  t.kind == .newline || t.kind == .semicolon

/-- Reads a directive: everything up to the end of its line or a `;`. -/
def readDirective (start : Token) (tokens : List Token) : Outcome (Option Declaration) :=
  let line := start :: tokens.takeWhile (!·.endsDirective)
  let rest := tokens.dropWhile (!·.endsDirective)
  match parseStatement (Token.concat line) with
  | .ok declaration => .done declaration rest
  | .error fault => .broken { fault with position := start.position } rest

/-- Reads behind `extern`: a literal and an opening brace start a linkage block, which is refused
behind its brace; anything else is refused where it stands. -/
def readLinkage {α : Type} (start : Token) (tokens : List Token) : Outcome α :=
  match skipLayout tokens with
  | [] => .broken (start.fault .unsupportedDeclaration) []
  | language :: rest =>
    if language.kind = .stringLiteral then
      match skipLines rest with
      | [] => .broken (start.fault .unsupportedDeclaration) []
      | t :: inside =>
        if t.kind = .leftBrace then
          .broken ⟨.linkageBlock, start.text ++ ascii " " ++ language.text, start.position⟩ inside
        else .broken (start.fault .unsupportedDeclaration) (t :: inside)
    else .broken (start.fault .unsupportedDeclaration) (language :: rest)

/-! ## Any construct -/

/-- Reads the construct that starts with `start`. An `endif` declares nothing. -/
def readConstruct (o : ReadOptions) (start : Token) (tokens : List Token) :
    Outcome (Option Declaration) :=
  if start.kind.isDirective then readDirective start tokens
  else match start.kind with
    | .enumKeyword => (readEnumDeclaration o start.position tokens).map some
    | .structKeyword => (readStructDeclaration o start.position tokens).map some
    | .typedefKeyword => (readTypedef o start.position tokens).map some
    | .invalid => .broken (start.fault .invalidToken) tokens
    | .rightBrace => .broken (start.fault .strayBrace) tokens
    | _ =>
      match Scalar.ofKeyword? start.kind with
      | some keyword => (readPrototypeDeclaration o start.position keyword tokens).map some
      | none =>
        if start.kind = .identifier ∧ start.text = ascii "extern" then readLinkage start tokens
        else .broken (start.fault .unsupportedDeclaration) tokens

end HeaderBinding
