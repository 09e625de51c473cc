import HeaderBinding.Reading.Construct
import HeaderBinding.Token.Lexer

/-!
# Reading a single construct

A text that holds one enum, one struct body or one prototype, with an optional `;` behind it.
-/

namespace HeaderBinding

/-- No token may follow. -/
def nothingFollows : List Token → Except Fault Unit
  | [] => .ok ()
  | t :: _ => .error (t.fault .trailingDeclarator)

/-- What follows must be an optional `;` and the end of the source. -/
def endsSource (tokens : List Token) : Except Fault Unit :=
  match skipLines tokens with
  | [] => .ok ()
  | t :: rest =>
    nothingFollows (if t.kind = .semicolon then skipLines rest else t :: rest)

/-- The value that was read, if nothing but an optional `;` follows it. -/
def Outcome.alone {α : Type} : Outcome α → Except Fault α
  | .done value rest => (endsSource rest).map fun _ => value
  | .broken fault _ => .error fault

/-- The fault of a source that is empty where a construct was to start. -/
def nothingToRead (source : Bytes) : Fault :=
  ⟨.unsupportedDeclaration, [], Position.endOf source⟩

/-- Reads one enum from its keyword through its closing brace. -/
def parseEnum (o : ReadOptions) (source : Bytes) : Except Fault Enum :=
  match skipLines (tokenize source) with
  | [] => .error (nothingToRead source)
  | start :: tokens =>
    if start.kind = .enumKeyword then (readEnum o start.position tokens).alone
    else .error (start.fault .unsupportedDeclaration)

/-- Reads members that stand in braces, or without braces up to the end of the source. -/
def readBareBody (o : ReadOptions) (description : Bytes) (finish : Position) (tokens : List Token) :
    Outcome (List Argument) :=
  match skipLines tokens with
  | [] => .done [] []
  | t :: rest =>
    let c : Construct := ⟨description, t.position, .unclosedStruct⟩
    if t.kind = .leftBrace then readMembers o c .brace #[] #[] rest
    else readMembers o c (.endOfSource finish) #[] #[] (t :: rest)

/-- Reads the members of a struct of the given name. Braces around them may be left out. -/
def parseStruct (o : ReadOptions) (name body : Bytes) : Except Fault Struct :=
  if name.isIdentifier then
    (readBareBody o (ascii "struct " ++ name) (Position.endOf body) (tokenize body)).alone.map
      (⟨name, ·⟩)
  else .error ⟨.noStructName, name, Position.unknown⟩

/-- Reads one function prototype. A function body behind it is a fault of its own. -/
def parsePrototype (o : ReadOptions) (source : Bytes) : Except Fault Prototype :=
  match skipLines (tokenize source) with
  | [] => .error (nothingToRead source)
  | start :: tokens =>
    match Scalar.ofKeyword? start.kind with
    | none => .error (start.fault .unsupportedDeclaration)
    | some keyword =>
      match readPrototype o start.position keyword tokens with
      | .broken fault _ => .error fault
      | .done p rest =>
        match (skipLines rest).head? with
        | some t =>
          if t.kind = .leftBrace then
            .error ⟨.functionBody, p.returnType.name ++ ascii " " ++ p.name, t.position⟩
          else (endsSource rest).map fun _ => p
        | none => (endsSource rest).map fun _ => p

end HeaderBinding
