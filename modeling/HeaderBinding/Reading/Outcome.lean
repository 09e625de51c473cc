import HeaderBinding.SyntaxError

/-!
# Reading constructs from tokens

A reader takes tokens from the front of a list. Whether it succeeds or not, its outcome says which
tokens it has left unread, because reading may go on behind a broken construct.
-/

namespace HeaderBinding

/-- Choices about what is accepted. -/
structure ReadOptions where
  /-- Go on behind a broken declaration and report it as a diagnostic. -/
  collect : Bool
  /-- Accept enumerators on several lines. -/
  multilineEnum : Bool
  /-- Refuse members and parameters of an enum type. -/
  noInlineEnum : Bool
deriving Repr, DecidableEq

def ReadOptions.default : ReadOptions := ⟨false, false, false⟩

/-- The result of reading, with the tokens left unread. -/
inductive Outcome (α : Type) where
  | done (value : α) (rest : List Token)
  | broken (fault : Fault) (rest : List Token)
deriving Repr, DecidableEq

namespace Outcome

variable {α β : Type}

def rest : Outcome α → List Token
  | .done _ rest => rest
  | .broken _ rest => rest

/-- Reads on behind a construct that was read. -/
def andThen (o : Outcome α) (next : α → List Token → Outcome β) : Outcome β :=
  match o with
  | .done value rest => next value rest
  | .broken fault rest => .broken fault rest

def map (f : α → β) (o : Outcome α) : Outcome β :=
  o.andThen fun value rest => .done (f value) rest

end Outcome

/-- The construct being read: how it is described in faults, where it starts, and the cause to
report if the source ends inside it. -/
structure Construct where
  description : Bytes
  start : Position
  unclosed : SyntaxError
deriving Repr, DecidableEq

namespace Construct

/-- A fault of the construct as a whole. -/
def fault (c : Construct) (cause : SyntaxError) : Fault :=
  ⟨cause, c.description, c.start⟩

/-- The outcome at the end of the source. -/
def cut {α : Type} (c : Construct) : Outcome α :=
  .broken (c.fault c.unclosed) []

end Construct

/-- The fault that a token does not belong where it stands. -/
def Token.fault (t : Token) (cause : SyntaxError) : Fault :=
  ⟨cause, t.text, t.position⟩

/-- The tokens behind layout. -/
def skipLayout (tokens : List Token) : List Token :=
  tokens.dropWhile fun t => t.kind.isLayout

/-- The tokens behind layout and line breaks. -/
def skipLines (tokens : List Token) : List Token :=
  tokens.dropWhile fun t => t.kind.isLayoutOrNewline

end HeaderBinding
