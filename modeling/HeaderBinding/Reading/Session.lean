import HeaderBinding.Reading.Suffix
import HeaderBinding.Token.Lexer

/-!
# Reading a whole header

A session reads constructs until the source ends or a fault stops it. A collecting session notes a
fault, skips the rest of the broken construct and goes on; only a construct that the source leaves
open still stops it.
-/

namespace HeaderBinding

/-! ## Behind a broken construct -/

/-- The depth of braces behind a token. A closing brace without an opening one leaves the depth at
zero. -/
def braceDepth (depth : Nat) (t : Token) : Nat :=
  match t.kind with
  | .leftBrace => depth + 1
  | .rightBrace => depth - 1
  | _ => depth

/-- Does what follows belong to the construct whose closing brace was just passed? -/
def continuesBehindBrace (tokens : List Token) : Bool :=
  match skipLines tokens with
  | [] => false
  | t :: _ => t.kind == .semicolon || t.kind == .identifier

/-- Skips to behind the next `;` outside braces, or behind a closing brace that neither a name nor a
`;` follows. A brace that closes an enclosing linkage block is left unread. -/
def skipBroken (linkage depth : Nat) : List Token → List Token
  | [] => []
  | t :: rest =>
    if t.kind = .rightBrace ∧ depth = 0 ∧ 0 < linkage then t :: rest
    else if 0 < braceDepth depth t then skipBroken linkage (braceDepth depth t) rest
    else if t.kind = .semicolon then rest
    else if t.kind = .rightBrace ∧ ¬ continuesBehindBrace rest then skipLines rest
    else skipBroken linkage 0 rest

/-- Does a fault leave a part of its construct unread? A directive takes its whole line, and a stray
brace or the opening of a linkage block is complete by itself. -/
def leavesRest (start : Token) (fault : Fault) : Bool :=
  !(start.kind.isDirective || start.kind == .rightBrace || fault.cause == .linkageBlock)

/-- The tokens to go on with after a fault in the construct `start :: tokens`, of which `rest` was
left unread. -/
def resume (linkage : Nat) (start : Token) (tokens rest : List Token) (fault : Fault) :
    List Token :=
  if leavesRest start fault then
    let taken := start :: tokens.take (tokens.length - rest.length)
    skipBroken linkage (taken.foldl braceDepth 0) rest
  else rest

theorem skipBroken_suffix (linkage depth : Nat) (tokens : List Token) :
    skipBroken linkage depth tokens <:+ tokens := by
  induction tokens generalizing depth with
  | nil => exact List.suffix_rfl
  | cons t rest ih =>
    have hrest : rest <:+ t :: rest := List.suffix_cons t rest
    unfold skipBroken
    split
    · exact List.suffix_rfl
    · split
      · exact (ih _).trans hrest
      · split
        · exact hrest
        · split
          · exact (skipLines_suffix rest).trans hrest
          · exact (ih _).trans hrest

theorem resume_suffix (linkage : Nat) (start : Token) (tokens rest : List Token) (fault : Fault) :
    resume linkage start tokens rest fault <:+ rest := by
  unfold resume
  split
  · exact skipBroken_suffix ..
  · exact List.suffix_rfl

/-! ## Sessions -/

/-- The state of reading a header. -/
structure Session where
  /-- The tokens not read yet. -/
  rest : List Token
  /-- The linkage blocks that are open. -/
  linkage : Nat
  declarations : Array Declaration
  diagnostics : Array Fault
deriving Repr, DecidableEq

namespace Session

def ofTokens (tokens : List Token) : Session := ⟨tokens, 0, #[], #[]⟩

def ofSource (source : Bytes) : Session := ofTokens (tokenize source)

/-- The number of open linkage blocks after a fault. -/
def linkageAfter (linkage : Nat) (fault : Fault) : Nat :=
  if fault.cause = .linkageBlock then linkage + 1 else linkage

/-- Does a fault end the run? -/
def stops (o : ReadOptions) (fault : Fault) : Bool :=
  !o.collect || fault.cause.category == .unterminated

/-- What one construct or separator brings a session to. -/
inductive Step where
  | go (next : Session)
  | stop (final : Session) (fault : Option Fault)
deriving Repr, DecidableEq

/-- Reads one separator or construct. -/
def step (o : ReadOptions) (s : Session) : Step :=
  match skipLayout s.rest with
  | [] => .stop { s with rest := [] } none
  | t :: tokens =>
    if t.kind = .newline ∨ t.kind = .semicolon then .go { s with rest := tokens }
    else if t.kind = .rightBrace ∧ 0 < s.linkage then
      .go { s with rest := tokens, linkage := s.linkage - 1 }
    else match readConstruct o t tokens with
      | .done declaration rest =>
        .go { s with rest := rest, declarations := s.declarations ++ declaration.toList }
      | .broken fault rest =>
        if stops o fault then
          .stop { s with rest := rest, linkage := linkageAfter s.linkage fault } (some fault)
        else
          .go
            { s with
              rest := resume (linkageAfter s.linkage fault) t tokens rest fault
              linkage := linkageAfter s.linkage fault
              diagnostics := s.diagnostics.push fault }

/-- A step that does not end the run takes at least one token. -/
theorem length_rest_lt_of_step {o : ReadOptions} {s next : Session} (h : step o s = .go next) :
    next.rest.length < s.rest.length := by
  unfold step at h
  split at h
  · simp at h
  · rename_i t tokens hs
    have hlt : tokens.length < s.rest.length :=
      (hs ▸ skipLayout_suffix s.rest : t :: tokens <:+ s.rest).length_le
    have hle := (readConstruct_rest_suffix o t tokens).length_le
    split at h
    · cases h
      exact hlt
    · split at h
      · cases h
        exact hlt
      · split at h
        · rename_i declaration rest hc
          cases h
          rw [hc] at hle
          exact Nat.lt_of_le_of_lt hle hlt
        · rename_i fault rest hc
          split at h
          · simp at h
          · cases h
            rw [hc] at hle
            exact Nat.lt_of_le_of_lt (Nat.le_trans (resume_suffix ..).length_le hle) hlt

/-- Reads until the source ends or a fault stops the run, which is then returned. A later run goes
on where this one has stopped. -/
def run (o : ReadOptions) (s : Session) : Session × Option Fault :=
  match h : step o s with
  | .stop final fault => (final, fault)
  | .go next =>
    have := length_rest_lt_of_step h
    run o next
termination_by s.rest.length

end Session

/-- What reading a header gives: the declarations found, the faults passed over, and the fault that
stopped the reading. -/
structure Reading where
  declarations : List Declaration
  diagnostics : List Fault
  fault : Option Fault
deriving Repr, DecidableEq

/-- Reads a header given by its tokens. -/
def readTokens (o : ReadOptions) (tokens : List Token) : Reading :=
  let (session, fault) := (Session.ofTokens tokens).run o
  ⟨session.declarations.toList, session.diagnostics.toList, fault⟩

/-- Reads a whole header. -/
def readHeader (o : ReadOptions) (source : Bytes) : Reading :=
  readTokens o (tokenize source)

end HeaderBinding
