import HeaderBinding.Proofs.Reading.Steps
import HeaderBinding.Proofs.Token.Lossless

/-!
# Where tokens stand does not matter

A position is only ever passed on from a token to a fault. If the tokens of a source are moved, the
same is read, and the faults are moved along with the tokens.
-/

namespace HeaderBinding

section

variable (f : Position → Position)

/-! ## Moving -/

def Token.move (t : Token) : Token := { t with position := f t.position }

def Fault.move (e : Fault) : Fault := { e with position := f e.position }

def Construct.move (c : Construct) : Construct := { c with start := f c.start }

def Outcome.move {α : Type} : Outcome α → Outcome α
  | .done value rest => .done value (rest.map (Token.move f))
  | .broken fault rest => .broken (fault.move f) (rest.map (Token.move f))

-- Not by `rfl`: where the kind decides a branch, its decision has to be rewritten along with it.
@[simp] theorem Token.move_kind (t : Token) : (t.move f).kind = t.kind := by
  simp [Token.move]

@[simp] theorem Token.move_text (t : Token) : (t.move f).text = t.text := rfl

@[simp] theorem Token.move_position (t : Token) : (t.move f).position = f t.position := rfl

@[simp] theorem Token.move_fault (t : Token) (cause : SyntaxError) :
    (t.move f).fault cause = (t.fault cause).move f := rfl

@[simp] theorem Fault.move_cause (e : Fault) : (e.move f).cause = e.cause := rfl

@[simp] theorem spaced_move (tokens : List Token) :
    Token.spaced (tokens.map (Token.move f)) = Token.spaced tokens := by
  simp [Token.spaced, Function.comp_def]

@[simp] theorem concat_move (tokens : List Token) :
    Token.concat (tokens.map (Token.move f)) = Token.concat tokens := by
  simp [Token.concat, Function.comp_def]

@[simp] theorem skipLayout_move (tokens : List Token) :
    skipLayout (tokens.map (Token.move f)) = (skipLayout tokens).map (Token.move f) := by
  simp [skipLayout, List.dropWhile_map, Function.comp_def]

@[simp] theorem skipLines_move (tokens : List Token) :
    skipLines (tokens.map (Token.move f)) = (skipLines tokens).map (Token.move f) := by
  simp [skipLines, List.dropWhile_map, Function.comp_def]

namespace Outcome

variable {α β : Type}

theorem andThen_move {x : Outcome α} {y : Outcome α} {next next' : α → List Token → Outcome β}
    (hx : y = x.move f)
    (hnext : ∀ value rest, next' value (rest.map (Token.move f)) = (next value rest).move f) :
    y.andThen next' = (x.andThen next).move f := by
  subst hx
  cases x with
  | done value rest => exact hnext value rest
  | broken fault rest => rfl

theorem map_move (g : α → β) (x : Outcome α) : (x.move f).map g = (x.map g).move f :=
  andThen_move f rfl fun _ _ => rfl

end Outcome

/-! ## Members, parameters and enumerators -/

theorem scalarAt?_move (first : Token) (others : List Token) :
    scalarAt? (first.move f) (others.map (Token.move f)) =
      (scalarAt? first others).map fun r => (r.1, r.2.map (Token.move f)) := by
  cases others with
  | nil => simp [scalarAt?, Function.comp_def]
  | cons second rest =>
      simp only [scalarAt?, List.map_cons, Token.move_kind]
      split <;> simp [Function.comp_def]

theorem ofEnumTokens?_move (tokens : List Token) :
    Argument.ofEnumTokens? (tokens.map (Token.move f)) = Argument.ofEnumTokens? tokens := by
  match tokens with
  | [] | [_] | _ :: _ :: _ :: _ => rfl
  | [tag, name] => rfl

theorem ofNameTokens?_move (type : CType) (tokens : List Token) :
    Argument.ofNameTokens? type (tokens.map (Token.move f)) =
      Argument.ofNameTokens? type tokens := by
  match tokens with
  | [] | _ :: _ :: _ => rfl
  | [name] => rfl

theorem ofTokens_move (o : ReadOptions) (malformed : SyntaxError) (first : Token)
    (others : List Token) :
    Argument.ofTokens o malformed (first.move f) (others.map (Token.move f)) =
      (Argument.ofTokens o malformed first others).mapError (Fault.move f) := by
  have hfind : ((first.move f :: others.map (Token.move f)).find? Token.isDeclaratorMark) =
      ((first :: others).find? Token.isDeclaratorMark).map (Token.move f) := by
    rw [← List.map_cons, List.find?_map]
    rfl
  have hspaced : Token.spaced (first.move f :: others.map (Token.move f)) =
      Token.spaced (first :: others) := by
    rw [← List.map_cons, spaced_move]
  simp only [Argument.ofTokens, hfind, hspaced, Token.move_kind, Token.move_position,
    Token.move_fault, ofEnumTokens?_move, scalarAt?_move]
  cases (first :: others).find? Token.isDeclaratorMark with
  | some mark => rfl
  | none =>
      simp only [Option.map_none]
      split
      · split
        · rfl
        · cases Argument.ofEnumTokens? others <;> rfl
      · cases scalarAt? first others with
        | some typed =>
            simp only [Option.map_some, ofNameTokens?_move]
            cases Argument.ofNameTokens? (.scalar typed.1) typed.2 <;> rfl
        | none =>
            simp only [Option.map_none]
            split <;> rfl

theorem readMembers_move (o : ReadOptions) (c : Construct) (done : Array Argument)
    (current : Array Token) (tokens : List Token) :
    readMembers o (c.move f) .brace done (current.map (Token.move f))
        (tokens.map (Token.move f)) =
      (readMembers o c .brace done current tokens).move f := by
  induction tokens generalizing done current with
  | nil => rfl
  | cons t rest ih =>
      have hfresh (done : Array Argument) := ih done #[]
      rw [Array.map_empty] at hfresh
      simp only [List.map_cons, readMembers, Token.move_kind]
      split
      · exact ih done current
      · exact ih done current
      · exact ih done current
      · rw [Array.toList_map]
        cases current.toList with
        | nil => exact hfresh done
        | cons first others =>
            simp only [List.map_cons, ofTokens_move]
            cases Argument.ofTokens o .malformedMember first others with
            | ok a => exact hfresh (done.push a)
            | error fault => rfl
      · have hempty : (current.map (Token.move f)).isEmpty = current.isEmpty := by
          simp [Array.isEmpty]
        rw [hempty, Array.toList_map, spaced_move]
        split <;> rfl
      · rw [← Array.map_push, Array.toList_map, spaced_move]
        rfl
      · rw [← Array.map_push]
        exact ih done (current.push t)

theorem readParameters_move (o : ReadOptions) (c : Construct) (done : Array Argument)
    (current : Array Token) (tokens : List Token) :
    readParameters o (c.move f) done (current.map (Token.move f)) (tokens.map (Token.move f)) =
      (readParameters o c done current tokens).move f := by
  induction tokens generalizing done current with
  | nil => rfl
  | cons t rest ih =>
      have hfresh (done : Array Argument) := ih done #[]
      rw [Array.map_empty] at hfresh
      have hmark : Token.spaced ((current.map (Token.move f)).push (t.move f)).toList =
          Token.spaced (current.push t).toList := by
        rw [← Array.map_push, Array.toList_map, spaced_move]
      simp only [List.map_cons, readParameters, Token.move_kind, Array.toList_map]
      split
      · exact ih done current
      · exact ih done current
      · exact ih done current
      · cases current.toList with
        | nil => rfl
        | cons first others =>
            simp only [List.map_cons, ofTokens_move]
            cases Argument.ofTokens o .noParameterName first others with
            | ok a => exact hfresh (done.push a)
            | error fault => rfl
      · cases current.toList with
        | nil => rfl
        | cons first others =>
            simp only [List.map_cons, ofTokens_move]
            cases Argument.ofTokens o .noParameterName first others <;> rfl
      iterate 4
        · rw [hmark]
          rfl
      · rw [← Array.map_push]
        exact ih done (current.push t)

theorem readParameterList_move (o : ReadOptions) (c : Construct) (tokens : List Token) :
    readParameterList o (c.move f) (tokens.map (Token.move f)) =
      (readParameterList o c tokens).move f := by
  simp only [readParameterList, skipLines_move]
  cases skipLines tokens with
  | nil => rfl
  | cons t rest =>
      have hfresh := readParameters_move f o c #[] #[] (t :: rest)
      rw [Array.map_empty] at hfresh
      simp only [List.map_cons, Token.move_kind, skipLines_move]
      split
      · rfl
      · split
        · cases skipLines rest with
          | nil => rfl
          | cons u behind =>
              have hvoid := readParameters_move f o c #[] #[t] (u :: behind)
              simp only [List.map_cons, Token.move_kind]
              by_cases hu : u.kind = .rightParen
              · rw [if_pos hu, if_pos hu]
                rfl
              · rw [if_neg hu, if_neg hu]
                simpa using hvoid
        · exact hfresh

theorem readEnumerators_move (o : ReadOptions) (c : Construct) (done : Array Bytes)
    (current : Array UInt8) (multiline : Bool) (tokens : List Token) :
    readEnumerators o (c.move f) done current multiline (tokens.map (Token.move f)) =
      (readEnumerators o c done current multiline tokens).move f := by
  induction tokens generalizing done current multiline with
  | nil => rfl
  | cons t rest ih =>
      simp only [List.map_cons, readEnumerators, Token.move_kind]
      split
      · exact ih done current multiline
      · exact ih done current true
      · split
        · rfl
        · exact ih _ #[] multiline
      · split
        · rfl
        · split <;> rfl
      · rfl
      · rfl
      · rfl
      · exact ih done _ multiline

/-! ## Constructs -/

theorem readBody_move {α : Type} (c : Construct) {inside inside' : List Token → Outcome α}
    (hinside : ∀ tokens, inside' (tokens.map (Token.move f)) = (inside tokens).move f)
    (tokens : List Token) :
    readBody (c.move f) inside' (tokens.map (Token.move f)) =
      (readBody c inside tokens).move f := by
  simp only [readBody, skipLines_move]
  cases skipLines tokens with
  | nil => rfl
  | cons t rest =>
      simp only [List.map_cons, Token.move_kind]
      split
      · exact hinside rest
      · rfl

theorem readEnumBody_move (o : ReadOptions) (c : Construct) (tokens : List Token) :
    readEnumBody o (c.move f) (tokens.map (Token.move f)) = (readEnumBody o c tokens).move f :=
  readBody_move f c (readEnumerators_move f o c #[] #[] false) tokens

theorem readStructBody_move (o : ReadOptions) (c : Construct) (tokens : List Token) :
    readStructBody o (c.move f) (tokens.map (Token.move f)) =
      (readStructBody o c tokens).move f := by
  apply readBody_move f c
  simpa using readMembers_move f o c #[] #[]

theorem readEnd_move (c : Construct) (tokens : List Token) :
    readEnd (c.move f) (tokens.map (Token.move f)) = (readEnd c tokens).move f := by
  simp only [readEnd, skipLines_move]
  cases skipLines tokens with
  | nil => rfl
  | cons t rest =>
      simp only [List.map_cons, Token.move_kind]
      split <;> rfl

theorem readEnumDeclaration_move (o : ReadOptions) (start : Position) (tokens : List Token) :
    readEnumDeclaration o (f start) (tokens.map (Token.move f)) =
      (readEnumDeclaration o start tokens).move f := by
  refine Outcome.andThen_move f ?_ ?_
  · simp only [readEnum, skipLayout_move]
    cases skipLayout tokens with
    | nil => rfl
    | cons t rest =>
        simp only [List.map_cons, Token.move_kind]
        split
        · rw [← Outcome.map_move, ← readEnumBody_move]
          rfl
        · rfl
  · intro e rest
    rw [← Outcome.map_move, ← readEnd_move]
    rfl

theorem readStructDeclaration_move (o : ReadOptions) (start : Position) (tokens : List Token) :
    readStructDeclaration o (f start) (tokens.map (Token.move f)) =
      (readStructDeclaration o start tokens).move f := by
  simp only [readStructDeclaration, skipLayout_move]
  cases skipLayout tokens with
  | nil => rfl
  | cons t rest =>
      simp only [List.map_cons, Token.move_kind]
      split
      · have hbody := readStructBody_move f o
          ⟨ascii "struct " ++ t.text, start, .unclosedStruct⟩ rest
        refine Outcome.andThen_move f hbody ?_
        intro members rest
        rw [← Outcome.map_move, ← readEnd_move]
        rfl
      · rfl

theorem takeTag_move (tokens : List Token) :
    takeTag (tokens.map (Token.move f)) =
      ((takeTag tokens).1, (takeTag tokens).2.map (Token.move f)) := by
  simp only [takeTag, skipLayout_move]
  cases skipLayout tokens with
  | nil => rfl
  | cons t rest =>
      simp only [List.map_cons, Token.move_kind]
      split <;> rfl

theorem typedefConstruct_move (words : String) (tag : Option Bytes) (start : Position) :
    typedefConstruct words tag (f start) = (typedefConstruct words tag start).move f := by
  cases tag <;> rfl

theorem readTypedefName_move (c : Construct) (tag : Option Bytes) (noName : SyntaxError)
    (tokens : List Token) :
    readTypedefName (c.move f) tag noName (tokens.map (Token.move f)) =
      (readTypedefName c tag noName tokens).move f := by
  simp only [readTypedefName, skipLines_move]
  cases skipLines tokens with
  | nil => rfl
  | cons t rest =>
      simp only [List.map_cons, Token.move_kind]
      split
      · rw [← Outcome.map_move, ← readEnd_move]
        rfl
      · cases tag with
        | some tag =>
            simp only
            rw [← Outcome.map_move, ← readEnd_move]
            rfl
        | none => rfl

theorem readTypedef_move (o : ReadOptions) (start : Position) (tokens : List Token) :
    readTypedef o (f start) (tokens.map (Token.move f)) = (readTypedef o start tokens).move f := by
  simp only [readTypedef, skipLayout_move]
  cases skipLayout tokens with
  | nil => rfl
  | cons t rest =>
      simp only [List.map_cons, Token.move_kind]
      split
      · simp only [readTypedefStruct, takeTag_move, typedefConstruct_move]
        refine Outcome.andThen_move f (readStructBody_move f o _ _) ?_
        intro members rest
        rw [readTypedefName_move, Outcome.map_move]
      · split
        · simp only [readTypedefEnum, takeTag_move, typedefConstruct_move]
          refine Outcome.andThen_move f (readEnumBody_move f o _ _) ?_
          intro attributes rest
          rw [readTypedefName_move, Outcome.map_move]
        · rfl

theorem takeReturnType_move (type : Scalar) (tokens : List Token) :
    takeReturnType type (tokens.map (Token.move f)) =
      ((takeReturnType type tokens).1, (takeReturnType type tokens).2.map (Token.move f)) := by
  simp only [takeReturnType, skipLayout_move]
  cases skipLayout tokens with
  | nil => rfl
  | cons t rest =>
      simp only [List.map_cons, Token.move_kind]
      split <;> rfl

theorem readSignature_move (o : ReadOptions) (c : Construct) (tokens : List Token) :
    readSignature o (c.move f) (tokens.map (Token.move f)) = (readSignature o c tokens).move f := by
  simp only [readSignature, skipLayout_move]
  cases skipLayout tokens with
  | nil => rfl
  | cons t rest =>
      simp only [List.map_cons, Token.move_kind]
      split
      · exact readParameterList_move f o c rest
      · rfl

theorem readPrototype_move (o : ReadOptions) (start : Position) (keyword : Scalar)
    (tokens : List Token) :
    readPrototype o (f start) keyword (tokens.map (Token.move f)) =
      (readPrototype o start keyword tokens).move f := by
  simp only [readPrototype, takeReturnType_move, skipLayout_move]
  cases skipLayout (takeReturnType keyword tokens).2 with
  | nil => rfl
  | cons t rest =>
      simp only [List.map_cons, Token.move_kind]
      split
      · rw [← Outcome.map_move, ← readSignature_move]
        rfl
      · split <;> rfl

theorem readPrototypeEnd_move (start : Position) (p : Prototype) (tokens : List Token) :
    readPrototypeEnd (f start) p (tokens.map (Token.move f)) =
      (readPrototypeEnd start p tokens).move f := by
  simp only [readPrototypeEnd, skipLines_move]
  cases skipLines tokens with
  | nil => rfl
  | cons t rest =>
      simp only [List.map_cons, Token.move_kind]
      split
      · rfl
      · split <;> rfl

theorem readPrototypeDeclaration_move (o : ReadOptions) (start : Position) (keyword : Scalar)
    (tokens : List Token) :
    readPrototypeDeclaration o (f start) keyword (tokens.map (Token.move f)) =
      (readPrototypeDeclaration o start keyword tokens).move f := by
  refine Outcome.andThen_move f (readPrototype_move f o start keyword tokens) ?_
  intro p rest
  rw [readPrototypeEnd_move, Outcome.map_move]

theorem readDirective_move (start : Token) (tokens : List Token) :
    readDirective (start.move f) (tokens.map (Token.move f)) =
      (readDirective start tokens).move f := by
  have hends : (fun t : Token => !(t.move f).endsDirective) = fun t => !t.endsDirective := by
    funext t
    simp [Token.endsDirective]
  have hline :
      Token.concat (start.move f :: (tokens.takeWhile (!·.endsDirective)).map (Token.move f)) =
        Token.concat (start :: tokens.takeWhile (!·.endsDirective)) := by
    rw [← List.map_cons, concat_move]
  simp only [readDirective, List.takeWhile_map, List.dropWhile_map, Function.comp_def, hends, hline]
  cases parseStatement (Token.concat (start :: tokens.takeWhile (!·.endsDirective))) <;> rfl

theorem readLinkage_move {α : Type} (start : Token) (tokens : List Token) :
    (readLinkage (start.move f) (tokens.map (Token.move f)) : Outcome α) =
      (readLinkage start tokens).move f := by
  simp only [readLinkage, skipLayout_move]
  cases skipLayout tokens with
  | nil => rfl
  | cons language rest =>
      simp only [List.map_cons, Token.move_kind, skipLines_move]
      split
      · cases skipLines rest with
        | nil => rfl
        | cons t inside =>
            simp only [List.map_cons, Token.move_kind]
            split <;> rfl
      · rfl

theorem readConstruct_move (o : ReadOptions) (start : Token) (tokens : List Token) :
    readConstruct o (start.move f) (tokens.map (Token.move f)) =
      (readConstruct o start tokens).move f := by
  simp only [readConstruct, Token.move_kind, Token.move_position, Token.move_text]
  split
  · exact readDirective_move f start tokens
  · split
    · rw [readEnumDeclaration_move, Outcome.map_move]
    · rw [readStructDeclaration_move, Outcome.map_move]
    · rw [readTypedef_move, Outcome.map_move]
    · rfl
    · rfl
    · cases Scalar.ofKeyword? start.kind with
      | some keyword =>
          simp only
          rw [readPrototypeDeclaration_move, Outcome.map_move]
      | none =>
          simp only
          split
          · exact readLinkage_move f start tokens
          · rfl

/-! ## Sessions -/

theorem braceDepth_move (depth : Nat) (t : Token) :
    braceDepth depth (t.move f) = braceDepth depth t := by
  simp only [braceDepth, Token.move_kind]

theorem foldl_braceDepth_move (depth : Nat) (tokens : List Token) :
    (tokens.map (Token.move f)).foldl braceDepth depth = tokens.foldl braceDepth depth := by
  rw [List.foldl_map]
  simp only [braceDepth_move]

theorem continuesBehindBrace_move (tokens : List Token) :
    continuesBehindBrace (tokens.map (Token.move f)) = continuesBehindBrace tokens := by
  simp only [continuesBehindBrace, skipLines_move]
  cases skipLines tokens with
  | nil => rfl
  | cons t rest => simp

theorem skipBroken_move (linkage depth : Nat) (tokens : List Token) :
    skipBroken linkage depth (tokens.map (Token.move f)) =
      (skipBroken linkage depth tokens).map (Token.move f) := by
  induction tokens generalizing depth with
  | nil => rfl
  | cons t rest ih =>
      simp only [List.map_cons, skipBroken, Token.move_kind, braceDepth_move,
        continuesBehindBrace_move, ih]
      split
      · rfl
      · split
        · rfl
        · split
          · rfl
          · split
            · exact skipLines_move f rest
            · rfl

theorem resume_move (linkage : Nat) (start : Token) (tokens rest : List Token) (fault : Fault) :
    resume linkage (start.move f) (tokens.map (Token.move f)) (rest.map (Token.move f))
        (fault.move f) =
      (resume linkage start tokens rest fault).map (Token.move f) := by
  have hleaves : leavesRest (start.move f) (fault.move f) = leavesRest start fault := by
    simp [leavesRest]
  simp only [resume, hleaves, List.length_map, ← List.map_take, ← List.map_cons,
    foldl_braceDepth_move, skipBroken_move]
  split <;> rfl

namespace Session

def move (s : Session) : Session :=
  { s with
    rest := s.rest.map (Token.move f)
    diagnostics := s.diagnostics.map (Fault.move f) }

theorem linkageAfter_move (linkage : Nat) (fault : Fault) :
    linkageAfter linkage (fault.move f) = linkageAfter linkage fault :=
  rfl

theorem skipLayout_rest_move {s : Session} {t : Token} {tokens : List Token}
    (h : skipLayout s.rest = t :: tokens) :
    skipLayout (s.move f).rest = t.move f :: tokens.map (Token.move f) := by
  rw [move, skipLayout_move, h]
  rfl

theorem advance_move_go {o : ReadOptions} {s next : Session} (h : Advance o s (.go next)) :
    Advance o (s.move f) (.go (next.move f)) := by
  cases h with
  | separate hskip hseparator => exact .separate (skipLayout_rest_move f hskip) hseparator
  | close hskip hkind hlinkage => exact .close (skipLayout_rest_move f hskip) hkind hlinkage
  | @declare t tokens rest declaration hskip hseparator hclose hread =>
      have hread' := readConstruct_move f o t tokens
      rw [hread] at hread'
      exact .declare (skipLayout_rest_move f hskip) hseparator hclose hread'
  | @recover t tokens rest fault hskip hseparator hclose hread hstops =>
      have hread' := readConstruct_move f o t tokens
      rw [hread] at hread'
      have hrecover :=
        Advance.recover (skipLayout_rest_move f hskip) hseparator hclose hread' hstops
      rw [resume_move] at hrecover
      simpa [move, linkageAfter_move] using hrecover

theorem advance_move_stop {o : ReadOptions} {s final : Session} {fault : Option Fault}
    (h : Advance o s (.stop final fault)) :
    Advance o (s.move f) (.stop (final.move f) (fault.map (Fault.move f))) := by
  cases h with
  | finish hskip =>
      refine .finish ?_
      rw [move, skipLayout_move, hskip]
      rfl
  | @halt t tokens rest fault hskip hseparator hclose hread hstops =>
      have hread' := readConstruct_move f o t tokens
      rw [hread] at hread'
      exact .halt (skipLayout_rest_move f hskip) hseparator hclose hread' hstops

theorem run_move (o : ReadOptions) (s : Session) :
    (s.move f).run o = ((s.run o).1.move f, (s.run o).2.map (Fault.move f)) := by
  induction s using run_induction (o := o) with
  | stop s final fault hstep =>
      rw [run_of_stop (advance_move_stop f hstep), run_of_stop hstep]
  | go s next hstep ih =>
      rw [run_of_go (advance_move_go f hstep), run_of_go hstep, ih]

end Session

/-- Moved tokens are read as the tokens are, with the faults moved alike. -/
theorem readTokens_move (o : ReadOptions) (tokens : List Token) :
    readTokens o (tokens.map (Token.move f)) =
      ⟨(readTokens o tokens).declarations,
        (readTokens o tokens).diagnostics.map (Fault.move f),
        (readTokens o tokens).fault.map (Fault.move f)⟩ := by
  have hrun := Session.run_move f o (.ofTokens tokens)
  have hstart : (Session.ofTokens tokens).move f =
      .ofTokens (tokens.map (Token.move f)) := by
    simp [Session.move, Session.ofTokens]
  rw [hstart] at hrun
  simp [readTokens_eq, Reading.ofRun, hrun, Session.move]

end

/-! ## Tokens of the same spelling -/

/-- What is left of a token without its place. -/
def Token.spelling (t : Token) : TokenKind × Bytes := (t.kind, t.text)

/-- The place with its offset moved on, without its row and column. -/
def Position.along (distance : Nat) (p : Position) : Position := ⟨p.offset + distance, 0, 0⟩

/-- What a fault is about and where, apart from its row and column, with its offset moved on. -/
def Fault.shifted (distance : Nat) (e : Fault) : SyntaxError × Bytes × Nat :=
  (e.cause, e.detail, e.position.offset + distance)

theorem Fault.shifted_move (e : Fault) (distance further : Nat) :
    (e.move (.along distance)).shifted further = e.shifted (distance + further) := by
  simp [Fault.shifted, Fault.move, Position.along, Nat.add_assoc]

/-- Tokens with others moved behind them. -/
def Token.joined (front tokens : List Token) : List Token :=
  front ++ tokens.map (Token.move (.along (Token.concat front).length))

theorem map_spelling_joined (front tokens : List Token) :
    (Token.joined front tokens).map Token.spelling =
      front.map Token.spelling ++ tokens.map Token.spelling := by
  simp [Token.joined, Token.spelling, Function.comp_def]

theorem placed_move_along {offset : Nat} {tokens : List Token} (distance : Nat)
    (h : Token.Placed offset tokens) :
    Token.Placed (distance + offset) (tokens.map (Token.move (.along distance))) := by
  induction tokens generalizing offset with
  | nil => trivial
  | cons t tokens ih =>
      obtain ⟨hoffset, htokens⟩ := h
      refine ⟨?_, ?_⟩
      · simp [Position.along, hoffset, Nat.add_comm]
      · have hnext := ih htokens
        rwa [← Nat.add_assoc] at hnext

theorem placed_joined {front tokens : List Token} (hfront : Token.Placed 0 front)
    (htokens : Token.Placed 0 tokens) : Token.Placed 0 (Token.joined front tokens) := by
  refine Token.placed_append.mpr ⟨hfront, ?_⟩
  rw [Nat.zero_add]
  exact placed_move_along _ htokens

/-- Tokens of one spelling from one offset on differ by rows and columns only. -/
theorem map_move_eq_of_spelling {offset : Nat} {tokens others : List Token}
    (htokens : Token.Placed offset tokens) (hothers : Token.Placed offset others)
    (h : tokens.map Token.spelling = others.map Token.spelling) :
    tokens.map (Token.move (.along 0)) = others.map (Token.move (.along 0)) := by
  induction tokens generalizing offset others with
  | nil =>
      rw [List.map_nil, eq_comm, List.map_eq_nil_iff] at h
      rw [h]
  | cons t tokens ih =>
      obtain ⟨u, others, rfl, hu, h⟩ := List.map_eq_cons_iff.mp h.symm
      obtain ⟨hkind, htext⟩ := Prod.mk.inj hu
      obtain ⟨htoffset, htokens⟩ := htokens
      obtain ⟨huoffset, hothers⟩ := hothers
      rw [← htext] at htokens
      have hhead : t.move (.along 0) = u.move (.along 0) := by
        simp [Token.move, Position.along, htoffset, huoffset, hkind, htext]
      rw [List.map_cons, List.map_cons, hhead, ih htokens hothers h.symm]

/-- What is read from tokens of one spelling differs by rows and columns of faults only. -/
theorem readTokens_eq_of_spelling (o : ReadOptions) {offset : Nat} {tokens others : List Token}
    (htokens : Token.Placed offset tokens) (hothers : Token.Placed offset others)
    (h : tokens.map Token.spelling = others.map Token.spelling) :
    (readTokens o tokens).declarations = (readTokens o others).declarations ∧
      (readTokens o tokens).diagnostics.map (Fault.shifted 0) =
        (readTokens o others).diagnostics.map (Fault.shifted 0) ∧
      (readTokens o tokens).fault.map (Fault.shifted 0) =
        (readTokens o others).fault.map (Fault.shifted 0) := by
  have hmoved : readTokens o (tokens.map (Token.move (.along 0))) =
      readTokens o (others.map (Token.move (.along 0))) := by
    rw [map_move_eq_of_spelling htokens hothers h]
  rw [readTokens_move, readTokens_move] at hmoved
  obtain ⟨hdeclarations, hdiagnostics, hfault⟩ := Reading.mk.inj hmoved
  refine ⟨hdeclarations, ?_, ?_⟩
  · simpa [Function.comp_def, Fault.shifted_move] using
      congrArg (List.map (Fault.shifted 0)) hdiagnostics
  · simpa [Function.comp_def, Fault.shifted_move] using
      congrArg (Option.map (Fault.shifted 0)) hfault

theorem map_move_const_of_spelling (p : Position) {tokens others : List Token}
    (h : tokens.map Token.spelling = others.map Token.spelling) :
    tokens.map (Token.move fun _ => p) = others.map (Token.move fun _ => p) := by
  have hmove : (Token.move fun _ => p) = (fun k => ⟨k.1, k.2, p⟩) ∘ Token.spelling := rfl
  rw [hmove, ← List.map_map, ← List.map_map, h]

/-- Tokens of one spelling, wherever they stand, bring a session to the same declarations, the same
open linkage blocks and faults of the same causes. -/
theorem Session.run_eq_of_spelling (o : ReadOptions) {tokens others : List Token}
    (h : tokens.map Token.spelling = others.map Token.spelling) :
    let r := (Session.ofTokens tokens).run o
    let r' := (Session.ofTokens others).run o
    r.1.declarations = r'.1.declarations ∧ r.1.linkage = r'.1.linkage ∧
      r.1.diagnostics.toList.map Fault.cause = r'.1.diagnostics.toList.map Fault.cause ∧
      r.2.map Fault.cause = r'.2.map Fault.cause := by
  intro r r'
  let f : Position → Position := fun _ => Position.start
  have hmoved : (Session.ofTokens tokens).move f = (Session.ofTokens others).move f := by
    simp only [Session.move, Session.ofTokens, map_move_const_of_spelling Position.start h, f]
  have hrun : (r.1.move f, r.2.map (Fault.move f)) = (r'.1.move f, r'.2.map (Fault.move f)) := by
    rw [← Session.run_move, ← Session.run_move, hmoved]
  have hcause : Fault.cause ∘ Fault.move f = Fault.cause := rfl
  obtain ⟨hsession, hfault⟩ := Prod.mk.inj hrun
  obtain ⟨_, hlinkage, hdeclarations, hdiagnostics⟩ := Session.mk.inj hsession
  refine ⟨hdeclarations, hlinkage, ?_, ?_⟩
  · have hcauses := congrArg (fun a : Array Fault => a.toList.map Fault.cause) hdiagnostics
    simpa [hcause] using hcauses
  · simpa [hcause] using congrArg (Option.map Fault.cause) hfault

end HeaderBinding
