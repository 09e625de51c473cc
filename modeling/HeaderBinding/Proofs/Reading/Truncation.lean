import HeaderBinding.Proofs.Reading.Acceptance
import HeaderBinding.Proofs.Token.Cutting

/-!
# A header that ends inside an item

A reader that comes to the end of the source before the end of its construct reports the construct
as unterminated where it starts. A header that is cut off inside an item is therefore read up to
that item, in every mode, and the fault that stops the reading stands at the item.
-/

namespace HeaderBinding

/-! ## Outcomes with less to read -/

/-- Two outcomes of reading, with and without the tokens `back` behind. The same is read before
`back`, or the longer reading is broken, or the shorter one is cut off at the end of the source. -/
inductive EndsEarly {α : Type} (start : Position) (back : List Token) :
    Outcome α → Outcome α → Prop where
  | done {value : α} {front : List Token} :
      EndsEarly start back (.done value (front ++ back)) (.done value front)
  | broken {fault : Fault} {rest : List Token} {short : Outcome α} :
      EndsEarly start back (.broken fault rest) short
  | cut {full : Outcome α} {fault : Fault} :
      fault.cause.category = .unterminated → fault.position = start →
      EndsEarly start back full (.broken fault [])

namespace EndsEarly

variable {α β : Type} {start : Position} {back : List Token} {x y : Outcome α}

theorem andThen (h : EndsEarly start back x y) {next : α → List Token → Outcome β}
    (hnext : ∀ value front, EndsEarly start back (next value (front ++ back)) (next value front)) :
    EndsEarly start back (x.andThen next) (y.andThen next) := by
  cases h with
  | done => exact hnext _ _
  | broken => exact .broken
  | cut hcause hposition => exact .cut hcause hposition

theorem map (h : EndsEarly start back x y) (g : α → β) :
    EndsEarly start back (x.map g) (y.map g) :=
  h.andThen fun _ _ => .done

/-- Where the longer reading takes all of `back`, the shorter one is cut off. -/
theorem eq_broken {value : α} (hback : back ≠ []) (h : EndsEarly start back (.done value []) y) :
    ∃ fault, y = .broken fault [] ∧ fault.cause.category = .unterminated ∧
      fault.position = start := by
  generalize hfull : Outcome.done value [] = full at h
  cases h with
  | @done value front =>
      obtain ⟨_, hrest⟩ := Outcome.done.inj hfull
      exact absurd (List.append_eq_nil_iff.mp hrest.symm).2 hback
  | broken => cases hfull
  | cut hcause hposition => exact ⟨_, rfl, hcause, hposition⟩

end EndsEarly

theorem dropWhile_append_cases {p : Token → Bool} (front back : List Token) :
    front.dropWhile p = [] ∨ ∃ t rest, front.dropWhile p = t :: rest ∧
      (front ++ back).dropWhile p = t :: (rest ++ back) := by
  rw [List.dropWhile_append]
  cases front.dropWhile p with
  | nil => exact .inl rfl
  | cons t rest => exact .inr ⟨t, rest, rfl, rfl⟩

theorem skipLayout_append_cases (front back : List Token) :
    skipLayout front = [] ∨ ∃ t rest, skipLayout front = t :: rest ∧
      skipLayout (front ++ back) = t :: (rest ++ back) :=
  dropWhile_append_cases front back

theorem skipLines_append_cases (front back : List Token) :
    skipLines front = [] ∨ ∃ t rest, skipLines front = t :: rest ∧
      skipLines (front ++ back) = t :: (rest ++ back) :=
  dropWhile_append_cases front back

/-! ## Members, parameters and enumerators -/

section

variable {o : ReadOptions} {c : Construct} (front back : List Token)

/-- At the end of the source a construct is reported where it starts. -/
theorem Construct.endsEarly_cut {α : Type} (hc : c.unclosed.category = .unterminated)
    (full : Outcome α) : EndsEarly c.start back full c.cut :=
  .cut hc rfl

theorem readMembers_endsEarly (hc : c.unclosed.category = .unterminated) (done : Array Argument)
    (current : Array Token) :
    EndsEarly c.start back (readMembers o c .brace done current (front ++ back))
      (readMembers o c .brace done current front) := by
  induction front generalizing done current with
  | nil => exact Construct.endsEarly_cut back hc _
  | cons t front ih =>
      simp only [List.cons_append, readMembers]
      split
      · exact ih done current
      · exact ih done current
      · exact ih done current
      · cases current.toList with
        | nil => exact ih done #[]
        | cons first others =>
            simp only
            cases Argument.ofTokens o .malformedMember first others with
            | ok a => exact ih (done.push a) #[]
            | error fault => exact .broken
      · split
        · exact .done
        · exact .broken
      · exact .broken
      · exact ih done (current.push t)

theorem readParameters_endsEarly (hc : c.unclosed.category = .unterminated)
    (done : Array Argument) (current : Array Token) :
    EndsEarly c.start back (readParameters o c done current (front ++ back))
      (readParameters o c done current front) := by
  induction front generalizing done current with
  | nil => exact Construct.endsEarly_cut back hc _
  | cons t front ih =>
      simp only [List.cons_append, readParameters]
      split
      · exact ih done current
      · exact ih done current
      · exact ih done current
      · cases current.toList with
        | nil => exact .broken
        | cons first others =>
            simp only
            cases Argument.ofTokens o .noParameterName first others with
            | ok a => exact ih (done.push a) #[]
            | error fault => exact .broken
      · cases current.toList with
        | nil => exact .broken
        | cons first others =>
            simp only
            cases Argument.ofTokens o .noParameterName first others with
            | ok a => exact .done
            | error fault => exact .broken
      · exact .broken
      · exact .broken
      · exact .broken
      · exact .broken
      · exact ih done (current.push t)

theorem readParameterList_endsEarly (hc : c.unclosed.category = .unterminated) :
    EndsEarly c.start back (readParameterList o c (front ++ back))
      (readParameterList o c front) := by
  rcases skipLines_append_cases front back with hnil | ⟨t, rest, hskip, hskip'⟩
  · simp only [readParameterList, hnil]
    exact Construct.endsEarly_cut back hc _
  · simp only [readParameterList, hskip, hskip']
    split
    · exact .done
    · split
      · rcases skipLines_append_cases rest back with hnil | ⟨u, behind, hlines, hlines'⟩
        · simp only [hnil]
          exact Construct.endsEarly_cut back hc _
        · simp only [hlines, hlines']
          split
          · exact .done
          · exact readParameters_endsEarly (u :: behind) back hc #[] #[t]
      · exact readParameters_endsEarly (t :: rest) back hc #[] #[]

theorem readEnumerators_endsEarly (hc : c.unclosed.category = .unterminated) (done : Array Bytes)
    (current : Array UInt8) (multiline : Bool) :
    EndsEarly c.start back (readEnumerators o c done current multiline (front ++ back))
      (readEnumerators o c done current multiline front) := by
  induction front generalizing done current multiline with
  | nil => exact Construct.endsEarly_cut back hc _
  | cons t front ih =>
      simp only [List.cons_append, readEnumerators]
      split
      · exact ih done current multiline
      · exact ih done current true
      · split
        · exact .broken
        · exact ih _ #[] multiline
      · split
        · exact .broken
        · split
          · exact .done
          · exact .done
      · exact .broken
      · exact .broken
      · exact .broken
      · exact ih done _ multiline

/-! ## Constructs -/

theorem readBody_endsEarly {α : Type} {inside : List Token → Outcome α}
    (hc : c.unclosed.category = .unterminated)
    (hinside : ∀ front, EndsEarly c.start back (inside (front ++ back)) (inside front)) :
    EndsEarly c.start back (readBody c inside (front ++ back)) (readBody c inside front) := by
  rcases skipLines_append_cases front back with hnil | ⟨t, rest, hskip, hskip'⟩
  · simp only [readBody, hnil]
    exact Construct.endsEarly_cut back hc _
  · simp only [readBody, hskip, hskip']
    split
    · exact hinside rest
    · exact .broken

theorem readEnumBody_endsEarly (hc : c.unclosed.category = .unterminated) :
    EndsEarly c.start back (readEnumBody o c (front ++ back)) (readEnumBody o c front) :=
  readBody_endsEarly front back hc fun front =>
    readEnumerators_endsEarly front back hc #[] #[] false

theorem readStructBody_endsEarly (hc : c.unclosed.category = .unterminated) :
    EndsEarly c.start back (readStructBody o c (front ++ back)) (readStructBody o c front) :=
  readBody_endsEarly front back hc fun front => readMembers_endsEarly front back hc #[] #[]

theorem readEnd_endsEarly (hc : c.unclosed.category = .unterminated) :
    EndsEarly c.start back (readEnd c (front ++ back)) (readEnd c front) := by
  rcases skipLines_append_cases front back with hnil | ⟨t, rest, hskip, hskip'⟩
  · simp only [readEnd, hnil]
    exact Construct.endsEarly_cut back hc _
  · simp only [readEnd, hskip, hskip']
    split
    · exact .done
    · exact .broken

theorem readTypedefName_endsEarly (hc : c.unclosed.category = .unterminated) (tag : Option Bytes)
    (noName : SyntaxError) :
    EndsEarly c.start back (readTypedefName c tag noName (front ++ back))
      (readTypedefName c tag noName front) := by
  rcases skipLines_append_cases front back with hnil | ⟨t, rest, hskip, hskip'⟩
  · simp only [readTypedefName, hnil]
    exact Construct.endsEarly_cut back hc _
  · simp only [readTypedefName, hskip, hskip']
    split
    · exact (readEnd_endsEarly rest back hc).map _
    · cases tag with
      | some tag => exact (readEnd_endsEarly (t :: rest) back hc).map _
      | none => exact .broken

theorem readSignature_endsEarly (hc : c.unclosed.category = .unterminated) :
    EndsEarly c.start back (readSignature o c (front ++ back)) (readSignature o c front) := by
  rcases skipLayout_append_cases front back with hnil | ⟨t, rest, hskip, hskip'⟩
  · simp only [readSignature, hnil]
    exact Construct.endsEarly_cut back hc _
  · simp only [readSignature, hskip, hskip']
    split
    · exact readParameterList_endsEarly rest back hc
    · exact .broken

end

section

variable {o : ReadOptions} (start : Position) (front back : List Token)

theorem readEnumDeclaration_endsEarly :
    EndsEarly start back (readEnumDeclaration o start (front ++ back))
      (readEnumDeclaration o start front) := by
  have henum :
      EndsEarly start back (readEnum o start (front ++ back)) (readEnum o start front) := by
    rcases skipLayout_append_cases front back with hnil | ⟨t, rest, hskip, hskip'⟩
    · simp only [readEnum, hnil]
      exact .cut rfl rfl
    · simp only [readEnum, hskip, hskip']
      split
      · exact (readEnumBody_endsEarly rest back
          (c := ⟨ascii "enum " ++ t.text, start, .unclosedEnum⟩) rfl).map _
      · exact .broken
  refine henum.andThen ?_
  intro e rest
  exact (readEnd_endsEarly rest back
    (c := ⟨ascii "enum " ++ e.name, start, .unclosedEnum⟩) rfl).map _

theorem readStructDeclaration_endsEarly :
    EndsEarly start back (readStructDeclaration o start (front ++ back))
      (readStructDeclaration o start front) := by
  rcases skipLayout_append_cases front back with hnil | ⟨t, rest, hskip, hskip'⟩
  · simp only [readStructDeclaration, hnil]
    exact .cut rfl rfl
  · simp only [readStructDeclaration, hskip, hskip']
    split
    · let c : Construct := ⟨ascii "struct " ++ t.text, start, .unclosedStruct⟩
      refine (readStructBody_endsEarly rest back (c := c) rfl).andThen ?_
      intro members rest
      exact (readEnd_endsEarly rest back (c := c) rfl).map _
    · exact .broken

theorem takeTag_append_cases :
    takeTag front = (none, []) ∨
      ((takeTag (front ++ back)).1 = (takeTag front).1 ∧
        (takeTag (front ++ back)).2 = (takeTag front).2 ++ back) := by
  rcases skipLayout_append_cases front back with hnil | ⟨t, rest, hskip, hskip'⟩
  · exact .inl (by simp [takeTag, hnil])
  · right
    simp only [takeTag, hskip, hskip']
    split <;> exact ⟨rfl, rfl⟩

theorem typedefConstruct_start (words : String) (tag : Option Bytes) :
    (typedefConstruct words tag start).start = start := by
  cases tag <;> rfl

theorem typedefConstruct_unclosed (words : String) (tag : Option Bytes) :
    (typedefConstruct words tag start).unclosed.category = .unterminated := by
  cases tag <;> rfl

theorem readTypedefStruct_endsEarly :
    EndsEarly start back (readTypedefStruct o start (front ++ back))
      (readTypedefStruct o start front) := by
  rcases takeTag_append_cases front back with hnil | ⟨htag, hbehind⟩
  · simp only [readTypedefStruct, hnil]
    exact .cut rfl rfl
  · simp only [readTypedefStruct, htag, hbehind]
    have hc := typedefConstruct_unclosed start "typedef struct" (takeTag front).1
    have hstart := typedefConstruct_start start "typedef struct" (takeTag front).1
    generalize typedefConstruct "typedef struct" (takeTag front).1 start = c at hc hstart ⊢
    subst hstart
    refine (readStructBody_endsEarly _ back hc).andThen ?_
    intro members rest
    exact (readTypedefName_endsEarly rest back hc _ _).map _

theorem readTypedefEnum_endsEarly :
    EndsEarly start back (readTypedefEnum o start (front ++ back))
      (readTypedefEnum o start front) := by
  rcases takeTag_append_cases front back with hnil | ⟨htag, hbehind⟩
  · simp only [readTypedefEnum, hnil]
    exact .cut rfl rfl
  · simp only [readTypedefEnum, htag, hbehind]
    have hc := typedefConstruct_unclosed start "typedef enum" (takeTag front).1
    have hstart := typedefConstruct_start start "typedef enum" (takeTag front).1
    generalize typedefConstruct "typedef enum" (takeTag front).1 start = c at hc hstart ⊢
    subst hstart
    refine (readEnumBody_endsEarly _ back hc).andThen ?_
    intro attributes rest
    exact (readTypedefName_endsEarly rest back hc _ _).map _

theorem readTypedef_endsEarly :
    EndsEarly start back (readTypedef o start (front ++ back)) (readTypedef o start front) := by
  rcases skipLayout_append_cases front back with hnil | ⟨t, rest, hskip, hskip'⟩
  · simp only [readTypedef, hnil]
    exact .cut rfl rfl
  · simp only [readTypedef, hskip, hskip']
    split
    · exact readTypedefStruct_endsEarly start rest back
    · split
      · exact readTypedefEnum_endsEarly start rest back
      · exact .broken

theorem takeReturnType_append_cases (type : Scalar) :
    takeReturnType type front = (type, []) ∨
      ((takeReturnType type (front ++ back)).1 = (takeReturnType type front).1 ∧
        (takeReturnType type (front ++ back)).2 = (takeReturnType type front).2 ++ back) := by
  rcases skipLayout_append_cases front back with hnil | ⟨t, rest, hskip, hskip'⟩
  · exact .inl (by simp [takeReturnType, hnil])
  · right
    simp only [takeReturnType, hskip, hskip']
    split <;> exact ⟨rfl, rfl⟩

theorem readPrototype_endsEarly (keyword : Scalar) :
    EndsEarly start back (readPrototype o start keyword (front ++ back))
      (readPrototype o start keyword front) := by
  rcases takeReturnType_append_cases front back keyword with hnil | ⟨htype, hbehind⟩
  · simp only [readPrototype, hnil]
    exact .cut rfl rfl
  · rcases skipLayout_append_cases (takeReturnType keyword front).2 back with
      hnil | ⟨t, rest, hskip, hskip'⟩
    · simp only [readPrototype, hnil]
      exact .cut rfl rfl
    · simp only [readPrototype, htype, hbehind, hskip, hskip']
      split
      · exact (readSignature_endsEarly rest back
          (c := functionConstruct (takeReturnType keyword front).1 t.text start) rfl).map _
      · split
        · exact .broken
        · exact .broken

theorem readPrototypeEnd_endsEarly (p : Prototype) :
    EndsEarly start back (readPrototypeEnd start p (front ++ back))
      (readPrototypeEnd start p front) := by
  rcases skipLines_append_cases front back with hnil | ⟨t, rest, hskip, hskip'⟩
  · simp only [readPrototypeEnd, hnil]
    exact .cut rfl rfl
  · simp only [readPrototypeEnd, hskip, hskip']
    split
    · exact .done
    · split
      · exact .broken
      · exact .broken

theorem readPrototypeDeclaration_endsEarly (keyword : Scalar) :
    EndsEarly start back (readPrototypeDeclaration o start keyword (front ++ back))
      (readPrototypeDeclaration o start keyword front) :=
  (readPrototype_endsEarly start front back keyword).andThen fun p rest =>
    (readPrototypeEnd_endsEarly start rest back p).map _

end

/-- A construct that is no directive is cut off at the end of the source or read as before. -/
theorem readConstruct_endsEarly {o : ReadOptions} {t : Token}
    (ht : t.kind.isDirective = false) (front back : List Token) :
    EndsEarly t.position back (readConstruct o t (front ++ back)) (readConstruct o t front) := by
  have hdirective : ¬ t.kind.isDirective = true := by simp [ht]
  simp only [readConstruct, if_neg hdirective]
  split
  · exact (readEnumDeclaration_endsEarly t.position front back).map _
  · exact (readStructDeclaration_endsEarly t.position front back).map _
  · exact (readTypedef_endsEarly t.position front back).map _
  · exact .broken
  · exact .broken
  · cases Scalar.ofKeyword? t.kind with
    | some keyword => exact (readPrototypeDeclaration_endsEarly t.position front back keyword).map _
    | none =>
        simp only
        split
        · cases hread : (readLinkage t (front ++ back) : Outcome (Option Declaration)) with
          | done value rest =>
              exact absurd hread (Grammar.readLinkage_ne_done t (front ++ back) rest value)
          | broken fault rest => exact .broken
        · exact .broken

namespace Grammar

/-! ## The items before a cut -/

/-- The tokens before the first token of an item: other items, with their declarations. No directive
reaches up to the item. -/
inductive Leads (o : ReadOptions) (start : Token) : List Token → List Declaration → Prop where
  | layout {layout : List Token} : significant layout = [] → Leads o start layout []
  | item {layout front before : List Token} {declaration : Option Declaration}
      {declarations : List Declaration} :
      significant layout = [] → Item o front declaration → Leads o start before declarations →
      Leads o start (layout ++ (front ++ before)) (declaration.toList ++ declarations)
  | directive {layout front before : List Token} {declaration : Option Declaration}
      {declarations : List Declaration} :
      significant layout = [] → DirectiveLine front declaration →
      (∀ t ∈ (before ++ [start]).head?, t.kind = .newline ∨ t.kind = .semicolon) →
      Leads o start before declarations →
      Leads o start (layout ++ (front ++ before)) (declaration.toList ++ declarations)

variable {o : ReadOptions} {start : Token} {before item after : List Token}
  {d : Option Declaration} {declarations others : List Declaration}

theorem head?_append_cons (before : List Token) (start : Token) (tokens : List Token) :
    (before ++ start :: tokens).head? = (before ++ [start]).head? := by
  cases before <;> rfl

/-- An item with items before and behind it is a header. -/
theorem Leads.items (h : Leads o start before declarations) (hitem : Item o (start :: item) d)
    (hafter : Items o after others) :
    Items o (before ++ start :: (item ++ after)) (declarations ++ (d.toList ++ others)) := by
  induction h with
  | layout hlayout => exact .item hlayout hitem hafter
  | item hlayout hfront _ ih =>
      rw [List.append_assoc, List.append_assoc, List.append_assoc]
      exact .item hlayout hfront ih
  | directive hlayout hline hhead _ ih =>
      rw [List.append_assoc, List.append_assoc, List.append_assoc]
      refine .directive hlayout hline ?_ ih
      rwa [head?_append_cons]

/-- A session comes to the item with the declarations before it, whatever is left of the item. -/
theorem Leads.run (collect : Bool) (h : Leads o start before declarations) (rest : List Token)
    (found : Array Declaration) :
    Session.run { o with collect := collect } ⟨before ++ start :: rest, 0, found, #[]⟩ =
      Session.run { o with collect := collect }
        ⟨start :: rest, 0, found ++ declarations, #[]⟩ := by
  induction h generalizing found with
  | layout hlayout =>
      rw [Session.run_layout (skipLayout_append hlayout (start :: rest))]
      simp
  | @item layout front before d declarations hlayout hfront _ ih =>
      have hstep := Session.run_of_go
        (advance_item collect hlayout hfront (before ++ start :: rest) 0 found #[])
      rw [ih, Session.append_list_append] at hstep
      simpa using hstep
  | @directive layout front before d declarations hlayout hline hhead _ ih =>
      rw [← head?_append_cons before start rest] at hhead
      have hstep := Session.run_of_go (advance_directive (o := { o with collect := collect })
        hlayout hline hhead 0 found #[])
      rw [ih, Session.append_list_append] at hstep
      simpa using hstep

theorem Item.start_kind {declaration : Declaration}
    (h : Item o (start :: item) (some declaration)) :
    start.kind.isLayout = false ∧ start.kind.isDirective = false ∧
      ¬ (start.kind = .newline ∨ start.kind = .semicolon) ∧ start.kind ≠ .rightBrace := by
  rcases h.cons_cases with ⟨_, _, hnone⟩ | hkind
  · cases hnone
  · revert hkind
    cases start.kind <;> decide

/-- An item that the source cuts off is reported as unterminated where it starts. -/
theorem readConstruct_of_cut {front back : List Token} {declaration : Declaration}
    (h : Item o (start :: (front ++ back)) (some declaration)) (hback : back ≠ []) :
    ∃ fault, readConstruct o start front = .broken fault [] ∧
      fault.cause.category = .unterminated ∧ fault.position = start.position := by
  obtain ⟨_, hdirective, hseparator, _⟩ := h.start_kind
  have hwhole := readConstruct_of_item [] h hseparator
  rw [List.append_nil] at hwhole
  have hearly := readConstruct_endsEarly (o := o) hdirective front back
  rw [hwhole] at hearly
  exact hearly.eq_broken hback

/-- Tokens that end inside an item are read up to the item. -/
theorem readTokens_of_cut (collect : Bool) {front back : List Token} {declaration : Declaration}
    (hbefore : Leads o start before declarations)
    (hitem : Item o (start :: (front ++ back)) (some declaration)) (hback : back ≠ []) :
    ∃ fault, readTokens { o with collect := collect } (before ++ start :: front) =
        ⟨declarations, [], some fault⟩ ∧
      fault.cause.category = .unterminated ∧ fault.position = start.position := by
  obtain ⟨hlayout, _, hseparator, hbrace⟩ := hitem.start_kind
  obtain ⟨fault, hread, hcategory, hposition⟩ := readConstruct_of_cut hitem hback
  refine ⟨fault, ?_, hcategory, hposition⟩
  rw [← readConstruct_collect o collect] at hread
  have hskip : skipLayout (start :: front) = start :: front := by
    simp [skipLayout, hlayout]
  have hstops : Session.stops { o with collect := collect } fault = true := by
    simp [Session.stops, hcategory]
  have hhalt := Session.run_of_stop
    (s := ⟨start :: front, 0, (#[] : Array Declaration) ++ declarations, #[]⟩)
    (.halt hskip hseparator (by simp [hbrace]) hread hstops)
  rw [readTokens_eq, Session.ofTokens, hbefore.run collect front #[], hhalt]
  simp [Reading.ofRun]

end Grammar

/-- A header that the grammar derives, cut off where a token of one of its items starts, is read up
to that item and reported as unterminated at the first token of the item, whether faults are
collected or not. -/
theorem readHeader_truncated (multilineEnum noInlineEnum collect : Bool) {source : Bytes}
    {start t : Token} {before front back after : List Token} {declaration : Declaration}
    {declarations others : List Declaration}
    (hbefore : Grammar.Leads ⟨false, multilineEnum, noInlineEnum⟩ start before declarations)
    (hitem : Grammar.Item ⟨false, multilineEnum, noInlineEnum⟩ (start :: (front ++ t :: back))
      (some declaration))
    (hafter : Grammar.Items ⟨false, multilineEnum, noInlineEnum⟩ after others)
    (hsource : tokenize source = before ++ start :: (front ++ t :: back ++ after)) :
    let read := readHeader ⟨false, multilineEnum, noInlineEnum⟩ source
    let cut := readHeader ⟨collect, multilineEnum, noInlineEnum⟩ (source.take t.position.offset)
    (read.declarations = declarations ++ declaration :: others ∧ read.fault = none) ∧
      cut.declarations = declarations ∧ cut.diagnostics = [] ∧
      ∃ fault, cut.fault = some fault ∧ fault.cause.category = .unterminated ∧
        fault.position.offset = start.position.offset := by
  intro read cut
  let o : ReadOptions := ⟨false, multilineEnum, noInlineEnum⟩
  refine ⟨?_, ?_⟩
  · have hitems := hbefore.items hitem hafter
    rw [← hsource] at hitems
    exact (Grammar.readTokens_accepts_iff rfl).mpr hitems
  · have hsplit : tokenize source = (before ++ start :: front) ++ (t :: back ++ after) := by
      simpa using hsource
    have hplaced := placed_tokenize source
    rw [hsplit, Token.placed_append] at hplaced
    have hoffset : t.position.offset = (Token.concat (before ++ start :: front)).length := by
      simpa using hplaced.2.1
    have htext : source.take t.position.offset = Token.concat (before ++ start :: front) := by
      have hconcat := concat_tokenize source
      rw [hsplit, Token.concat_append] at hconcat
      rw [hoffset, ← hconcat, List.take_left]
    obtain ⟨fault, hread, hcategory, hposition⟩ :=
      Grammar.readTokens_of_cut collect hbefore hitem (by simp)
    obtain ⟨hdeclarations, hdiagnostics, hstopped⟩ :=
      readTokens_eq_of_spelling { o with collect := collect } (placed_tokenize _) hplaced.1
        (spelling_tokenize_concat hsplit)
    rw [← htext, hread] at hdeclarations hdiagnostics hstopped
    obtain ⟨found, hfound, hsame⟩ := Option.map_eq_some_iff.mp hstopped
    obtain ⟨hcause, hdetail⟩ := Prod.mk.inj hsame
    obtain ⟨_, hplace⟩ := Prod.mk.inj hdetail
    refine ⟨hdeclarations, List.map_eq_nil_iff.mp hdiagnostics, found, hfound, ?_, ?_⟩
    · rw [hcause, hcategory]
    · rw [← hposition]
      simpa using hplace

/-- An enum behind a directive, cut off before its closing brace. -/
theorem readHeader_truncated_enum :
    let cut := readHeader ⟨true, false, false⟩ (ascii "#define A\nenum E\x7bB")
    cut.declarations = [.macroName ⟨ascii "A", .define⟩] ∧ cut.diagnostics = [] ∧
      ∃ fault, cut.fault = some fault ∧ fault.cause.category = .unterminated ∧
        fault.position.offset = 10 := by
  let line : List Token :=
    [⟨.defineDirective, ascii "#define", ⟨0, 1, 1⟩⟩, ⟨.whiteSpace, ascii " ", ⟨7, 1, 8⟩⟩,
     ⟨.identifier, ascii "A", ⟨8, 1, 9⟩⟩]
  let newline : Token := ⟨.newline, ascii "\n", ⟨9, 1, 10⟩⟩
  let start : Token := ⟨.enumKeyword, ascii "enum", ⟨10, 2, 1⟩⟩
  let front : List Token :=
    [⟨.whiteSpace, ascii " ", ⟨14, 2, 5⟩⟩, ⟨.identifier, ascii "E", ⟨15, 2, 6⟩⟩,
     ⟨.leftBrace, ascii "\x7b", ⟨16, 2, 7⟩⟩, ⟨.identifier, ascii "B", ⟨17, 2, 8⟩⟩]
  let brace : Token := ⟨.rightBrace, ascii "\x7d", ⟨18, 2, 9⟩⟩
  let back : List Token := [⟨.semicolon, ascii ";", ⟨19, 2, 10⟩⟩]
  have hsource : tokenize (ascii "#define A\nenum E\x7bB\x7d;") =
      (line ++ [newline]) ++ start :: (front ++ brace :: back ++ []) := by
    decide +kernel
  have hline : Grammar.DirectiveLine line (some (.macroName ⟨ascii "A", .define⟩)) :=
    .mk rfl (by decide) (by decide +kernel)
  have hbreak : Grammar.Leads .default start [newline] [] :=
    @Grammar.Leads.item _ _ [] [newline] [] none [] rfl (.separator (.inl rfl)) (.layout rfl)
  have hbefore : Grammar.Leads .default start (line ++ [newline])
      [.macroName ⟨ascii "A", .define⟩] :=
    @Grammar.Leads.directive _ _ [] line [newline] _ [] rfl hline (by simp [newline]) hbreak
  have hread : readConstruct .default start (front ++ brace :: back) =
      .done (some (.enum ⟨ascii "E", [ascii "B"]⟩)) [] := by
    decide +kernel
  obtain ⟨item, hall, hitem⟩ := Grammar.readConstruct_item rfl hread
  rw [List.append_nil] at hall
  rw [← hall] at hitem
  exact (readHeader_truncated false false true hbefore hitem (.nil rfl) hsource).2

end HeaderBinding
