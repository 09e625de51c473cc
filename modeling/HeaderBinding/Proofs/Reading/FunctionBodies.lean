import HeaderBinding.Proofs.Reading.Recovery

/-!
# What is read behind a function definition

A function definition is refused at its opening brace, and a collecting session goes on behind the
closing one. If a name follows there, the session takes it for a part of the definition and passes
over what it starts. Nothing is lost by this, because no declaration starts with a name, unless the
name opens a linkage block: then the declarations in the block are lost.
-/

namespace HeaderBinding

namespace Grammar

/-! ## Function definitions -/

/-- The braces among the tokens match. -/
structure BraceMatched (tokens : List Token) : Prop where
  balanced : braceBalance tokens = 0
  nonneg : ∀ i ≤ tokens.length, 0 ≤ braceBalance (tokens.take i)

/-- What stands before the body of a function: a scalar type, a name and a parameter list. Layout
may stand anywhere, and line breaks behind the opening parenthesis. -/
inductive FunctionHead (o : ReadOptions) : List Token → Prop where
  | mk {first name left right : Token} {type head list gap : List Token} {s : Scalar}
      {parameters : List Argument} :
      ScalarType (first.kind :: type.map Token.kind) s → significant head = type ++ [name] →
      name.kind = .identifier → left.kind = .leftParen →
      ParameterList o (solid list) parameters → right.kind = .rightParen → solid gap = [] →
      FunctionHead o (first :: (head ++ left :: (list ++ right :: gap)))

/-- A function with a body whose braces match. -/
inductive FunctionDefinition (o : ReadOptions) : List Token → Prop where
  | mk {head body : List Token} {opening closing : Token} :
      FunctionHead o head → opening.kind = .leftBrace → BraceMatched body →
      closing.kind = .rightBrace →
      FunctionDefinition o (head ++ opening :: (body ++ [closing]))

theorem ParameterList.kind_ne {o : ReadOptions} {tokens : List Token} {parameters : List Argument}
    (h : ParameterList o tokens parameters) {k : TokenKind} (hk : k ∉ .comma :: argumentKinds) :
    ∀ t ∈ tokens, ¬ t.kind = k := by
  cases h with
  | empty => simp
  | void ht =>
      intro u hu hkind
      rw [List.mem_singleton.mp hu, ht] at hkind
      exact hk (hkind ▸ by decide)
  | parameters h => exact h.kind_ne hk

/-- A kind that counts stands among the tokens only if it stands among those that count. -/
theorem kind_ne_of_solid {tokens : List Token} {k : TokenKind} (hk : k.isLayoutOrNewline = false)
    (h : ∀ t ∈ solid tokens, ¬ t.kind = k) : ∀ t ∈ tokens, ¬ t.kind = k := by
  intro t ht hkind
  refine h t ?_ hkind
  simp [solid, ht, hkind, hk]

theorem mem_significant_of_mem_solid {tokens : List Token} {t : Token} (h : t ∈ solid tokens) :
    t ∈ significant tokens := by
  simp only [solid, significant, List.mem_filter] at h ⊢
  refine ⟨h.1, ?_⟩
  have hkind := h.2
  simp_all [TokenKind.isLayoutOrNewline]

/-- No brace stands before the body. -/
theorem FunctionHead.kind_ne {o : ReadOptions} {head : List Token} (h : FunctionHead o head)
    {k : TokenKind} (hk : k = .leftBrace ∨ k = .rightBrace) : ∀ t ∈ head, ¬ t.kind = k := by
  have hsolid : k.isLayoutOrNewline = false := by
    rcases hk with rfl | rfl <;> rfl
  have hkinds : k ∉ .leftParen :: .rightParen :: .comma :: argumentKinds := by
    rcases hk with rfl | rfl <;> decide
  obtain ⟨hleft', hright', hlist'⟩ :
      k ≠ .leftParen ∧ k ≠ .rightParen ∧ k ∉ .comma :: argumentKinds := by
    simpa [not_or] using hkinds
  cases h with
  | @mk first name left right type head list gap s parameters htype hhead hname hleft hlist hright
      hgap =>
      have hargument : k ∉ argumentKinds := fun hmem => hlist' (by simp [hmem])
      have htypes : ∀ t ∈ first :: type, ¬ t.kind = k := by
        intro t ht hkind
        exact hargument (hkind ▸ htype.mem_argumentKinds t.kind (List.mem_map_of_mem ht))
      have hheads : ∀ t ∈ head, ¬ t.kind = k := by
        refine kind_ne_of_solid hsolid ?_
        intro t ht hkind
        have hmem := mem_significant_of_mem_solid ht
        rw [hhead, List.mem_append, List.mem_singleton] at hmem
        rcases hmem with hmem | rfl
        · exact htypes t (List.mem_cons_of_mem first hmem) hkind
        · exact hargument (hkind ▸ hname ▸ by decide)
      have hlists : ∀ t ∈ list, ¬ t.kind = k := kind_ne_of_solid hsolid (hlist.kind_ne hlist')
      have hgaps : ∀ t ∈ gap, ¬ t.kind = k := kind_ne_of_solid hsolid (by simp [hgap])
      intro t ht
      simp only [List.mem_cons, List.mem_append] at ht
      rcases ht with rfl | ht | rfl | ht | rfl | ht
      · exact htypes t (by simp)
      · exact hheads t ht
      · rw [hleft]
        exact Ne.symm hleft'
      · exact hlists t ht
      · rw [hright]
        exact Ne.symm hright'
      · exact hgaps t ht

theorem FunctionHead.ne_nil {o : ReadOptions} {head : List Token} (h : FunctionHead o head) :
    head ≠ [] := by
  cases h
  simp

theorem FunctionHead.first_kind {o : ReadOptions} {first : Token} {head : List Token}
    (h : FunctionHead o (first :: head)) :
    first.kind.isLayout = false ∧ first.kind.isDirective = false ∧
      first.kind ≠ .newline ∧ first.kind ≠ .semicolon ∧ first.kind ≠ .rightBrace := by
  cases h with
  | mk htype =>
      have hmem := htype.mem_argumentKinds first.kind (by simp)
      revert hmem
      cases first.kind <;> decide

/-- A function is refused at the brace behind its head. -/
theorem readConstruct_of_functionHead {o : ReadOptions} {first opening : Token}
    {head : List Token} (h : FunctionHead o (first :: head)) (hopening : opening.kind = .leftBrace)
    (rest : List Token) :
    ∃ fault, readConstruct o first (head ++ opening :: rest) = .broken fault (opening :: rest) ∧
      fault.cause = .functionBody := by
  cases h with
  | @mk first name left right type head list gap s parameters htype hhead hname hleft hlist hright
      hgap =>
      obtain ⟨keyword, hkeyword, hread⟩ := readPrototype_of_form first.position
        (gap ++ opening :: rest) htype hhead hname hleft hlist hright
      have hskip : skipLines (gap ++ opening :: rest) = opening :: rest :=
        skipLines_append_cons hgap (by rw [hopening]; rfl)
      refine ⟨⟨.functionBody, s.name ++ ascii " " ++ name.text, opening.position⟩, ?_, rfl⟩
      rw [readConstruct_of_keyword hkeyword]
      simp [readPrototypeDeclaration, hread, readPrototypeEnd, hskip, hopening, Outcome.map,
        Outcome.andThen]
      rfl

end Grammar

/-! ## Passing over tokens -/

theorem foldl_braceDepth_of_kind_ne {tokens : List Token} (depth : Nat)
    (hleft : ∀ t ∈ tokens, ¬ t.kind = .leftBrace) (hright : ∀ t ∈ tokens, ¬ t.kind = .rightBrace) :
    tokens.foldl braceDepth depth = depth := by
  induction tokens with
  | nil => rfl
  | cons t tokens ih =>
      obtain ⟨htleft, hleft⟩ := List.forall_mem_cons.mp hleft
      obtain ⟨htright, hright⟩ := List.forall_mem_cons.mp hright
      have hdepth : braceDepth depth t = depth := by
        rw [braceDepth]
        split
        · contradiction
        · contradiction
        · rfl
      rw [List.foldl_cons, hdepth]
      exact ih hleft hright

/-- Tokens that neither open nor close nor end anything are passed over one by one. -/
theorem skipBroken_append_plain {front : List Token} (linkage : Nat) (rest : List Token)
    (hfront : ∀ t ∈ front, t.kind ∉ [.leftBrace, .rightBrace, .semicolon]) :
    skipBroken linkage 0 (front ++ rest) = skipBroken linkage 0 rest := by
  induction front with
  | nil => rfl
  | cons t front ih =>
      obtain ⟨ht, hfront⟩ := List.forall_mem_cons.mp hfront
      simp only [List.mem_cons, List.not_mem_nil, or_false, not_or] at ht
      obtain ⟨hleft, hright, hsemicolon⟩ := ht
      have hdepth : braceDepth 0 t = 0 := by simp [braceDepth]
      simp only [List.cons_append, skipBroken, hright, hsemicolon, hdepth, false_and, Nat.lt_irrefl,
        ↓reduceIte]
      exact ih hfront

/-- After a fault that leaves a part unread, reading goes on from the depth of what was taken. -/
theorem resume_append {start : Token} {taken rest : List Token} {fault : Fault} (linkage : Nat)
    (h : leavesRest start fault = true) :
    resume linkage start (taken ++ rest) rest fault =
      skipBroken linkage ((start :: taken).foldl braceDepth 0) rest := by
  have htake : (taken ++ rest).take ((taken ++ rest).length - rest.length) = taken := by
    rw [List.length_append, Nat.add_sub_cancel, List.take_left]
  rw [resume, if_pos h, htake]

theorem not_mem_marks_of_blank {t : Token} (h : t.kind.isLayoutOrNewline = true) :
    t.kind ∉ [.leftBrace, .rightBrace, .semicolon] := by
  revert h
  cases t.kind <;> decide

theorem not_mem_marks_of_solid_eq_nil {tokens : List Token} (h : solid tokens = []) :
    ∀ t ∈ tokens, t.kind ∉ [.leftBrace, .rightBrace, .semicolon] := by
  intro t ht
  have hblank := List.filter_eq_nil_iff.mp h t ht
  exact not_mem_marks_of_blank (by simpa using hblank)

/-- Inside a brace, tokens whose braces match are passed over as a whole. -/
theorem Grammar.BraceMatched.skipBroken_append {body : List Token} (h : BraceMatched body)
    (linkage : Nat) (rest : List Token) :
    skipBroken linkage 1 (body ++ rest) = skipBroken linkage 1 rest := by
  -- The induction runs over the part not passed yet; the depth is one more than the balance before.
  have hpart : ∀ front behind, body = front ++ behind →
      skipBroken linkage ((braceBalance front).toNat + 1) (behind ++ rest) =
        skipBroken linkage 1 rest := by
    intro front behind hbody
    induction behind generalizing front with
    | nil =>
        have hbalanced := h.balanced
        rw [hbody, List.append_nil] at hbalanced
        simp [hbalanced]
    | cons t behind ih =>
        have hfront : 0 ≤ braceBalance front := by
          have hnonneg := h.nonneg front.length (by simp [hbody])
          simpa [hbody] using hnonneg
        have hnext : 0 ≤ braceBalance (front ++ [t]) := by
          have hnonneg := h.nonneg (front.length + 1) (by simp [hbody])
          rw [hbody, List.take_length_add_append] at hnonneg
          simpa using hnonneg
        have hdepth : braceDepth ((braceBalance front).toNat + 1) t =
            (braceBalance (front ++ [t])).toNat + 1 := by
          have hbalance := braceBalance_append_singleton front t
          rw [braceDepth]
          split
          · rename_i hleft
            rw [if_pos hleft] at hbalance
            omega
          · rename_i hright
            rw [if_neg (by simp [hright]), if_pos hright] at hbalance
            omega
          · rename_i hleft hright
            rw [if_neg hleft, if_neg hright] at hbalance
            omega
        have hopen :
            ¬ (t.kind = .rightBrace ∧ (braceBalance front).toNat + 1 = 0 ∧ 0 < linkage) := by
          omega
        rw [List.cons_append, skipBroken, if_neg hopen, hdepth, if_pos (by omega)]
        exact ih (front ++ [t]) (by simp [hbody])
  exact hpart [] body rfl

/-- A collecting session passes over a body to the look-ahead behind its closing brace. -/
theorem skipBroken_body {body more : List Token} {opening closing : Token}
    (hopening : opening.kind = .leftBrace) (hbody : Grammar.BraceMatched body)
    (hclosing : closing.kind = .rightBrace) :
    skipBroken 0 0 (opening :: (body ++ closing :: more)) =
      if continuesBehindBrace more then skipBroken 0 0 more else skipLines more := by
  have hclose : skipBroken 0 1 (closing :: more) =
      if continuesBehindBrace more then skipBroken 0 0 more else skipLines more := by
    rw [skipBroken]
    by_cases hcontinues : continuesBehindBrace more = true
    · simp [hclosing, braceDepth, hcontinues]
    · simp [hclosing, braceDepth, hcontinues]
  rw [skipBroken]
  simp only [hopening, braceDepth, reduceCtorEq, false_and, ↓reduceIte, Nat.zero_add,
    Nat.zero_lt_one]
  rw [hbody.skipBroken_append, hclose]

namespace Session

/-! ## Going on behind the body -/

/-- No declaration starts with a name. One that opens no linkage block is refused before the first
brace or `;`. -/
theorem readConstruct_of_identifier {o : ReadOptions} {t : Token} {tokens : List Token}
    (ht : t.kind = .identifier) (hlinkage : ¬ OpensLinkage (t :: tokens)) :
    ∃ fault taken rest, readConstruct o t tokens = .broken fault rest ∧
      fault.cause = .unsupportedDeclaration ∧ tokens = taken ++ rest ∧
      ∀ u ∈ taken, u.kind ∉ [.leftBrace, .rightBrace, .semicolon] := by
  have hconstruct : readConstruct o t tokens =
      if t.text = ascii "extern" then readLinkage t tokens
      else .broken (t.fault .unsupportedDeclaration) tokens := by
    simp [readConstruct, ht, TokenKind.isDirective, Scalar.ofKeyword?]
  rw [hconstruct]
  by_cases hextern : t.text = ascii "extern"
  · rw [if_pos hextern, readLinkage]
    split
    · rename_i hskip
      have hsolid := Grammar.solid_eq_nil_of_significant (skipLayout_eq_nil_iff.mp hskip)
      exact ⟨_, tokens, [], rfl, rfl, by simp, not_mem_marks_of_solid_eq_nil hsolid⟩
    · rename_i language behind hskip
      obtain ⟨gap, rfl, hgap, _⟩ := skipLayout_eq_cons_iff.mp hskip
      have hgap' := not_mem_marks_of_solid_eq_nil (Grammar.solid_eq_nil_of_significant hgap)
      split
      · rename_i hlanguage
        -- What is passed over: the gap, the literal, and the line breaks behind it.
        have hplain : ∀ lines, solid lines = [] →
            ∀ u ∈ gap ++ language :: lines, u.kind ∉ [.leftBrace, .rightBrace, .semicolon] := by
          intro lines hlines u hu
          rcases List.mem_append.mp hu with hu | hu
          · exact hgap' u hu
          · rcases List.mem_cons.mp hu with rfl | hu
            · rw [hlanguage]
              decide
            · exact not_mem_marks_of_solid_eq_nil hlines u hu
        split
        · rename_i hlines
          refine ⟨_, gap ++ language :: behind, [], rfl, rfl, by simp, hplain behind ?_⟩
          simpa [skipLines, solid, List.dropWhile_eq_nil_iff] using hlines
        · rename_i brace inside hlines
          obtain ⟨lines, rfl, hsolid, _⟩ := skipLines_eq_cons_iff.mp hlines
          split
          · rename_i hbrace
            exact absurd (.mk ht hextern hgap hlanguage hsolid hbrace) hlinkage
          · exact ⟨_, gap ++ language :: lines, brace :: inside, rfl, rfl, by simp,
              hplain lines hsolid⟩
      · exact ⟨_, gap, language :: behind, rfl, rfl, rfl, hgap'⟩
  · rw [if_neg hextern]
    exact ⟨_, [], tokens, rfl, rfl, rfl, by simp⟩

/-- A collecting session notes what starts with a name and passes over it, as it does behind a
closing brace. -/
theorem run_of_identifier {o : ReadOptions} (ho : o.collect = true) {t : Token}
    {tokens : List Token} (ht : t.kind = .identifier) (hlinkage : ¬ OpensLinkage (t :: tokens))
    (declarations : Array Declaration) (diagnostics : Array Fault) :
    ∃ fault, run o ⟨t :: tokens, 0, declarations, diagnostics⟩ =
      run o ⟨skipBroken 0 0 (t :: tokens), 0, declarations, diagnostics.push fault⟩ := by
  obtain ⟨fault, taken, rest, hread, hcause, rfl, htaken⟩ :=
    readConstruct_of_identifier (o := o) ht hlinkage
  have hplain : ∀ u ∈ t :: taken, u.kind ∉ [.leftBrace, .rightBrace, .semicolon] := by
    refine List.forall_mem_cons.mpr ⟨?_, htaken⟩
    rw [ht]
    decide
  have hdepth : (t :: taken).foldl braceDepth 0 = 0 := by
    apply foldl_braceDepth_of_kind_ne
    · intro u hu hkind
      exact hplain u hu (by simp [hkind])
    · intro u hu hkind
      exact hplain u hu (by simp [hkind])
  have hresume : resume 0 t (taken ++ rest) rest fault = skipBroken 0 0 (t :: (taken ++ rest)) := by
    have hleaves : leavesRest t fault = true := by
      simp [leavesRest, ht, hcause, TokenKind.isDirective]
    rw [resume_append 0 hleaves, hdepth, ← List.cons_append, skipBroken_append_plain 0 rest hplain]
  have hskip : skipLayout (t :: (taken ++ rest)) = t :: (taken ++ rest) := by
    simp [skipLayout, ht, TokenKind.isLayout]
  have hstops : stops o fault = false := by
    simp [stops, ho, hcause, SyntaxError.category]
  have hafter : linkageAfter 0 fault = 0 := by
    simp [linkageAfter, hcause]
  refine ⟨fault, ?_⟩
  rw [run_of_go (s := ⟨t :: (taken ++ rest), 0, declarations, diagnostics⟩)
    (.recover hskip (by simp [ht]) (by simp [ht]) hread hstops)]
  simp only [hafter, hresume]

/-- What a session goes on with behind a closing brace is what it would come to from there,
unless a linkage block is opened. -/
theorem run_behindBrace {o : ReadOptions} (ho : o.collect = true) {tokens : List Token}
    (hlinkage : ¬ OpensLinkage (skipLines tokens)) (declarations : Array Declaration)
    (diagnostics : Array Fault) :
    ∃ found, run o ⟨tokens, 0, declarations, diagnostics⟩ =
      run o ⟨if continuesBehindBrace tokens then skipBroken 0 0 tokens else skipLines tokens,
        0, declarations, diagnostics ++ found⟩ := by
  rw [← run_skipLines]
  by_cases hcontinues : continuesBehindBrace tokens = true
  · rw [if_pos hcontinues]
    rw [continuesBehindBrace] at hcontinues
    split at hcontinues
    · cases hcontinues
    · rename_i t rest hskip
      obtain ⟨gap, rfl, hgap, ht⟩ := skipLines_eq_cons_iff.mp hskip
      rw [hskip] at hlinkage ⊢
      rw [skipBroken_append_plain 0 _ (not_mem_marks_of_solid_eq_nil hgap)]
      simp only [Bool.or_eq_true, beq_iff_eq] at hcontinues
      rcases hcontinues with hsemicolon | hidentifier
      · have hself : skipLayout (t :: rest) = t :: rest := by
          simp [skipLayout, hsemicolon, TokenKind.isLayout]
        have hbehind : skipBroken 0 0 (t :: rest) = rest := by
          simp [skipBroken, hsemicolon, braceDepth]
        refine ⟨#[], ?_⟩
        rw [hbehind, Array.append_empty]
        exact run_of_go (s := ⟨t :: rest, 0, declarations, diagnostics⟩)
          (.separate hself (.inr hsemicolon))
      · obtain ⟨fault, hrun⟩ := run_of_identifier ho hidentifier hlinkage declarations diagnostics
        exact ⟨#[fault], hrun⟩
  · rw [if_neg hcontinues]
    exact ⟨#[], by rw [Array.append_empty]⟩

/-- What was noted before has no part in the declarations a run finds. -/
theorem run_declarations_eq (o : ReadOptions) (tokens : List Token) (diagnostics : Array Fault) :
    (run o ⟨tokens, 0, #[], diagnostics⟩).1.declarations =
        (run o (.ofTokens tokens)).1.declarations ∧
      (run o ⟨tokens, 0, #[], diagnostics⟩).2 = (run o (.ofTokens tokens)).2 := by
  rw [run_eq_behind]
  simp [behind]

/-- A collecting session notes a function definition and goes on at the look-ahead behind it. -/
theorem run_functionDefinition {o : ReadOptions} (ho : o.collect = true) {tokens : List Token}
    (h : Grammar.FunctionDefinition o tokens) (more : List Token) :
    ∃ fault, fault.cause = .functionBody ∧
      run o (.ofTokens (tokens ++ more)) =
        run o ⟨if continuesBehindBrace more then skipBroken 0 0 more else skipLines more,
          0, #[], #[fault]⟩ := by
  obtain @⟨head, body, opening, closing, hhead, hopening, hbody, hclosing⟩ := h
  have hdepth : head.foldl braceDepth 0 = 0 :=
    foldl_braceDepth_of_kind_ne 0 (hhead.kind_ne (.inl rfl)) (hhead.kind_ne (.inr rfl))
  obtain ⟨first, head, rfl⟩ := List.exists_cons_of_ne_nil hhead.ne_nil
  obtain ⟨hlayout, hdirective, hmarks⟩ := hhead.first_kind
  obtain ⟨fault, hread, hcause⟩ :=
    Grammar.readConstruct_of_functionHead hhead hopening (body ++ closing :: more)
  have hskip : skipLayout (first :: (head ++ opening :: (body ++ closing :: more))) =
      first :: (head ++ opening :: (body ++ closing :: more)) := by
    simp [skipLayout, hlayout]
  have hstops : stops o fault = false := by
    simp [stops, ho, hcause, SyntaxError.category]
  have hafter : linkageAfter 0 fault = 0 := by
    simp [linkageAfter, hcause]
  have hleaves : leavesRest first fault = true := by
    simp [leavesRest, hdirective, hmarks, hcause]
  have hresume : resume 0 first (head ++ opening :: (body ++ closing :: more))
      (opening :: (body ++ closing :: more)) fault =
        if continuesBehindBrace more then skipBroken 0 0 more else skipLines more := by
    rw [resume_append 0 hleaves, hdepth, skipBroken_body hopening hbody hclosing]
  have hstep := run_of_go
    (s := .ofTokens (first :: (head ++ opening :: (body ++ closing :: more))))
    (.recover hskip (by simp [hmarks]) (by simp [hmarks]) hread hstops)
  refine ⟨fault, hcause, ?_⟩
  simpa [ofTokens, hafter, hresume] using hstep

/-- Unless a linkage block is opened behind a function definition, a session finds there what it
finds from there on. -/
theorem run_behind_functionDefinition {o : ReadOptions} (ho : o.collect = true)
    {tokens more : List Token} (h : Grammar.FunctionDefinition o tokens)
    (hlinkage : ¬ OpensLinkage (skipLines more)) :
    let r := run o (.ofTokens (tokens ++ more))
    let r' := run o (.ofTokens more)
    r.1.declarations = r'.1.declarations ∧ r.2 = r'.2 ∧
      ∃ fault ∈ r.1.diagnostics.toList.head?, fault.cause = .functionBody := by
  intro r r'
  obtain ⟨fault, hcause, hrun⟩ := run_functionDefinition ho h more
  obtain ⟨found, hbehind⟩ := run_behindBrace ho hlinkage #[] #[]
  have hfound := run_declarations_eq o
    (if continuesBehindBrace more then skipBroken 0 0 more else skipLines more)
  have hr : r = run o ⟨if continuesBehindBrace more then skipBroken 0 0 more else skipLines more,
      0, #[], #[fault]⟩ := hrun
  have hr' : r' = run o ⟨if continuesBehindBrace more then skipBroken 0 0 more else skipLines more,
      0, #[], #[] ++ found⟩ := hbehind
  refine ⟨?_, ?_, fault, ?_, hcause⟩
  · rw [hr, hr', (hfound _).1, (hfound _).1]
  · rw [hr, hr', (hfound _).2, (hfound _).2]
  · have hkept := run_prefix o
      ⟨if continuesBehindBrace more then skipBroken 0 0 more else skipLines more,
        0, #[], #[fault]⟩
    obtain ⟨others, hothers⟩ := hkept.2
    rw [hr, ← hothers]
    rfl

end Session

/-- A collecting session that meets a function definition and a line break before a source finds the
declarations of the source, unless the source opens with a linkage block. -/
theorem readHeader_behind_functionDefinition (multilineEnum noInlineEnum : Bool)
    {source behind : Bytes} {function : List Token} {newline : Token}
    (hfunction : Grammar.FunctionDefinition ⟨true, multilineEnum, noInlineEnum⟩ function)
    (hnewline : newline.kind = .newline)
    (hsource : (tokenize source).map Token.spelling =
      (function ++ newline :: tokenize behind).map Token.spelling)
    (hlinkage : ¬ OpensLinkage (skipLines (tokenize behind))) :
    let collected := readHeader ⟨true, multilineEnum, noInlineEnum⟩ source
    let alone := readHeader ⟨true, multilineEnum, noInlineEnum⟩ behind
    collected.declarations = alone.declarations ∧
      collected.fault.map Fault.cause = alone.fault.map Fault.cause ∧
      (collected.diagnostics.map Fault.cause).head? = some .functionBody := by
  intro collected alone
  let o : ReadOptions := ⟨true, multilineEnum, noInlineEnum⟩
  have hskip : skipLines (newline :: tokenize behind) = skipLines (tokenize behind) := by
    simp [skipLines, TokenKind.isLayoutOrNewline, hnewline]
  -- The line break behind the definition is passed over by itself.
  have hbreak : Session.run o (.ofTokens (newline :: tokenize behind)) =
      Session.run o (.ofTokens (tokenize behind)) := by
    rw [Session.ofTokens, ← Session.run_skipLines, hskip, Session.run_skipLines]
    rfl
  have hopens : ¬ OpensLinkage (skipLines (newline :: tokenize behind)) := by
    rwa [hskip]
  have hbehind := Session.run_behind_functionDefinition (o := o) rfl hfunction hopens
  obtain ⟨hdeclarations, _, hdiagnostics, hfault⟩ := Session.run_eq_of_spelling o hsource
  rw [hbreak] at hbehind
  obtain ⟨hsame, hstopped, fault, hhead, hcause⟩ := hbehind
  refine ⟨?_, ?_, ?_⟩
  · exact congrArg Array.toList (hdeclarations.trans hsame)
  · exact hfault.trans (congrArg (Option.map Fault.cause) hstopped)
  · have hcauses : collected.diagnostics.map Fault.cause = _ := hdiagnostics
    rw [hcauses, List.head?_map, hhead, Option.map_some, hcause]

/-- The tokens of `int f(void)` and a body on two lines. -/
def functionOnTwoLines : List Token :=
  [⟨.intKeyword, ascii "int", ⟨0, 1, 1⟩⟩, ⟨.whiteSpace, ascii " ", ⟨3, 1, 4⟩⟩,
   ⟨.identifier, ascii "f", ⟨4, 1, 5⟩⟩, ⟨.leftParen, ascii "(", ⟨5, 1, 6⟩⟩,
   ⟨.voidKeyword, ascii "void", ⟨6, 1, 7⟩⟩, ⟨.rightParen, ascii ")", ⟨10, 1, 11⟩⟩,
   ⟨.whiteSpace, ascii " ", ⟨11, 1, 12⟩⟩, ⟨.leftBrace, ascii "\x7b", ⟨12, 1, 13⟩⟩,
   ⟨.newline, ascii "\n", ⟨13, 1, 14⟩⟩, ⟨.rightBrace, ascii "\x7d", ⟨14, 2, 1⟩⟩]

theorem functionDefinition_onTwoLines (o : ReadOptions) :
    Grammar.FunctionDefinition o functionOnTwoLines := by
  have hhead : Grammar.FunctionHead o (functionOnTwoLines.take 7) :=
    @Grammar.FunctionHead.mk o _ ⟨.identifier, ascii "f", ⟨4, 1, 5⟩⟩ _ _ []
      [⟨.whiteSpace, ascii " ", ⟨3, 1, 4⟩⟩, ⟨.identifier, ascii "f", ⟨4, 1, 5⟩⟩]
      [⟨.voidKeyword, ascii "void", ⟨6, 1, 7⟩⟩] [⟨.whiteSpace, ascii " ", ⟨11, 1, 12⟩⟩] _ _
      .int rfl rfl rfl (.void rfl) rfl rfl
  have hbody : Grammar.BraceMatched [⟨.newline, ascii "\n", ⟨13, 1, 14⟩⟩] :=
    ⟨by decide, by decide⟩
  exact .mk hhead rfl hbody rfl

theorem readHeader_behind_functionDefinition_name :
    (readHeader ⟨true, false, false⟩
        (ascii "int f(void) \x7b\n\x7d\nsize_t n;\nint g(void);\n")).declarations =
      [.prototype ⟨ascii "g", .scalar .int, []⟩] := by
  have hsource : (tokenize (ascii "int f(void) \x7b\n\x7d\nsize_t n;\nint g(void);\n")).map
        Token.spelling =
      (functionOnTwoLines ++ ⟨.newline, ascii "\n", ⟨15, 2, 2⟩⟩ ::
        tokenize (ascii "size_t n;\nint g(void);\n")).map Token.spelling := by
    decide +kernel
  obtain ⟨tail, hname⟩ : ∃ tail, tokenize (ascii "size_t n;\nint g(void);\n") =
      ⟨.identifier, ascii "size_t", ⟨0, 1, 1⟩⟩ :: tail :=
    ⟨(tokenize (ascii "size_t n;\nint g(void);\n")).tail, by decide +kernel⟩
  have hlinkage : ¬ OpensLinkage (skipLines (tokenize (ascii "size_t n;\nint g(void);\n"))) := by
    rw [hname]
    intro h
    cases h with
    | mk _ htext => exact absurd htext (by decide)
  have hread := readHeader_behind_functionDefinition false false
    (functionDefinition_onTwoLines _) rfl hsource hlinkage
  refine hread.1.trans ?_
  decide +kernel

/-- A linkage block behind a function definition is passed over together with the declarations in
it, which are found if the function is left out. -/
theorem readHeader_loses_linkageBlock :
    let behind := ascii "extern \"C\" \x7b\nint g(void);\n\x7d\n"
    let source := ascii "int f(void) \x7b\n\x7d\nextern \"C\" \x7b\nint g(void);\n\x7d\n"
    Grammar.FunctionDefinition ⟨true, false, false⟩ functionOnTwoLines ∧
      (tokenize source).map Token.spelling =
        (functionOnTwoLines ++ ⟨.newline, ascii "\n", ⟨15, 2, 2⟩⟩ :: tokenize behind).map
          Token.spelling ∧
      (readHeader ⟨true, false, false⟩ behind).fault = none ∧
      (readHeader ⟨true, false, false⟩ behind).declarations =
        [.prototype ⟨ascii "g", .scalar .int, []⟩] ∧
      (readHeader ⟨true, false, false⟩ source).declarations = [] := by
  intro behind source
  refine ⟨functionDefinition_onTwoLines _, ?_, ?_, ?_, ?_⟩
  · decide +kernel
  · decide +kernel
  · decide +kernel
  · decide +kernel

end HeaderBinding
