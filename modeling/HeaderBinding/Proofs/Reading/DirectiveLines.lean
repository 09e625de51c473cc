import HeaderBinding.Proofs.Reading.Acceptance
import HeaderBinding.Proofs.Token.LineFeeds

/-!
# How far a directive reaches

A directive takes the tokens up to the first line break or `;`. Its text stays on one line, block
comments apart, unless a literal in it is not closed: the line feed that breaks off the literal is
part of an invalid token, which ends no directive.
-/

namespace HeaderBinding

/-- What a directive comes to from its text, with the tokens behind its line. -/
def directiveOutcome (start : Token) (text : Bytes) (rest : List Token) :
    Outcome (Option Declaration) :=
  match parseStatement text with
  | .ok declaration => .done declaration rest
  | .error fault => .broken { fault with position := start.position } rest

/-- A directive is read from the tokens up to the first mark that ends it. -/
theorem readDirective_line (t : Token) (tokens : List Token) :
    ∃ line rest, tokens = line ++ rest ∧
      (∀ u ∈ line, u.kind ≠ .newline ∧ u.kind ≠ .semicolon) ∧
      (∀ u ∈ rest.head?, u.kind = .newline ∨ u.kind = .semicolon) ∧
      readDirective t tokens = directiveOutcome t (Token.concat (t :: line)) rest := by
  refine ⟨tokens.takeWhile (!·.endsDirective), tokens.dropWhile (!·.endsDirective),
    List.takeWhile_append_dropWhile.symm, ?_, ?_, rfl⟩
  · intro u hu
    have hinside : u.endsDirective = false := by simpa using List.mem_takeWhile_imp hu
    rwa [← Bool.not_eq_true, Grammar.endsDirective_eq_true_iff, not_or] at hinside
  · intro u hu
    have hends := List.head?_dropWhile_not (!·.endsDirective) tokens
    rw [hu] at hends
    exact Grammar.endsDirective_eq_true_iff.mp (by simpa using hends)

/-- No directive token holds a line feed. -/
theorem lineFeed_not_mem_directive {source : Bytes} {t : Token} (ht : t ∈ tokenize source)
    (hdirective : t.kind.isDirective = true) : lineFeed ∉ t.text := by
  intro hfeed
  have hkind : t.kind ∈ [.newline, .comment, .invalid] := by
    rcases tokenize_lineFeed ht hfeed with hk | hk | hk
    · simp [hk]
    · simp [hk.1]
    · simp [hk.1]
  revert hdirective hkind
  cases t.kind <;> decide

/-- A directive takes the tokens up to the first line break or `;`, and its text has line feeds in
block comments only, exactly if none of its invalid tokens holds one. Such a token holds a literal
that the line feed breaks off. -/
theorem readConstruct_directive_line (o : ReadOptions) {source : Bytes} {front tokens : List Token}
    {t : Token} (h : tokenize source = front ++ t :: tokens)
    (hdirective : t.kind.isDirective = true) :
    ∃ line rest, tokens = line ++ rest ∧
      (∀ u ∈ line, u.kind ≠ .newline ∧ u.kind ≠ .semicolon) ∧
      (∀ u ∈ rest.head?, u.kind = .newline ∨ u.kind = .semicolon) ∧
      readConstruct o t tokens = directiveOutcome t (Token.concat (t :: line)) rest ∧
      ((∀ u ∈ t :: line, lineFeed ∈ u.text → u.IsBlockComment) ↔
        ∀ u ∈ line, u.kind = .invalid → lineFeed ∉ u.text) ∧
      ∀ u ∈ line, u.kind = .invalid → lineFeed ∈ u.text → u.BreaksLiteral := by
  obtain ⟨line, rest, rfl, hline, hrest, hread⟩ := readDirective_line t tokens
  have ht : t ∈ tokenize source := by simp [h]
  have hmem : ∀ u ∈ line, u ∈ tokenize source := by
    intro u hu
    simp [h, hu]
  -- The line holds no line break, so two kinds of tokens are left that hold a line feed.
  have hcases : ∀ u ∈ line, lineFeed ∈ u.text → u.IsBlockComment ∨ u.BreaksLiteral := by
    intro u hu hfeed
    exact (tokenize_lineFeed (hmem u hu) hfeed).resolve_left (hline u hu).1
  refine ⟨line, rest, rfl, hline, hrest, ?_, ?_, ?_⟩
  · rw [readConstruct, if_pos hdirective, hread]
  · constructor
    · intro hall u hu hkind hfeed
      have hcomment := (hall u (List.mem_cons_of_mem t hu) hfeed).1
      rw [hkind] at hcomment
      cases hcomment
    · intro hnone u hu hfeed
      rcases List.mem_cons.mp hu with rfl | hu
      · exact absurd hfeed (lineFeed_not_mem_directive ht hdirective)
      · rcases hcases u hu hfeed with hcomment | hbreaks
        · exact hcomment
        · exact absurd hfeed (hnone u hu hbreaks.1)
  · intro u hu hkind hfeed
    rcases hcases u hu hfeed with hcomment | hbreaks
    · rw [hcomment.1] at hkind
      cases hkind
    · exact hbreaks

/-- The line of a directive with a block comment over two lines and a literal that is not closed. -/
theorem readConstruct_directive_line_openLiteral :
    ∃ t tokens line rest,
      tokenize (ascii "#define A /*\n*/ 'x\nint f();\n") = t :: tokens ∧
      t.kind.isDirective = true ∧ tokens = line ++ rest ∧
      (∀ u ∈ line, u.kind ≠ .newline ∧ u.kind ≠ .semicolon) ∧
      (∀ u ∈ rest.head?, u.kind = .newline ∨ u.kind = .semicolon) ∧
      readConstruct .default t tokens = directiveOutcome t (Token.concat (t :: line)) rest ∧
      ((∀ u ∈ t :: line, lineFeed ∈ u.text → u.IsBlockComment) ↔
        ∀ u ∈ line, u.kind = .invalid → lineFeed ∉ u.text) ∧
      ∀ u ∈ line, u.kind = .invalid → lineFeed ∈ u.text → u.BreaksLiteral := by
  have htokens : tokenize (ascii "#define A /*\n*/ 'x\nint f();\n") =
      [] ++ ⟨.defineDirective, ascii "#define", ⟨0, 1, 1⟩⟩ ::
        (tokenize (ascii "#define A /*\n*/ 'x\nint f();\n")).tail := by
    decide +kernel
  obtain ⟨line, rest, hspec⟩ :=
    readConstruct_directive_line .default htokens (by decide)
  exact ⟨_, _, line, rest, htokens, rfl, hspec⟩

/-- A quote that is not closed makes a directive absorb the next line with its declaration. -/
theorem readConstruct_directive_absorbs_line :
    let start : Token := ⟨.defineDirective, ascii "#define", ⟨0, 1, 1⟩⟩
    let literal : Token := ⟨.invalid, ascii "'x\n", ⟨10, 1, 11⟩⟩
    let line : List Token :=
      [⟨.whiteSpace, ascii " ", ⟨7, 1, 8⟩⟩, ⟨.identifier, ascii "A", ⟨8, 1, 9⟩⟩,
       ⟨.whiteSpace, ascii " ", ⟨9, 1, 10⟩⟩, literal, ⟨.intKeyword, ascii "int", ⟨13, 2, 1⟩⟩,
       ⟨.whiteSpace, ascii " ", ⟨16, 2, 4⟩⟩, ⟨.identifier, ascii "f", ⟨17, 2, 5⟩⟩,
       ⟨.leftParen, ascii "(", ⟨18, 2, 6⟩⟩, ⟨.rightParen, ascii ")", ⟨19, 2, 7⟩⟩]
    let rest : List Token :=
      [⟨.semicolon, ascii ";", ⟨20, 2, 8⟩⟩, ⟨.newline, ascii "\n", ⟨21, 2, 9⟩⟩]
    tokenize (ascii "#define A 'x\nint f();\n") = start :: (line ++ rest) ∧
      readConstruct .default start (line ++ rest) =
        .done (some (.macroName ⟨ascii "A", .define⟩)) rest ∧
      literal ∈ line ∧ lineFeed ∈ literal.text ∧ ¬ literal.IsBlockComment ∧
      readHeader .default (ascii "#define A 'x\nint f();\n") =
        ⟨[.macroName ⟨ascii "A", .define⟩], [], none⟩ := by
  intro start literal line rest
  refine ⟨by decide +kernel, by decide +kernel, by decide, by decide, ?_, by decide +kernel⟩
  intro hcomment
  cases hcomment.1

end HeaderBinding
