import HeaderBinding.Proofs.Reading.DirectiveForms
import HeaderBinding.Proofs.Reading.DirectiveLines
import HeaderBinding.Proofs.Rendering.Lines

/-!
# Directives as comments

A directive is written as a comment with its name in it, and the name is written as it stands. The
comment has one line exactly if the name has no line feed. The name of a macro has none. The name of
an include is taken from the text of its directive, which may hold line feeds in block comments and
in literals that are not closed.
-/

namespace HeaderBinding

namespace Declaration

variable {d : Declaration}

/-- What the comment of a directive says behind its mark. -/
def remark : Declaration → Bytes
  | .inclusion i => ascii "include " ++ i.kind.opening :: (i.name ++ [i.kind.closing])
  | .macroName m => m.kind.directive ++ ascii " " ++ m.name
  | .enum _ | .struct _ | .prototype _ => []

theorem render_of_isDirective (h : d.isDirective = true) (f : Format) (depth : Int) :
    d.render f depth = f.indentation depth ++ (Format.lead f.comment ++ d.remark) := by
  cases d with
  | inclusion i =>
      obtain ⟨name, kind⟩ := i
      cases kind <;> simp [render, Include.render, remark, IncludeKind.opening,
        IncludeKind.closing, ascii]
  | macroName m => simp [render, Macro.render, remark]
  | enum | struct | prototype => cases h

theorem lineFeed_mem_remark_iff (h : d.isDirective = true) :
    lineFeed ∈ d.remark ↔ lineFeed ∈ d.name := by
  cases d with
  | inclusion i =>
      obtain ⟨name, kind⟩ := i
      have hword : lineFeed ∉ ascii "include " := by decide
      have hmarks : lineFeed ≠ kind.opening ∧ lineFeed ≠ kind.closing := by cases kind <;> decide
      simp [remark, Declaration.name, hword, hmarks]
  | macroName m =>
      obtain ⟨name, kind⟩ := m
      have hword : lineFeed ∉ kind.directive ++ ascii " " := by cases kind <;> decide
      rw [remark, List.mem_append]
      exact or_iff_right hword
  | enum | struct | prototype => cases h

/-- A comment breaks where the name breaks. -/
theorem lineFeed_mem_render_iff (h : d.isDirective = true) (depth : Int) :
    lineFeed ∈ d.render .cython depth ↔ lineFeed ∈ d.name := by
  have hlead : lineFeed ∉ Format.lead Format.cython.comment := by decide
  have hindent : lineFeed ∉ Format.cython.indentation depth :=
    Format.notMem_indentation (by decide) depth
  rw [render_of_isDirective h, List.mem_append, List.mem_append, lineFeed_mem_remark_iff h]
  simp [hlead, hindent]

end Declaration

/-! ## Where the name comes from -/

theorem Grammar.Item.isDirective_eq_false {o : ReadOptions} {front : List Token} {d : Declaration}
    (h : Grammar.Item o front (some d)) : d.isDirective = false := by
  cases h <;> rfl

/-- A directive among the declarations is what the text of a directive line spells. -/
theorem readHeader_directive {o : ReadOptions} {source : Bytes} {d : Declaration}
    (h : d ∈ (readHeader o source).declarations) (hdirective : d.isDirective = true) :
    ∃ start line rest, start :: (line ++ rest) <:+ tokenize source ∧
      readConstruct o start (line ++ rest) = .done (some d) rest ∧
      Grammar.DirectiveLine (start :: line) (some d) := by
  obtain ⟨start, tokens, rest, hsuffix, hread⟩ := readHeader_declared h
  by_cases hstart : start.kind.isDirective = true
  · have hline := hread
    rw [readConstruct, if_pos hstart] at hline
    obtain ⟨line, rfl, hline, -⟩ := (Grammar.readDirective_eq_done_iff hstart).mp hline
    exact ⟨start, line, rest, hsuffix, hread, hline⟩
  · obtain ⟨front, -, hitem⟩ := Grammar.readConstruct_item (by simpa using hstart) hread
    rw [hitem.isDirective_eq_false] at hdirective
    cases hdirective

/-- The name of a directive is part of the text of its line. -/
theorem Grammar.DirectiveLine.name_isInfix {front : List Token} {d : Declaration}
    (h : Grammar.DirectiveLine front (some d)) : d.name <:+: Token.concat front := by
  cases h with
  | @mk t line _ _ _ hstatement =>
      exact (parseStatement_eq_ok_iff.mp hstatement).name_isInfix.trans (trim_isInfix _)

/-- A name with a line feed comes from a line with a block comment over several lines, or with a
literal that is not closed. -/
theorem Grammar.DirectiveLine.exists_lineFeed {source : Bytes} {start : Token}
    {line : List Token} {d : Declaration} (h : Grammar.DirectiveLine (start :: line) (some d))
    (hsource : ∀ t ∈ start :: line, t ∈ tokenize source) (hfeed : lineFeed ∈ d.name) :
    ∃ u ∈ line, lineFeed ∈ u.text ∧ (u.IsBlockComment ∨ u.BreaksLiteral) := by
  have hconcat := h.name_isInfix.subset hfeed
  rw [Token.concat, List.mem_flatten] at hconcat
  obtain ⟨text, htext, hfeed⟩ := hconcat
  obtain ⟨u, hu, rfl⟩ := List.mem_map.mp htext
  cases h with
  | mk hstart hline =>
      rcases List.mem_cons.mp hu with rfl | hmem
      · exact absurd hfeed (lineFeed_not_mem_directive (hsource u hu) hstart)
      · have hcases := tokenize_lineFeed (hsource u hu) hfeed
        exact ⟨u, hmem, hfeed, hcases.resolve_left (hline u hmem).1⟩

/-! ## Directives in a module -/

section

variable {options : List ModuleOption} {d : Declaration}

/-- A directive that is kept is one part of the module, behind the parts before it. -/
theorem renderModule_directive (hdirective : d.isDirective = true)
    (hkept : (ModuleStyle.ofOptions options).omitDirectives = false)
    (before after : List Declaration) :
    let style := ModuleStyle.ofOptions options
    renderModule options (before ++ d :: after) =
      Lines.text (style.preamble ++ style.entries before) ++
        ((style.format.indentation style.depth ++ (ascii "# " ++ d.remark)) ++
          lineFeed :: Lines.text (style.entries after)) := by
  intro style
  have hentries : style.entries (before ++ d :: after) =
      style.entries before ++ d.render style.format style.depth :: style.entries after := by
    simp [ModuleStyle.entries_eq, ModuleStyle.kept, hkept, style]
  have hlead : Format.lead style.format.comment = ascii "# " := by
    rw [ModuleStyle.comment_ofOptions]
    decide
  rw [renderModule, ModuleStyle.render_of_entries_ne_nil (by simp [hentries, style]), hentries,
    ← List.append_assoc, Lines.text_append, Lines.text_cons,
    Declaration.render_of_isDirective hdirective, hlead]

theorem renderModule_omitted (hdirective : d.isDirective = true)
    (homitted : (ModuleStyle.ofOptions options).omitDirectives = true)
    (before after : List Declaration) :
    renderModule options (before ++ d :: after) = renderModule options (before ++ after) := by
  have hkept : (ModuleStyle.ofOptions options).kept (before ++ d :: after) =
      (ModuleStyle.ofOptions options).kept (before ++ after) := by
    simp [ModuleStyle.kept, homitted, hdirective]
  rw [renderModule, renderModule, ModuleStyle.render_eq, ModuleStyle.render_eq,
    ModuleStyle.entries_eq, ModuleStyle.entries_eq, hkept]

end

/-- A directive is written as one comment line exactly if its name has no line feed. The name has
one only if it is the name of an include whose line holds a block comment or an unclosed literal
with a line feed. Any other directive is left out of a module, or is one line of it whose text
stands behind the mark of a comment. -/
theorem readHeader_directive_comment {o : ReadOptions} {source : Bytes} {d : Declaration}
    (hd : d ∈ (readHeader o source).declarations) (hdirective : d.isDirective = true) :
    (∀ depth, lineFeed ∈ d.render .cython depth ↔ lineFeed ∈ d.name) ∧
      (lineFeed ∈ d.name → (∃ i, d = .inclusion i) ∧
        ∃ start line rest, start :: (line ++ rest) <:+ tokenize source ∧
          readConstruct o start (line ++ rest) = .done (some d) rest ∧
          ∃ u ∈ line, lineFeed ∈ u.text ∧ (u.IsBlockComment ∨ u.BreaksLiteral)) ∧
      (lineFeed ∉ d.name → lineFeed ∉ d.remark ∧ ∀ options before after,
        let style := ModuleStyle.ofOptions options
        let front := Lines.text (style.preamble ++ style.entries before)
        (style.omitDirectives = true →
          renderModule options (before ++ d :: after) = renderModule options (before ++ after)) ∧
        (style.omitDirectives = false →
          renderModule options (before ++ d :: after) =
            front ++ ((style.format.indentation style.depth ++ (ascii "# " ++ d.remark)) ++
              lineFeed :: Lines.text (style.entries after)) ∧
          ∀ b ∈ front.getLast?, b = lineFeed)) := by
  refine ⟨Declaration.lineFeed_mem_render_iff hdirective, ?_, ?_⟩
  · intro hfeed
    refine ⟨?_, ?_⟩
    · have hvalid := readHeader_valid hd
      cases d with
      | inclusion i => exact ⟨i, rfl⟩
      | macroName m =>
          have hword := (Directive.isWord_of_isIdentifier hvalid).2 lineFeed hfeed
          exact absurd hword (by decide)
      | enum | struct | prototype => cases hdirective
    · obtain ⟨start, line, rest, hsuffix, hread, hline⟩ := readHeader_directive hd hdirective
      have hsource : ∀ t ∈ start :: line, t ∈ tokenize source :=
        fun t ht => hsuffix.subset (List.mem_append_left rest ht)
      exact ⟨start, line, rest, hsuffix, hread, hline.exists_lineFeed hsource hfeed⟩
  · intro hname
    refine ⟨(Declaration.lineFeed_mem_remark_iff hdirective).not.mpr hname, ?_⟩
    intro options before after style front
    refine ⟨fun homitted => ?_, fun hkept => ⟨?_, ?_⟩⟩
    · exact renderModule_omitted hdirective homitted before after
    · exact renderModule_directive hdirective hkept before after
    · exact Lines.getLast?_text _

/-- A macro whose line runs over a line feed, as the literal in it is not closed, is still written
as one line. -/
theorem readHeader_directive_comment_openLiteral :
    let source := ascii "#define A 'x\nint f();\n"
    let d := Declaration.macroName ⟨ascii "A", .define⟩
    d ∈ (readHeader .default source).declarations ∧ d.isDirective = true ∧
      ∀ depth, lineFeed ∉ d.render .cython depth := by
  intro source d
  have hd : d ∈ (readHeader .default source).declarations := by decide +kernel
  refine ⟨hd, rfl, fun depth => ?_⟩
  rw [(readHeader_directive_comment hd rfl).1 depth]
  decide

/-- A block comment with a line feed in the name of an include: the second line of what is written
is no comment. -/
theorem readHeader_include_breaks_comment :
    let d := Declaration.inclusion ⟨ascii "a/*\n*/b", .standard⟩
    (readHeader .default (ascii "#include <a/*\n*/b>\n")).declarations = [d] ∧
      lineFeed ∈ d.render .cython 0 ∧
      Lines.raw (renderModule [] [d]) = [ascii "# include <a/*", ascii "*/b>"] := by
  decide +kernel

end HeaderBinding
