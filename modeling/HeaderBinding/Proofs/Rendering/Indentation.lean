import HeaderBinding.Proofs.Rendering.ExternBlocks

/-!
# Indentation

A declaration at a depth is the same declaration at the left margin with the indentation of the
depth before each of its lines. No part of a declaration that was read holds a line feed, so the
lines of its text are the lines it is written in, and a block for a header is its content moved to
the right by one level.
-/

namespace HeaderBinding

/-! ## The lines of a declaration -/

/-- The lines of a block at the left margin: a heading, and the members or `pass` one level deep. -/
def Format.blockLines (f : Format) (heading : Bytes) (members : List Bytes) : List Bytes :=
  (Format.lead f.keyword ++ heading ++ ascii ":") ::
    (if members.isEmpty then [ascii "pass"] else members).map (f.indent ++ ·)

namespace Declaration

/-- The lines of a declaration at the left margin. -/
def lines (f : Format) : Declaration → List Bytes
  | .enum e => f.blockLines (ascii "enum " ++ e.name) e.attributes
  | .struct s => f.blockLines (ascii "struct " ++ s.name) (s.attributes.map (·.render f 0))
  | .prototype p => [p.render f 0]
  | .inclusion i => [i.render f 0]
  | .macroName m => [m.render f 0]

/-- The number of lines of a declaration: a block has a line for each member, and at least one. -/
def lineCount : Declaration → Nat
  | .enum e => 1 + max 1 e.attributes.length
  | .struct s => 1 + max 1 s.attributes.length
  | .prototype _ | .inclusion _ | .macroName _ => 1

/-- A declaration that some session has read, in one of its runs. -/
def IsRead (d : Declaration) : Prop :=
  ∃ o source runs, d ∈ (Session.afterRuns o source runs).declarations

end Declaration

section

variable {f : Format} {d : Declaration}

theorem Format.indentation_natCast (f : Format) (n : Nat) :
    f.indentation n = (List.replicate n f.indent).flatten := by
  rw [Format.indentation, Bytes.repeated_eq_flatten, Int.toNat_natCast]

theorem Format.indentation_succ (f : Format) (n : Nat) :
    f.indentation (n + 1) = f.indentation n ++ f.indent := by
  have hsucc := f.indentation_natCast (n + 1)
  rw [List.replicate_succ', List.flatten_append, List.flatten_singleton,
    ← f.indentation_natCast] at hsucc
  exact hsucc

theorem Format.indentation_one (f : Format) : f.indentation 1 = f.indent := by
  simpa using f.indentation_natCast 1

theorem Format.length_blockLines (f : Format) (heading : Bytes) (members : List Bytes) :
    (f.blockLines heading members).length = 1 + max 1 members.length := by
  cases members with
  | nil => rfl
  | cons first others =>
      simp only [Format.blockLines, List.isEmpty_cons, Bool.false_eq_true, ↓reduceIte,
        List.length_cons, List.length_map]
      omega

/-- A block is written as its lines at the left margin, each behind the indentation. -/
theorem Format.block_eq_join (f : Format) (n : Nat) (heading : Bytes) (members : List Bytes) :
    f.block n heading (members.map (f.indentation (n + 1) ++ ·)) =
      Bytes.join [lineFeed] ((f.blockLines heading members).map (f.indentation n ++ ·)) := by
  rw [Format.block, Format.blockLines, Format.indentation_succ]
  cases members with
  | nil => simp
  | cons first others => simp [Function.comp_def]

namespace Declaration

theorem lines_ne_nil (f : Format) (d : Declaration) : d.lines f ≠ [] := by
  cases d <;> exact List.cons_ne_nil _ _

theorem length_lines (f : Format) (d : Declaration) : (d.lines f).length = d.lineCount := by
  cases d with
  | enum e => exact f.length_blockLines _ _
  | struct s =>
      rw [lines, f.length_blockLines, List.length_map]
      rfl
  | prototype | inclusion | macroName => rfl

/-- A declaration is written as its lines at the left margin, each behind the indentation. -/
theorem render_eq_join (f : Format) (n : Nat) (d : Declaration) :
    d.render f n = Bytes.join [lineFeed] ((d.lines f).map (f.indentation n ++ ·)) := by
  have hsingle (line : Bytes) : Bytes.join [lineFeed] [line] = line := by
    simp [Bytes.join, List.intercalate]
  cases d with
  | enum e => exact f.block_eq_join n _ _
  | struct s =>
      have hmembers : s.attributes.map (·.render f (n + 1)) =
          (s.attributes.map (·.render f 0)).map (f.indentation (n + 1) ++ ·) := by
        rw [List.map_map]
        exact List.map_congr_left fun a _ => a.render_eq f (n + 1)
      rw [render, Struct.render, hmembers]
      exact f.block_eq_join n _ _
  | prototype p =>
      rw [lines, List.map_singleton, hsingle]
      exact p.render_eq f n
  | inclusion i => simp [lines, hsingle, render, Include.render]
  | macroName m => simp [lines, hsingle, render, Macro.render]

/-! ## No line breaks within a line -/

theorem lineFeed_notMem_blockLines {heading : Bytes} {members : List Bytes}
    (hkeyword : lineFeed ∉ f.keyword) (hindent : lineFeed ∉ f.indent)
    (hheading : lineFeed ∉ heading) (hmembers : ∀ member ∈ members, lineFeed ∉ member) :
    ∀ line ∈ f.blockLines heading members, lineFeed ∉ line := by
  have hmarks : lineFeed ∉ ascii " " ∧ lineFeed ∉ ascii ":" ∧ lineFeed ∉ ascii "pass" := by decide
  have hlead : lineFeed ∉ Format.lead f.keyword := by
    rw [Format.lead]
    split
    · exact List.not_mem_nil
    · simp [hkeyword, hmarks]
  refine List.forall_mem_cons.mpr ⟨by simp [hlead, hheading, hmarks], ?_⟩
  refine List.forall_mem_map.mpr fun member hmember => ?_
  split at hmember
  · rw [List.mem_singleton.mp hmember]
    simp [hindent, hmarks]
  · simp [hindent, hmembers member hmember]

theorem lineFeed_notMem_of_isIdentifier {s : Bytes} (h : s.isIdentifier = true) : lineFeed ∉ s :=
  notMem_of_isSignature (isSignature_of_isIdentifier h) (by decide)

/-- Names and types are made of word bytes and spaces, and the texts of enumerators were read
without their line breaks. -/
theorem lineFeed_notMem_lines {o : ReadOptions} (hvalid : d.Valid o)
    (hdirective : d.isDirective = false) (hkeyword : lineFeed ∉ f.keyword)
    (hindent : lineFeed ∉ f.indent) : ∀ line ∈ d.lines f, lineFeed ∉ line := by
  have hwords : lineFeed ∉ ascii "enum " ∧ lineFeed ∉ ascii "struct " := by decide
  cases d with
  | inclusion | macroName => cases hdirective
  | enum e =>
      obtain ⟨hname, htexts⟩ := hvalid
      have hfree := lineFeed_notMem_of_isIdentifier hname.isIdentifier
      exact lineFeed_notMem_blockLines hkeyword hindent (by simp [hwords, hfree])
        fun text htext => (htexts text htext).noLineFeed
  | struct s =>
      obtain ⟨hname, hmembers⟩ := hvalid
      have hfree := lineFeed_notMem_of_isIdentifier hname.isIdentifier
      refine lineFeed_notMem_blockLines hkeyword hindent (by simp [hwords, hfree]) ?_
      refine List.forall_mem_map.mpr fun a ha => ?_
      exact notMem_of_isSignature (hmembers a ha).isSignature (by decide)
  | prototype p =>
      refine List.forall_mem_singleton.mpr ?_
      exact notMem_of_isSignature (Prototype.isSignature_render hvalid) (by decide)

/-- The lines of the text are the lines it is written in. -/
theorem split_render (h : ∀ line ∈ d.lines f, lineFeed ∉ line) (hindent : lineFeed ∉ f.indent)
    (n : Nat) : (d.render f n).split lineFeed = (d.lines f).map (f.indentation n ++ ·) := by
  rw [render_eq_join, Bytes.split_join (by simpa using d.lines_ne_nil f)]
  refine List.forall_mem_map.mpr fun line hline => ?_
  simp [h line hline, Format.notMem_indentation hindent]

theorem split_render_zero (h : ∀ line ∈ d.lines f, lineFeed ∉ line)
    (hindent : lineFeed ∉ f.indent) : (d.render f 0).split lineFeed = d.lines f := by
  simpa using split_render h hindent 0

/-- The lines of texts one after another are the lines they are written in. -/
theorem flatMap_split_render {declarations : List Declaration}
    (h : ∀ d ∈ declarations, ∀ line ∈ d.lines f, lineFeed ∉ line) (hindent : lineFeed ∉ f.indent)
    (n : Nat) :
    (declarations.map (·.render f n)).flatMap (Bytes.split lineFeed) =
      (declarations.flatMap (·.lines f)).map (f.indentation n ++ ·) := by
  rw [List.flatMap_map, List.map_flatMap]
  exact List.flatMap_congr fun d hd => split_render (h d hd) hindent n

end Declaration

end

/-! ## Declarations of a session -/

namespace Session

theorem afterRuns_declared {o : ReadOptions} {source : Bytes} {n : Nat} {d : Declaration}
    (h : d ∈ (afterRuns o source n).declarations) :
    ∃ t tokens rest, t :: tokens <:+ tokenize source ∧
      readConstruct o t tokens = .done (some d) rest := by
  induction n with
  | zero => simp [afterRuns, ofSource, ofTokens] at h
  | succ n ih =>
      rw [afterRuns_succ] at h
      rcases run_declared _ h with hbefore | ⟨t, tokens, rest, hsuffix, hread⟩
      · exact ih hbefore
      · exact ⟨t, tokens, rest, hsuffix.trans (afterRuns_rest_suffix o source n), hread⟩

end Session

namespace Declaration

theorem IsRead.valid {d : Declaration} (h : d.IsRead) : ∃ o, d.Valid o := by
  obtain ⟨o, source, n, hd⟩ := h
  obtain ⟨t, tokens, rest, hsuffix, hread⟩ := Session.afterRuns_declared hd
  exact ⟨o, readConstruct_valid hsuffix hread⟩

theorem IsRead.lineFeed_notMem_lines {d : Declaration} {f : Format} (h : d.IsRead)
    (hdirective : d.isDirective = false) (hkeyword : lineFeed ∉ f.keyword)
    (hindent : lineFeed ∉ f.indent) : ∀ line ∈ d.lines f, lineFeed ∉ line := by
  obtain ⟨o, hvalid⟩ := h.valid
  exact Declaration.lineFeed_notMem_lines hvalid hdirective hkeyword hindent

theorem isRead_of_mem_readHeader {o : ReadOptions} {source : Bytes} {d : Declaration}
    (h : d ∈ (readHeader o source).declarations) : d.IsRead :=
  ⟨o, source, 1, Array.mem_toList_iff.mp h⟩

end Declaration

/-! ## Modules -/

/-- Cutting a text into lines and writing the lines ends the text with a line feed. -/
theorem Lines.text_split (s : Bytes) : Lines.text (s.split lineFeed) = s ++ [lineFeed] := by
  induction s with
  | nil => rfl
  | cons b s ih =>
      rw [Bytes.split_cons]
      split
      next hfeed => rw [Lines.text_cons, ih, List.nil_append, hfeed, List.cons_append]
      next =>
        obtain ⟨piece, others, hs⟩ := List.exists_cons_of_ne_nil (Bytes.split_ne_nil lineFeed s)
        rw [hs, Lines.text_cons] at ih
        rw [hs, List.cons_append, ← ih]
        exact Lines.text_cons (b :: piece) others

/-- Texts that were written as parts are written as the lines of the parts. -/
theorem Lines.text_flatMap_split (parts : List Bytes) :
    Lines.text (parts.flatMap (Bytes.split lineFeed)) = Lines.text parts := by
  induction parts with
  | nil => rfl
  | cons part parts ih =>
      rw [List.flatMap_cons, Lines.text_append, Lines.text_split, ih, Lines.text_cons,
        List.append_assoc, List.singleton_append]

/-- Lines without line breaks come out as they were written. -/
theorem Lines.raw_text_of_notMem {lines : List Bytes} (h : ∀ line ∈ lines, lineFeed ∉ line) :
    Lines.raw (Lines.text lines) = lines := by
  rw [Lines.raw_text]
  induction lines with
  | nil => rfl
  | cons line lines ih =>
      obtain ⟨hline, hlines⟩ := List.forall_mem_cons.mp h
      rw [List.flatMap_cons, ih hlines, Bytes.split_of_not_mem hline, List.singleton_append]

namespace ModuleStyle

section

variable {declarations : List Declaration}

theorem kept_of_isDirective_eq_false (style : ModuleStyle)
    (h : ∀ d ∈ declarations, d.isDirective = false) : style.kept declarations = declarations :=
  List.filter_eq_self.mpr fun d hd => by simp [h d hd]

/-- In a block for a header no keyword is written, unless an option gives one. -/
theorem keyword_ofOptions {options : List ModuleOption}
    (hblock : (ofOptions options).externFrom ≠ [])
    (hgiven : (ofOptions options).keywordGiven = false) :
    (ofOptions options).format.keyword = [] := by
  unfold ofOptions settled at hblock hgiven ⊢
  split at hblock
  next h => rw [if_pos h]
  next h =>
    rw [if_neg h] at hgiven
    exact absurd (by simpa [hgiven] using h) hblock

/-- What stands before each line of a declaration. -/
def lineIndent (style : ModuleStyle) : Bytes :=
  if style.externFrom.isEmpty then [] else style.format.indent

theorem indentation_depth (style : ModuleStyle) :
    style.format.indentation style.depth = style.lineIndent := by
  rw [depth, lineIndent]
  split
  · exact style.format.indentation_zero
  · exact style.format.indentation_one

/-- A module without directives is written as the lines of its declarations, below the line that
opens the block. -/
theorem render_eq_lines (style : ModuleStyle) (hne : declarations ≠ [])
    (hdirectives : ∀ d ∈ declarations, d.isDirective = false)
    (hlines : ∀ d ∈ declarations, ∀ line ∈ d.lines style.format, lineFeed ∉ line)
    (hindent : lineFeed ∉ style.format.indent) :
    style.render declarations = Lines.text (style.preamble ++
      (declarations.flatMap (·.lines style.format)).map (style.lineIndent ++ ·)) := by
  have hentries : style.entries declarations =
      declarations.map (·.render style.format style.depth) := by
    rw [entries_eq, style.kept_of_isDirective_eq_false hdirectives]
  have hsome : style.entries declarations ≠ [] := by simpa [hentries] using hne
  have hdepth : style.depth = style.depth.toNat := by
    rw [depth]
    split <;> rfl
  rw [render_of_entries_ne_nil hsome, Lines.text_append, Lines.text_append,
    ← Lines.text_flatMap_split (style.entries declarations), hentries, hdepth,
    Declaration.flatMap_split_render hlines hindent, ← hdepth, indentation_depth]

end

end ModuleStyle

/-- An enum, a struct or a prototype that was read is written at a depth as at the left margin, with
the indentation before each line. A block for a header is its heading, and below it the lines of the
module without the block, one level deep. -/
theorem render_indents_lines :
    (∀ (d : Declaration) (f : Format) (n : Nat), d.IsRead → d.isDirective = false →
      lineFeed ∉ f.keyword → lineFeed ∉ f.indent →
      (d.render f n).split lineFeed =
          ((d.render f 0).split lineFeed).map ((List.replicate n f.indent).flatten ++ ·) ∧
        ((d.render f n).split lineFeed).length = d.lineCount) ∧
    ∀ (declarations : List Declaration) (options plain : List ModuleOption),
      let style := ModuleStyle.ofOptions options
      let margin := ModuleStyle.ofOptions plain
      declarations ≠ [] → (∀ d ∈ declarations, d.IsRead ∧ d.isDirective = false) →
      style.externFrom ≠ [] → style.keywordGiven = false → style.banner = [] →
      lineFeed ∉ style.format.indent →
      margin.externFrom = [] → margin.format.keyword = [] → margin.banner = [] →
      margin.format.indent = style.format.indent →
      renderModule options declarations = Lines.text
        (style.heading ::
          (Lines.raw (renderModule plain declarations)).map (style.format.indent ++ ·)) := by
  refine ⟨?_, ?_⟩
  · intro d f n hread hdirective hkeyword hindent
    have hlines := hread.lineFeed_notMem_lines hdirective hkeyword hindent
    rw [Declaration.split_render hlines hindent n, Declaration.split_render_zero hlines hindent,
      List.length_map, f.indentation_natCast]
    exact ⟨rfl, d.length_lines f⟩
  · intro declarations options plain style margin hne hread hblock hgiven hbanner hindent
      hopen hmarginWord hmarginBanner hunit
    have hword : style.format.keyword = [] := ModuleStyle.keyword_ofOptions hblock hgiven
    have hformat : margin.format = style.format := by
      rw [Format.mk.injEq]
      have hcomment := ModuleStyle.comment_ofOptions
      exact ⟨hmarginWord.trans hword.symm, hunit, (hcomment plain).trans (hcomment options).symm⟩
    have hdirectives (d : Declaration) (hd : d ∈ declarations) := (hread d hd).2
    have hlines (d : Declaration) (hd : d ∈ declarations) :
        ∀ line ∈ d.lines style.format, lineFeed ∉ line :=
      (hread d hd).1.lineFeed_notMem_lines (hread d hd).2 (by simp [hword]) hindent
    have hall : ∀ line ∈ declarations.flatMap (·.lines style.format), lineFeed ∉ line := by
      intro line hline
      obtain ⟨d, hd, hline⟩ := List.mem_flatMap.mp hline
      exact hlines d hd line hline
    have hplain : renderModule plain declarations =
        Lines.text (declarations.flatMap (·.lines style.format)) := by
      rw [renderModule, margin.render_eq_lines hne hdirectives (hformat ▸ hlines)
        (hformat ▸ hindent), hformat]
      simp [ModuleStyle.preamble, ModuleStyle.bannerLines, ModuleStyle.lineIndent, hmarginBanner,
        hopen]
    rw [hplain, Lines.raw_text_of_notMem hall, renderModule,
      style.render_eq_lines hne hdirectives hlines hindent]
    simp [ModuleStyle.preamble, ModuleStyle.bannerLines, ModuleStyle.lineIndent, hbanner, hblock]

/-- An enum without enumerators and a prototype, in a block and without one. -/
theorem render_indents_lines_pass :
    let source := ascii "enum E \x7b\x7d;\nint f(int a);\n"
    let declarations := (readHeader .default source).declarations
    let pass := [ascii "\tenum E:", ascii "\t\tpass", ascii "\tint f(int a)"]
    declarations.length = 2 ∧
      (∀ d ∈ declarations, (d.render ⟨[], [0x09], []⟩ 2).split lineFeed =
        ((d.render ⟨[], [0x09], []⟩ 0).split lineFeed).map ([0x09, 0x09] ++ ·)) ∧
      renderModule [.externFrom (ascii "x.h"), .indent [0x09]] declarations =
        Lines.text (ascii "cdef extern from \"x.h\":" :: pass) := by
  intro source declarations pass
  have hlength : declarations.length = 2 := by decide +kernel
  have hread : ∀ d ∈ declarations, d.IsRead ∧ d.isDirective = false := fun d hd =>
    ⟨Declaration.isRead_of_mem_readHeader hd, by revert d; decide +kernel⟩
  refine ⟨hlength, fun d hd => ?_, ?_⟩
  · exact (render_indents_lines.1 d ⟨[], [0x09], []⟩ 2 (hread d hd).1 (hread d hd).2
      (by decide) (by decide)).1
  · have hblock := render_indents_lines.2 declarations
      [.externFrom (ascii "x.h"), .indent [0x09]] [.keyword [], .indent [0x09]]
      (by simp [← List.length_pos_iff, hlength]) hread (by decide) (by decide) (by decide)
      (by decide) (by decide) (by decide) (by decide) (by decide)
    rw [hblock]
    decide +kernel

end HeaderBinding
