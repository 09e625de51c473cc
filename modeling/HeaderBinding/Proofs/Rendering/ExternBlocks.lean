import HeaderBinding.Proofs.Rendering.DirectiveComments

/-!
# What a block for a header holds

The target language asks for a statement in every block. A block without declarations gets `pass`,
and an enum, a struct or a prototype brings a statement of its own. Directives bring none: they are
written as comments, and a block of nothing else has comment lines only.
-/

namespace HeaderBinding

/-! ## Comment lines -/

/-- What indents a line: the unit of indentation, a space or a tab. -/
def indentations (unit : Bytes) : List Bytes :=
  [unit, [0x20], [0x09]].filter fun s => !s.isEmpty

/-- A line whose first text behind the indentation is the mark of a comment. -/
def isCommentLine (unit line : Bytes) : Bool :=
  (Bytes.dropEncodings (indentations unit) line).head? == some 0x23

section

variable {unit line s : Bytes}

theorem indentations_of_ne_nil (h : unit ≠ []) : indentations unit = [unit, [0x20], [0x09]] := by
  simp [indentations, h]

theorem isCommentLine_append_unit (unit s : Bytes) :
    isCommentLine unit (unit ++ s) = isCommentLine unit s := by
  cases unit with
  | nil => rfl
  | cons b unit =>
      have hlength : Blank.matchLength (indentations (b :: unit)) (b :: (unit ++ s)) =
          unit.length + 1 := by
        simp [indentations_of_ne_nil, Blank.matchLength]
      rw [isCommentLine, List.cons_append, Bytes.dropEncodings, hlength]
      simp [isCommentLine]

theorem isCommentLine_indentation (f : Format) (depth : Int) (s : Bytes) :
    isCommentLine f.indent (f.indentation depth ++ s) = isCommentLine f.indent s := by
  rw [Format.indentation, Bytes.repeated_eq_flatten]
  induction depth.toNat with
  | zero => rfl
  | succ n ih =>
      rw [List.replicate_succ, List.flatten_cons, List.append_assoc, isCommentLine_append_unit, ih]

theorem isCommentLine_of_notMem (h : 0x23 ∉ line) : isCommentLine unit line = false := by
  rw [isCommentLine, beq_eq_false_iff_ne]
  intro hmark
  exact h ((dropEncodings_suffix _ line).subset (List.mem_of_head? hmark))

/-- The mark of a comment is not taken for indentation, unless the unit starts with it. -/
theorem isCommentLine_mark (h : unit.head? ≠ some 0x23) (s : Bytes) :
    isCommentLine unit (0x23 :: s) = true := by
  have hnone : (indentations unit).find? (·.isPrefixOf (0x23 :: s)) = none := by
    rw [List.find?_eq_none]
    intro e he hstarts
    obtain ⟨he, hne⟩ := List.mem_filter.mp he
    have hhead : e.head? ≠ some 0x23 := by
      rcases List.mem_cons.mp he with rfl | he
      · exact h
      · have hblanks : ∀ e ∈ [[0x20], [0x09]], e.head? ≠ some (0x23 : UInt8) := by decide
        exact hblanks e he
    obtain ⟨b, e, rfl⟩ := List.exists_cons_of_ne_nil (by simpa using hne)
    obtain ⟨rfl, -⟩ := List.cons_prefix_cons.mp (List.isPrefixOf_iff_prefix.mp hstarts)
    exact hhead rfl
  rw [isCommentLine, Bytes.dropEncodings, Blank.matchLength, hnone]
  rfl

end

/-! ## Statements -/

/-- A text one of whose lines is no comment. -/
def HasStatement (unit text : Bytes) : Prop :=
  ∃ line ∈ text.split lineFeed, isCommentLine unit line = false

section

variable {f : Format} {s : Bytes}

/-- A text without the mark of a comment has a statement at any depth. -/
theorem hasStatement_indentation (hindent : lineFeed ∉ f.indent) (hs : 0x23 ∉ s) (depth : Int) :
    HasStatement f.indent (f.indentation depth ++ s) := by
  obtain ⟨piece, others, hpieces, hsplit⟩ :=
    Bytes.exists_split_append (Format.notMem_indentation hindent depth) s
  refine ⟨f.indentation depth ++ piece, ?_, ?_⟩
  · rw [hsplit]
    exact List.mem_cons_self
  · rw [isCommentLine_indentation]
    have hpiece : piece ∈ s.split lineFeed := by simp [hpieces]
    exact isCommentLine_of_notMem fun hmark => hs (Bytes.mem_of_mem_split hpiece hmark)

/-- A text on one line is what its line is. -/
theorem hasStatement_of_line {unit line : Bytes} (hfeed : lineFeed ∉ line)
    (h : isCommentLine unit line = false) : HasStatement unit line :=
  ⟨line, by simp [Bytes.split_of_not_mem hfeed], h⟩

/-- The line of a heading, or the lines below it, are lines of a block. -/
theorem hasStatement_block {depth : Int} {heading : Bytes} {lines : List Bytes}
    (hindent : lineFeed ∉ f.indent)
    (h : 0x23 ∉ Format.lead f.keyword ++ heading ++ ascii ":" ∨ lines = [] ∨
      ∃ line ∈ lines, HasStatement f.indent line) :
    HasStatement f.indent (f.block depth heading lines) := by
  have hpass : HasStatement f.indent (f.indentation (depth + 1) ++ ascii "pass") :=
    hasStatement_indentation hindent (by decide) _
  unfold HasStatement
  rw [Format.block, Bytes.split_join_cons, List.flatMap_cons]
  rcases h with hheading | rfl | ⟨line, hline, piece, hpiece, hcomment⟩
  · obtain ⟨piece, hpiece, hcomment⟩ := hasStatement_indentation hindent hheading depth
    refine ⟨piece, List.mem_append_left _ ?_, hcomment⟩
    simpa using hpiece
  · obtain ⟨piece, hpiece, hcomment⟩ := hpass
    exact ⟨piece, List.mem_append_right _ (by simpa using hpiece), hcomment⟩
  · refine ⟨piece, List.mem_append_right _ ?_, hcomment⟩
    rw [if_neg (by simpa using List.ne_nil_of_mem hline)]
    exact List.mem_flatMap.mpr ⟨line, hline, hpiece⟩

end

theorem Bytes.notMem_join {separator : Bytes} {texts : List Bytes} {b : UInt8}
    (hseparator : b ∉ separator) (h : ∀ text ∈ texts, b ∉ text) :
    b ∉ Bytes.join separator texts := by
  cases texts with
  | nil => simp [Bytes.join, List.intercalate]
  | cons first others =>
      obtain ⟨hfirst, hothers⟩ := List.forall_mem_cons.mp h
      simp only [Bytes.join_cons, List.mem_append, List.mem_flatMap, not_or, not_exists, not_and]
      exact ⟨hfirst, fun text htext => ⟨hseparator, hothers text htext⟩⟩

/-- A byte of a name or a type, or of what stands between them in a signature. -/
def isSignature (b : UInt8) : Bool :=
  isWord b || (ascii " (,)").contains b

theorem notMem_of_isSignature {s : Bytes} {b : UInt8} (h : ∀ c ∈ s, isSignature c = true)
    (hb : isSignature b = false) : b ∉ s := by
  intro hmem
  rw [h b hmem] at hb
  cases hb

theorem isSignature_of_isIdentifier {s : Bytes} (h : s.isIdentifier = true) :
    ∀ b ∈ s, isSignature b = true := by
  intro b hb
  simp [isSignature, (Directive.isWord_of_isIdentifier h).2 b hb]

section

variable {o : ReadOptions} {f : Format}

theorem CType.Valid.isSignature {type : CType} (h : type.Valid o) :
    ∀ b ∈ type.name, isSignature b = true := by
  cases h with
  | scalar s => exact List.all_eq_true.mp (by cases s <;> decide)
  | enum _ htag => exact isSignature_of_isIdentifier htag.isIdentifier

theorem Argument.Valid.isSignature {a : Argument} (h : a.Valid o) :
    ∀ b ∈ a.render f 0, isSignature b = true := by
  have hspace : ∀ b ∈ ascii " ", HeaderBinding.isSignature b = true :=
    List.all_eq_true.mp (by decide)
  rw [Argument.render, Format.indentation_zero, List.nil_append, List.append_assoc]
  exact List.forall_mem_append.mpr ⟨h.type.isSignature, List.forall_mem_append.mpr
    ⟨hspace, isSignature_of_isIdentifier h.name.isIdentifier⟩⟩

theorem Prototype.isSignature_render {p : Prototype} (h : (Declaration.prototype p).Valid o) :
    ∀ b ∈ p.render f 0, isSignature b = true := by
  obtain ⟨hname, ⟨s, htype⟩, hparameters⟩ := h
  have hreturn : p.returnType.Valid o := htype ▸ .scalar s
  have hmarks : ∀ mark ∈ [" ", "(", ")", ", "], (ascii mark).all isSignature = true := by decide
  intro b hb
  by_contra hnot
  rw [Bool.not_eq_true] at hnot
  have hmark {mark : String} (hmark : mark ∈ [" ", "(", ")", ", "]) : b ∉ ascii mark :=
    notMem_of_isSignature (List.all_eq_true.mp (hmarks mark hmark)) hnot
  have hlist : b ∉ Bytes.join (ascii ", ") (p.arguments.map (·.render f 0)) := by
    refine Bytes.notMem_join (hmark (by simp)) (List.forall_mem_map.mpr fun a ha => ?_)
    exact notMem_of_isSignature (hparameters a ha).isSignature hnot
  simp [Prototype.render, hlist, hmark, notMem_of_isSignature hreturn.isSignature hnot,
    notMem_of_isSignature (isSignature_of_isIdentifier hname.isIdentifier) hnot] at hb

/-- Whether a declaration brings a statement. A directive brings none. An enum brings its heading or
an enumerator, unless the keyword may turn the heading into a comment and the enumerators are
comments themselves. -/
def Declaration.BringsStatement (f : Format) : Declaration → Prop
  | .inclusion _ | .macroName _ => False
  | .enum e => 0x23 ∉ f.keyword ∨ e.attributes = [] ∨
      ∃ text ∈ e.attributes, isCommentLine f.indent text = false
  | .struct _ | .prototype _ => True

theorem Enum.hasStatement_render {e : Enum} (hindent : lineFeed ∉ f.indent)
    (hvalid : (Declaration.enum e).Valid o) (h : (Declaration.enum e).BringsStatement f)
    (depth : Int) : HasStatement f.indent (e.render f depth) := by
  obtain ⟨hname, htexts⟩ := hvalid
  refine hasStatement_block hindent ?_
  rcases h with hkeyword | hnone | ⟨text, htext, hcomment⟩
  · have hlead : 0x23 ∉ Format.lead f.keyword := by
      have hspace : 0x23 ∉ ascii " " := by decide
      rw [Format.lead]
      split
      · nofun
      · simp [hkeyword, hspace]
    have hwords : 0x23 ∉ ascii "enum " ∧ 0x23 ∉ ascii ":" := by decide
    have hfree : 0x23 ∉ e.name :=
      notMem_of_isSignature (isSignature_of_isIdentifier hname.isIdentifier) (by decide)
    exact .inl (by simp [hlead, hwords, hfree])
  · exact .inr (.inl (by simp [hnone]))
  · refine .inr (.inr ⟨_, List.mem_map_of_mem htext, hasStatement_of_line ?_ ?_⟩)
    · simp [Format.notMem_indentation hindent, (htexts text htext).noLineFeed]
    · rwa [isCommentLine_indentation]

theorem Struct.hasStatement_render {s : Struct} (hindent : lineFeed ∉ f.indent)
    (hvalid : (Declaration.struct s).Valid o) (depth : Int) :
    HasStatement f.indent (s.render f depth) := by
  obtain ⟨-, hmembers⟩ := hvalid
  refine hasStatement_block hindent (.inr ?_)
  cases hattributes : s.attributes with
  | nil => exact .inl rfl
  | cons a others =>
      refine .inr ⟨a.render f (depth + 1), by simp, ?_⟩
      have ha := (hmembers a (by simp [hattributes])).isSignature (f := f)
      rw [Argument.render_eq]
      exact hasStatement_indentation hindent (notMem_of_isSignature ha (by decide)) (depth + 1)

theorem Prototype.hasStatement_render {p : Prototype} (hindent : lineFeed ∉ f.indent)
    (hvalid : (Declaration.prototype p).Valid o) (depth : Int) :
    HasStatement f.indent (p.render f depth) := by
  rw [Prototype.render_eq]
  exact hasStatement_indentation hindent
    (notMem_of_isSignature (isSignature_render hvalid) (by decide)) depth

theorem Declaration.hasStatement_render {d : Declaration} (hindent : lineFeed ∉ f.indent)
    (hvalid : d.Valid o) (h : d.BringsStatement f) (depth : Int) :
    HasStatement f.indent (d.render f depth) := by
  cases d with
  | inclusion | macroName => exact h.elim
  | enum e => exact e.hasStatement_render hindent hvalid h depth
  | struct s => exact s.hasStatement_render hindent hvalid depth
  | prototype p => exact p.hasStatement_render hindent hvalid depth

end

/-- A directive on one line is a comment line. -/
theorem Declaration.isCommentLine_render {f : Format} {d : Declaration}
    (hdirective : d.isDirective = true) (hname : lineFeed ∉ d.name)
    (hcomment : f.comment = ascii "#") (hindent : lineFeed ∉ f.indent)
    (hmark : f.indent.head? ≠ some 0x23) (depth : Int) :
    ∀ line ∈ (d.render f depth).split lineFeed, isCommentLine f.indent line = true := by
  have hlead : Format.lead f.comment = 0x23 :: ascii " " := by
    rw [hcomment]
    decide
  have hfeed : lineFeed ∉ f.indentation depth ++ (0x23 :: ascii " " ++ d.remark) := by
    have hmarks : lineFeed ∉ 0x23 :: ascii " " := by decide
    have hremark := (lineFeed_mem_remark_iff hdirective).not.mpr hname
    simp only [List.mem_append, hmarks, hremark, Format.notMem_indentation hindent depth, or_self,
      not_false_eq_true]
  rw [render_of_isDirective hdirective, hlead, Bytes.split_of_not_mem hfeed]
  refine List.forall_mem_singleton.mpr ?_
  rw [isCommentLine_indentation, List.cons_append, isCommentLine_mark hmark]

/-! ## Blocks -/

namespace ModuleStyle

/-- The parts of a block below its heading. -/
def content (style : ModuleStyle) (declarations : List Declaration) : List Bytes :=
  if (style.entries declarations).isEmpty then [style.format.indentation 1 ++ ascii "pass"]
  else style.entries declarations

theorem render_of_externFrom_ne_nil {style : ModuleStyle} (h : style.externFrom ≠ [])
    (declarations : List Declaration) :
    style.render declarations =
      Lines.text style.bannerLines ++
        (style.heading ++ lineFeed :: Lines.text (style.content declarations)) := by
  rw [render_eq, body, if_neg (by simpa using h), Lines.text_append, Lines.text_cons]
  rfl

end ModuleStyle

theorem exists_line_of_hasStatement {unit part : Bytes} {parts : List Bytes} (hpart : part ∈ parts)
    (h : HasStatement unit part) :
    ∃ line ∈ Lines.raw (Lines.text parts), isCommentLine unit line = false := by
  obtain ⟨line, hline, hcomment⟩ := h
  rw [Lines.raw_text]
  exact ⟨line, List.mem_flatMap.mpr ⟨part, hpart, hline⟩, hcomment⟩

/-- The block of a header holds a line that is no comment if no declaration is written in it, or if
one that is written brings a statement. It holds comment lines only if directives on one line each
are all that is written. -/
theorem readHeader_externBlock (o : ReadOptions) (source : Bytes) {options : List ModuleOption}
    (hblock : (ModuleStyle.ofOptions options).externFrom ≠ [])
    (hindent : lineFeed ∉ (ModuleStyle.ofOptions options).format.indent) :
    let style := ModuleStyle.ofOptions options
    let kept := style.kept (readHeader o source).declarations
    ∃ block, renderModule options (readHeader o source).declarations =
        Lines.text style.bannerLines ++ (style.heading ++ lineFeed :: block) ∧
      (kept = [] ∨ (∃ d ∈ kept, d.BringsStatement style.format) →
        ∃ line ∈ Lines.raw block, isCommentLine style.format.indent line = false) ∧
      (kept ≠ [] → (∀ d ∈ kept, d.isDirective = true ∧ lineFeed ∉ d.name) →
        style.format.indent.head? ≠ some 0x23 →
        ∀ line ∈ Lines.raw block, isCommentLine style.format.indent line = true) := by
  intro style kept
  have hentries := style.entries_eq (readHeader o source).declarations
  refine ⟨_, style.render_of_externFrom_ne_nil hblock _, ?_, ?_⟩
  · intro h
    rw [ModuleStyle.content, hentries]
    rcases h with hnone | ⟨d, hd, hbrings⟩
    · rw [if_pos (by simpa using hnone)]
      exact exists_line_of_hasStatement List.mem_cons_self
        (hasStatement_indentation hindent (by decide) 1)
    · rw [if_neg (by simpa using List.ne_nil_of_mem hd)]
      have hvalid := readHeader_valid (List.mem_of_mem_filter hd)
      exact exists_line_of_hasStatement (List.mem_map_of_mem hd)
        (d.hasStatement_render hindent hvalid hbrings style.depth)
  · intro hne hdirectives hmark
    rw [ModuleStyle.content, hentries, if_neg (by simpa using hne), Lines.raw_text]
    intro line hline
    obtain ⟨part, hpart, hline⟩ := List.mem_flatMap.mp hline
    obtain ⟨d, hd, rfl⟩ := List.mem_map.mp hpart
    exact Declaration.isCommentLine_render (hdirectives d hd).1 (hdirectives d hd).2
      (ModuleStyle.comment_ofOptions options) hindent hmark style.depth line hline

/-- A keyword that makes a comment of the heading of an enum leaves its enumerator as a
statement. -/
theorem readHeader_externBlock_enumerator :
    let source := ascii "#include <a.h>\nenum E \x7b A \x7d;\n"
    let options := [.keyword (ascii "#"), .externFrom (ascii "x.h")]
    (ModuleStyle.ofOptions options).externFrom ≠ [] ∧
      lineFeed ∉ (ModuleStyle.ofOptions options).format.indent ∧
      ∃ block, renderModule options (readHeader .default source).declarations =
          ascii "cdef extern from \"x.h\":\n" ++ block ∧
        ∃ line ∈ Lines.raw block, isCommentLine (ascii "    ") line = false := by
  intro source options
  have hblock : (ModuleStyle.ofOptions options).externFrom ≠ [] := by decide
  have hindent : lineFeed ∉ (ModuleStyle.ofOptions options).format.indent := by decide
  obtain ⟨block, hrender, hstatement, -⟩ :=
    readHeader_externBlock .default source hblock hindent
  have hkept : (ModuleStyle.ofOptions options).kept (readHeader .default source).declarations =
      [.inclusion ⟨ascii "a.h", .standard⟩, .enum ⟨ascii "E", [ascii "A"]⟩] := by
    decide +kernel
  have hbrings : (Declaration.enum ⟨ascii "E", [ascii "A"]⟩).BringsStatement
      (ModuleStyle.ofOptions options).format :=
    Or.inr (Or.inr ⟨ascii "A", List.mem_cons_self, by decide +kernel⟩)
  exact ⟨hblock, hindent, block, hrender, hstatement (.inr ⟨_, by simp [hkept], hbrings⟩)⟩

/-- A header with a directive only: its block is a comment, and nothing else. -/
theorem readHeader_externBlock_only_comments :
    let declarations := [Declaration.inclusion ⟨ascii "a.h", .custom⟩]
    let block := ascii "    # include \"a.h\"\n"
    (readHeader .default (ascii "#include \"a.h\"\n")).declarations = declarations ∧
      renderModule [.externFrom (ascii "x.h")] declarations =
        ascii "cdef extern from \"x.h\":\n" ++ block ∧
      ∀ line ∈ Lines.raw block, isCommentLine (ascii "    ") line = true := by
  decide +kernel

end HeaderBinding
