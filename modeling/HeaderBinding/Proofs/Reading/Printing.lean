import HeaderBinding.Proofs.Reading.Acceptance
import HeaderBinding.Proofs.Reading.EnumeratorTexts
import HeaderBinding.Proofs.Reading.WellBuilt

/-!
# Declarations in print

An enum, a struct or a prototype that a reader returned can be written as a header again. The names
are words and the marks stand for themselves, so the text is cut into the tokens that were meant;
the enumerators are cut as they were, give or take their layout. Reading the text returns the
declaration alone.
-/

namespace HeaderBinding

open Lexicon

/-! ## The text of a declaration -/

/-- A type as a header spells it. -/
def CType.inC : CType → Bytes
  | .scalar type => type.name
  | .enum tag => ascii "enum " ++ tag

def Argument.inC (a : Argument) : Bytes :=
  a.type.inC ++ ascii " " ++ a.name

def Enum.inC (e : Enum) : Bytes :=
  ascii "enum " ++ e.name ++ ascii " \x7b " ++ Bytes.join (ascii ", ") e.attributes ++
    ascii " \x7d;"

def Struct.inC (s : Struct) : Bytes :=
  ascii "struct " ++ s.name ++ ascii " \x7b" ++
    s.attributes.flatMap (fun a => ascii " " ++ a.inC ++ ascii ";") ++ ascii " \x7d;"

def Prototype.inC (p : Prototype) : Bytes :=
  p.returnType.inC ++ ascii " " ++ p.name ++ ascii "(" ++
    Bytes.join (ascii ", ") (p.arguments.map Argument.inC) ++ ascii ");"

/-- An enum, a struct or a prototype as a header declares it. -/
def Declaration.inC? : Declaration → Option Bytes
  | .enum e => some e.inC
  | .struct s => some s.inC
  | .prototype p => some p.inC
  | .inclusion _ | .macroName _ => none

/-! ## Words with spaces -/

/-- A keyword by its kind and its text. -/
def Token.keyword (k : TokenKind × String) : Token := .spelled k.1 (ascii k.2)

def Token.name (s : Bytes) : Token := .spelled .identifier s

/-- The tokens, each behind a space. -/
def Token.behindSpaces (words : List Token) : List Token :=
  words.flatMap fun t => [.space, t]

/-- The tokens with a space between neighbours. -/
def Token.inPrint : List Token → List Token
  | [] => []
  | t :: words => t :: behindSpaces words

theorem isWord_keyword : ∀ k ∈ keywords, (Token.keyword k).IsWord := by
  have hkeywords : ∀ k ∈ keywords,
      (ascii k.2).isIdentifier = true ∧ k.1.isLayoutOrNewline = false := by
    decide
  intro k hk
  exact ⟨firstKind_keyword k hk, (hkeywords k hk).1, (hkeywords k hk).2⟩

theorem Bytes.IsName.isWord {s : Bytes} (h : s.IsName) : (Token.name s).IsWord :=
  ⟨h, h.isIdentifier, rfl⟩

section

variable {words tokens : List Token} {t : Token}

theorem filter_behindSpaces {p : Token → Bool} (hspace : p .space = false)
    (hwords : ∀ t ∈ words, p t = true) : (Token.behindSpaces words).filter p = words := by
  induction words with
  | nil => rfl
  | cons t words ih =>
      obtain ⟨ht, hothers⟩ := List.forall_mem_cons.mp hwords
      rw [Token.behindSpaces, List.flatMap_cons, List.filter_append]
      simp only [List.filter_cons, hspace, ht, List.filter_nil]
      rw [← Token.behindSpaces, ih hothers]
      rfl

theorem solid_behindSpaces (h : ∀ t ∈ words, t.IsWord) :
    solid (Token.behindSpaces words) = words := by
  refine filter_behindSpaces rfl fun t ht => ?_
  rw [(h t ht).isSolid]
  rfl

theorem significant_behindSpaces (h : ∀ t ∈ words, t.IsWord) :
    significant (Token.behindSpaces words) = words := by
  refine filter_behindSpaces rfl fun t ht => ?_
  have hsolid := (h t ht).isSolid
  rw [TokenKind.isLayoutOrNewline, Bool.or_eq_false_iff] at hsolid
  rw [hsolid.1]
  rfl

theorem solid_inPrint (h : ∀ t ∈ words, t.IsWord) : solid (Token.inPrint words) = words := by
  cases words with
  | nil => rfl
  | cons t words =>
      obtain ⟨ht, hwords⟩ := List.forall_mem_cons.mp h
      rw [Token.inPrint, solid_cons_of_solid ht.isSolid, solid_behindSpaces hwords]

/-- By induction on the words: what follows each of them is a space or the tokens behind. -/
theorem WordEnd.behindSpaces (h : WordEnd tokens) (hwords : ∀ t ∈ words, t.IsWord) :
    WordEnd (Token.behindSpaces words ++ tokens) := by
  induction words with
  | nil => exact h
  | cons t words ih =>
      obtain ⟨ht, hothers⟩ := List.forall_mem_cons.mp hwords
      exact (ih hothers).space_word ht

theorem WordEnd.inPrint (h : WordEnd tokens) (hwords : ∀ t ∈ words, t.IsWord) :
    Lexical (Token.inPrint words ++ tokens) := by
  cases words with
  | nil => exact h.lexical
  | cons t words =>
      obtain ⟨ht, hothers⟩ := List.forall_mem_cons.mp hwords
      exact (h.behindSpaces hothers).cons_word ht

end

/-! ## Members and parameters -/

/-- The keywords of a scalar type. -/
def Scalar.words : Scalar → List Token
  | .int => [.keyword (.intKeyword, "int")]
  | .float => [.keyword (.floatKeyword, "float")]
  | .long => [.keyword (.longKeyword, "long")]
  | .longLong => [.keyword (.longKeyword, "long"), .keyword (.longKeyword, "long")]
  | .void => [.keyword (.voidKeyword, "void")]
  | .char => [.keyword (.charKeyword, "char")]

def CType.words : CType → List Token
  | .scalar type => type.words
  | .enum tag => [.keyword (.enumKeyword, "enum"), .name tag]

def Argument.words (a : Argument) : List Token :=
  a.type.words ++ [.name a.name]

/-- The options allow a member or a parameter of an enum type. -/
def Argument.Allowed (o : ReadOptions) (a : Argument) : Prop :=
  a.type.isEnum = true → o.noInlineEnum = false

/-- What a member or a parameter takes from a source. -/
structure Argument.Printable (o : ReadOptions) (a : Argument) : Prop where
  named : a.Named Bytes.IsName
  allowed : a.Allowed o

namespace Grammar

variable {o : ReadOptions} {tokens : List Token} {arguments : List Argument}

theorem ArgumentForm.allowed {a : Argument} (h : ArgumentForm o tokens a) : a.Allowed o := by
  cases h with
  | scalar => exact nofun
  | enum ho => exact fun _ => ho

theorem Members.allowed (h : Members o tokens arguments) : ∀ a ∈ arguments, a.Allowed o := by
  induction h with
  | nil => exact nofun
  | semicolon _ _ ih => exact ih
  | member hform _ _ ih => exact List.forall_mem_cons.mpr ⟨hform.allowed, ih⟩

theorem Parameters.allowed (h : Parameters o tokens arguments) : ∀ a ∈ arguments, a.Allowed o := by
  induction h with
  | last hform => exact List.forall_mem_singleton.mpr hform.allowed
  | cons hform _ _ ih => exact List.forall_mem_cons.mpr ⟨hform.allowed, ih⟩

theorem ParameterList.allowed (h : ParameterList o tokens arguments) :
    ∀ a ∈ arguments, a.Allowed o := by
  cases h with
  | empty => exact nofun
  | void => exact nofun
  | parameters hparameters => exact hparameters.allowed

end Grammar

theorem Scalar.isWord_words (s : Scalar) : ∀ t ∈ s.words, t.IsWord := by
  have hkeywords : ∀ t ∈ s.words, t ∈ keywords.map Token.keyword := by
    cases s <;> decide
  intro t ht
  obtain ⟨k, hk, rfl⟩ := List.mem_map.mp (hkeywords t ht)
  exact isWord_keyword k hk

theorem Scalar.scalarType_words (s : Scalar) : Grammar.ScalarType (s.words.map Token.kind) s := by
  cases s <;> constructor

namespace Argument

variable {o : ReadOptions} {a : Argument}

theorem Named.isWord (h : a.Named Bytes.IsName) : ∀ t ∈ a.words, t.IsWord := by
  refine List.forall_mem_append.mpr ⟨?_, List.forall_mem_singleton.mpr h.name.isWord⟩
  have htype := h.type
  cases htag : a.type with
  | scalar s => exact s.isWord_words
  | enum tag =>
      rw [htag] at htype
      exact List.forall_mem_cons.mpr ⟨isWord_keyword _ (by decide),
        List.forall_mem_singleton.mpr (Bytes.IsName.isWord htype)⟩

theorem Printable.form (h : a.Printable o) : Grammar.ArgumentForm o a.words a := by
  have hallowed := h.allowed
  obtain ⟨name, type⟩ := a
  cases type with
  | scalar s => exact .scalar s.scalarType_words rfl
  | enum tag => exact .enum (hallowed rfl) rfl rfl rfl

end Argument

theorem CType.words_ne_nil (type : CType) : type.words ≠ [] := by
  cases type with
  | scalar s => cases s <;> exact List.cons_ne_nil _ _
  | enum tag => exact List.cons_ne_nil _ _

theorem CType.concat_words (type : CType) : Token.concat (Token.inPrint type.words) = type.inC := by
  cases type with
  | scalar s => cases s <;> rfl
  | enum tag =>
      have hwords : Token.concat (Token.inPrint (CType.enum tag).words) =
          ascii "enum " ++ (tag ++ []) := rfl
      rw [hwords, List.append_nil, CType.inC]

/-- A name behind a type, with spaces. -/
theorem concat_declarator (type : CType) (name : Bytes) :
    Token.concat (Token.inPrint (type.words ++ [.name name])) = type.inC ++ ascii " " ++ name := by
  have hlast {words : List Token} (h : words ≠ []) :
      Token.inPrint (words ++ [.name name]) = Token.inPrint words ++ [.space, .name name] := by
    cases words with
    | nil => exact absurd rfl h
    | cons t words => simp [Token.inPrint, Token.behindSpaces]
  have hname : Token.concat [.space, .name name] = ascii " " ++ (name ++ []) := rfl
  rw [hlast type.words_ne_nil, Token.concat_append, type.concat_words, hname, List.append_nil,
    List.append_assoc]

theorem Argument.concat_words (a : Argument) : Token.concat (Token.inPrint a.words) = a.inC :=
  concat_declarator a.type a.name

theorem Argument.concat_behindSpaces (a : Argument) :
    Token.concat (Token.behindSpaces a.words) = ascii " " ++ a.inC := by
  have hspace {words : List Token} (h : words ≠ []) :
      Token.behindSpaces words = .space :: Token.inPrint words := by
    cases words with
    | nil => exact absurd rfl h
    | cons t words => rfl
  have hne : a.words ≠ [] := by simp [Argument.words]
  rw [hspace hne, Token.concat_cons, a.concat_words]
  rfl

/-! ## Bodies -/

def Token.semicolon : Token := .spelled .semicolon [0x3B]

def Token.comma : Token := .spelled .comma [0x2C]

/-- The members of a struct, each behind a space and with its `;`. -/
def memberTokens (members : List Argument) : List Token :=
  members.flatMap fun a => Token.behindSpaces a.words ++ [.semicolon]

/-- Parameters behind another one, each with the comma and the space before it. -/
def furtherParameterTokens (others : List Argument) : List Token :=
  others.flatMap fun a => .comma :: Token.behindSpaces a.words

/-- The parameters of a prototype. -/
def parameterTokens : List Argument → List Token
  | [] => []
  | a :: others => Token.inPrint a.words ++ furtherParameterTokens others

section

variable {o : ReadOptions} {tokens : List Token} {arguments : List Argument}

theorem memberTokens_cons (a : Argument) (others : List Argument) :
    memberTokens (a :: others) =
      Token.behindSpaces a.words ++ .semicolon :: memberTokens others := by
  simp [memberTokens]

theorem furtherParameterTokens_cons (a : Argument) (others : List Argument) :
    furtherParameterTokens (a :: others) =
      .comma :: (Token.behindSpaces a.words ++ furtherParameterTokens others) := by
  simp [furtherParameterTokens]

theorem members_memberTokens (h : ∀ a ∈ arguments, a.Printable o) :
    Grammar.Members o (solid (memberTokens arguments)) arguments := by
  induction arguments with
  | nil => exact .nil
  | cons a arguments ih =>
      obtain ⟨ha, hothers⟩ := List.forall_mem_cons.mp h
      rw [memberTokens_cons, solid_append, solid_behindSpaces ha.named.isWord,
        solid_cons_of_solid rfl]
      exact .member ha.form rfl (ih hothers)

theorem lexical_memberTokens (h : ∀ a ∈ arguments, a.Printable o) (htokens : Lexical tokens) :
    Lexical (memberTokens arguments ++ tokens) := by
  induction arguments with
  | nil => exact htokens
  | cons a arguments ih =>
      obtain ⟨ha, hothers⟩ := List.forall_mem_cons.mp h
      rw [memberTokens_cons, List.append_assoc]
      have hmark : WordEnd (.semicolon :: (memberTokens arguments ++ tokens)) :=
        (ih hothers).cons_mark (by decide)
      exact (hmark.behindSpaces ha.named.isWord).lexical

theorem concat_memberTokens (arguments : List Argument) :
    Token.concat (memberTokens arguments) =
      arguments.flatMap fun a => ascii " " ++ a.inC ++ ascii ";" := by
  induction arguments with
  | nil => rfl
  | cons a arguments ih =>
      have hmark : Token.text .semicolon = ascii ";" := rfl
      rw [memberTokens_cons, Token.concat_append, Token.concat_cons, a.concat_behindSpaces, hmark,
        ih, List.flatMap_cons, List.append_assoc _ (ascii ";")]

theorem parameters_parameterTokens {a : Argument} (ha : a.Printable o)
    (h : ∀ a ∈ arguments, a.Printable o) :
    Grammar.Parameters o (a.words ++ solid (furtherParameterTokens arguments))
      (a :: arguments) := by
  induction arguments generalizing a with
  | nil =>
      have hlast := Grammar.Parameters.last ha.form
      rw [← List.append_nil a.words] at hlast
      exact hlast
  | cons b others ih =>
      obtain ⟨hb, hothers⟩ := List.forall_mem_cons.mp h
      rw [furtherParameterTokens_cons, solid_cons_of_solid rfl, solid_append,
        solid_behindSpaces hb.named.isWord]
      exact .cons ha.form rfl (ih hb hothers)

theorem parameterList_parameterTokens (h : ∀ a ∈ arguments, a.Printable o) :
    Grammar.ParameterList o (solid (parameterTokens arguments)) arguments := by
  cases arguments with
  | nil => exact .empty
  | cons a others =>
      obtain ⟨ha, hothers⟩ := List.forall_mem_cons.mp h
      rw [parameterTokens, solid_append, solid_inPrint ha.named.isWord]
      exact .parameters (parameters_parameterTokens ha hothers)

theorem wordEnd_furtherParameterTokens (h : ∀ a ∈ arguments, a.Printable o)
    (htokens : WordEnd tokens) : WordEnd (furtherParameterTokens arguments ++ tokens) := by
  induction arguments with
  | nil => exact htokens
  | cons b others ih =>
      obtain ⟨hb, hothers⟩ := List.forall_mem_cons.mp h
      rw [furtherParameterTokens_cons, List.cons_append, List.append_assoc]
      exact ((ih hothers).behindSpaces hb.named.isWord).lexical.cons_mark (by decide)

theorem lexical_parameterTokens (h : ∀ a ∈ arguments, a.Printable o) (htokens : WordEnd tokens) :
    Lexical (parameterTokens arguments ++ tokens) := by
  cases arguments with
  | nil => exact htokens.lexical
  | cons a others =>
      obtain ⟨ha, hothers⟩ := List.forall_mem_cons.mp h
      rw [parameterTokens, List.append_assoc]
      exact (wordEnd_furtherParameterTokens hothers htokens).inPrint ha.named.isWord

theorem Bytes.join_cons (separator first : Bytes) (others : List Bytes) :
    Bytes.join separator (first :: others) =
      first ++ others.flatMap fun text => separator ++ text := by
  induction others generalizing first with
  | nil => simp [Bytes.join, List.intercalate]
  | cons second others ih =>
      have hjoin : Bytes.join separator (first :: second :: others) =
          first ++ (separator ++ Bytes.join separator (second :: others)) := by
        simp [Bytes.join, List.intercalate]
      rw [hjoin, ih, List.flatMap_cons, List.append_assoc]

theorem concat_furtherParameterTokens (others : List Argument) :
    Token.concat (furtherParameterTokens others) =
      (others.map Argument.inC).flatMap fun text => ascii ", " ++ text := by
  induction others with
  | nil => rfl
  | cons b others ih =>
      rw [furtherParameterTokens_cons, Token.concat_cons, Token.concat_append,
        b.concat_behindSpaces, ih, List.map_cons, List.flatMap_cons]
      rfl

theorem concat_parameterTokens (arguments : List Argument) :
    Token.concat (parameterTokens arguments) =
      Bytes.join (ascii ", ") (arguments.map Argument.inC) := by
  cases arguments with
  | nil => rfl
  | cons a others =>
      rw [parameterTokens, Token.concat_append, a.concat_words, concat_furtherParameterTokens,
        List.map_cons, Bytes.join_cons]

end

/-! ## Items in print -/

/-- A body in braces behind a space. -/
def blockTokens (body : List Token) : List Token :=
  [.space] ++ .spelled .leftBrace [0x7B] :: (body ++ [.spelled .rightBrace [0x7D]])

/-- A keyword, a name and a body in braces, with the `;` behind them. -/
def blockItemTokens (k : TokenKind × String) (name : Bytes) (body : List Token) : List Token :=
  .keyword k :: (Token.behindSpaces [.name name] ++ (blockTokens body ++ [.semicolon]))

/-- Nothing but the spelling of the tokens of a text counts where no fault is found. -/
theorem readHeader_concat_eq_iff {o : ReadOptions} {tokens : List Token}
    {declarations : List Declaration} (hlexical : Lexical tokens) :
    readHeader o (Token.concat tokens) = ⟨declarations, [], none⟩ ↔
      readTokens o tokens = ⟨declarations, [], none⟩ := by
  obtain ⟨hdeclarations, -, hdiagnostics, hfault⟩ :=
    Session.run_eq_of_spelling o (spelling_tokenize hlexical)
  have hdiagnostics' := congrArg List.length hdiagnostics
  have hfault' := congrArg Option.isNone hfault
  simp only [List.length_map, Option.isNone_map] at hdiagnostics' hfault'
  simp only [readHeader, readTokens_eq, Reading.ofRun, Reading.mk.injEq,
    ← List.length_eq_zero_iff, ← Option.isNone_iff_eq_none]
  rw [hdeclarations, hdiagnostics', hfault']

/-- Items are read in either mode as the grammar has them. -/
theorem Grammar.Items.readTokens_eq {o : ReadOptions} {tokens : List Token}
    {declarations : List Declaration} (h : Items o tokens declarations) :
    readTokens o tokens = ⟨declarations, [], none⟩ := by
  have hrun := run_items o.collect h (.inl rfl) 0 #[] #[]
  rw [List.append_nil] at hrun
  have hread : (Session.ofTokens tokens).run o = (⟨[], 0, #[] ++ declarations, #[]⟩, none) :=
    hrun.trans (Session.run_of_stop (.finish rfl))
  rw [HeaderBinding.readTokens_eq, hread, Reading.ofRun]
  simp

theorem Grammar.Items.readHeader_eq {o : ReadOptions} {tokens : List Token}
    {declarations : List Declaration} (h : Items o tokens declarations)
    (hlexical : Lexical tokens) :
    readHeader o (Token.concat tokens) = ⟨declarations, [], none⟩ :=
  (readHeader_concat_eq_iff hlexical).mpr h.readTokens_eq

/-- A text that is cut into an item with the declaration. -/
def ReadsAs (o : ReadOptions) (text : Bytes) (d : Declaration) : Prop :=
  ∃ tokens, Token.concat tokens = text ∧ Lexical tokens ∧ Grammar.Item o tokens (some d)

section

variable {o : ReadOptions} {body : List Token} {name : Bytes} {kind : TokenKind} {b : UInt8}

theorem lexical_blockItemTokens {k : TokenKind × String} (hk : k ∈ keywords) (hname : name.IsName)
    (hbody : Lexical (body ++ [.spelled .rightBrace [0x7D], .semicolon])) :
    Lexical (blockItemTokens k name body) := by
  have hblock : blockTokens body ++ [.semicolon] = .space :: .spelled .leftBrace [0x7B] ::
      (body ++ [.spelled .rightBrace [0x7D], .semicolon]) := by
    simp [blockTokens]
  have hopened : WordEnd (blockTokens body ++ [.semicolon]) := by
    rw [hblock]
    exact hbody.space_mark (by decide)
  have hnames := List.forall_mem_singleton.mpr hname.isWord
  exact (hopened.behindSpaces hnames).cons_word (isWord_keyword k hk)

theorem concat_blockItemTokens (k : TokenKind × String) (name : Bytes) (body : List Token) :
    Token.concat (blockItemTokens k name body) =
      ascii k.2 ++ ascii " " ++ name ++ ascii " \x7b" ++ Token.concat body ++ ascii "\x7d;" := by
  simp [blockItemTokens, blockTokens, Token.behindSpaces, Token.keyword, Token.name, Token.space,
    Token.semicolon, Token.spelled, ascii]

theorem block_blockTokens {α : Type} {inside : List Token → α → Prop} {value : α}
    (h : inside body value) : Grammar.Block inside (blockTokens body) value :=
  .mk rfl rfl h rfl

theorem wordEnd_closing (h : (kind, b) ∈ marks) : WordEnd [.spelled kind [b], .semicolon] :=
  (lexical_nil.cons_mark (by decide)).lexical.cons_mark h

theorem ending_semicolon : Grammar.Ending [.semicolon] none := by
  rw [← List.nil_append [Token.semicolon]]
  exact .mk rfl nofun rfl

/-- The enumerators of a source in print. -/
theorem readsAs_enum {attributes : List Bytes} (ho : o.multilineEnum = false)
    (hname : name.IsName) (hbody : Grammar.EnumBody o body attributes) (hlexical : Lexical body) :
    ReadsAs o (Enum.inC ⟨name, attributes⟩) (.enum ⟨name, attributes⟩) := by
  obtain ⟨henumerators, hlines⟩ := hbody
  have hline : ∀ t ∈ body, t.kind ≠ .newline := hlines.resolve_left (by simp [ho])
  have hend : ¬ ClosesComment (ascii ";") := by
    intro hcloses
    exact not_closesComment_nil (closesComment_cons (by decide) hcloses)
  obtain ⟨⟨printed, hconcat, hprinted, hline', hcut⟩, -⟩ :=
    henumerators.printed hlexical hline hend
  have hnames := List.forall_mem_singleton.mpr hname.isWord
  refine ⟨_, ?_, lexical_blockItemTokens (k := (.enumKeyword, "enum")) (by decide) hname ?_,
    .enum rfl (significant_behindSpaces hnames) rfl
      (block_blockTokens ⟨hprinted, .inr hline'⟩) ending_semicolon⟩
  · rw [concat_blockItemTokens, hconcat, enumeratorsText, Enum.inC]
    simp [ascii]
  · exact hcut _ rfl (wordEnd_closing (by decide)).lexical

theorem readsAs_struct {members : List Argument} (hname : name.IsName)
    (hmembers : ∀ a ∈ members, a.Printable o) :
    ReadsAs o (Struct.inC ⟨name, members⟩) (.struct ⟨name, members⟩) := by
  have hbody : Grammar.StructBody o (memberTokens members ++ [.space]) members := by
    rw [Grammar.StructBody, solid_append]
    have hspace : solid [.space] = [] := rfl
    rw [hspace, List.append_nil]
    exact members_memberTokens hmembers
  have hnames := List.forall_mem_singleton.mpr hname.isWord
  refine ⟨_, ?_, lexical_blockItemTokens (k := (.structKeyword, "struct")) (by decide) hname ?_,
    .struct rfl (significant_behindSpaces hnames) rfl (block_blockTokens hbody) ending_semicolon⟩
  · rw [concat_blockItemTokens, Token.concat_append, concat_memberTokens, Struct.inC]
    simp [Token.space, Token.spelled, ascii]
  · rw [List.append_assoc]
    have hsemicolon : WordEnd [.semicolon] := lexical_nil.cons_mark (by decide)
    exact lexical_memberTokens hmembers (hsemicolon.lexical.space_mark (by decide)).lexical

theorem readsAs_prototype {s : Scalar} {parameters : List Argument} (hname : name.IsName)
    (hparameters : ∀ a ∈ parameters, a.Printable o) :
    ReadsAs o (Prototype.inC ⟨name, .scalar s, parameters⟩)
      (.prototype ⟨name, .scalar s, parameters⟩) := by
  have hword : ∀ t ∈ s.words ++ [.name name], t.IsWord :=
    List.forall_mem_append.mpr ⟨s.isWord_words, List.forall_mem_singleton.mpr hname.isWord⟩
  have hbody : WordEnd (.spelled .leftParen [0x28] ::
      (parameterTokens parameters ++ [.spelled .rightParen [0x29], .semicolon])) := by
    have hclosing : WordEnd [.spelled .rightParen [0x29], .semicolon] :=
      wordEnd_closing (by decide)
    exact (lexical_parameterTokens hparameters hclosing).cons_mark (by decide)
  refine ⟨_, ?_, hbody.inPrint hword, ?_⟩
  · have hdeclarator : Token.concat (Token.inPrint (s.words ++ [.name name])) =
        (CType.scalar s).inC ++ ascii " " ++ name := concat_declarator (.scalar s) name
    rw [Token.concat_append, hdeclarator, Token.concat_cons, Token.concat_append,
      concat_parameterTokens, Prototype.inC]
    simp [Token.semicolon, Token.spelled, ascii]
  · have htype := s.scalarType_words
    have hne := (CType.scalar s).words_ne_nil
    obtain ⟨first, type, hwords⟩ := List.exists_cons_of_ne_nil hne
    rw [CType.words] at hwords
    rw [hwords] at htype hword ⊢
    have hhead := significant_behindSpaces (List.forall_mem_cons.mp hword).2
    exact .prototype htype hhead rfl rfl (parameterList_parameterTokens hparameters) rfl
      ending_semicolon

/-- Reading such a text succeeds in either mode and returns the declaration alone. -/
theorem ReadsAs.readHeader_eq {text : Bytes} {d : Declaration} (h : ReadsAs o text d) :
    readHeader o text = ⟨[d], [], none⟩ := by
  obtain ⟨tokens, rfl, hlexical, hitem⟩ := h
  have hitems : Grammar.Items o ([] ++ (tokens ++ [])) ((some d).toList ++ []) :=
    .item rfl hitem (.nil rfl)
  rw [List.nil_append, List.append_nil, List.append_nil] at hitems
  exact hitems.readHeader_eq hlexical

end

/-! ## What a session returns -/

/-- A declaration of a run was there before, or was read at a token of the source. -/
theorem Session.run_declared {o : ReadOptions} (s : Session) {d : Declaration}
    (h : d ∈ (s.run o).1.declarations) :
    d ∈ s.declarations ∨
      ∃ t tokens rest, t :: tokens <:+ s.rest ∧ readConstruct o t tokens = .done (some d) rest := by
  induction s using run_induction (o := o) with
  | stop s final fault hstep =>
      rw [run_of_stop hstep] at h
      cases hstep <;> exact .inl h
  | go s next hstep ih =>
      rw [run_of_go hstep] at h
      have hback (hrest : next.rest <:+ s.rest)
          (hlater : ∃ t tokens rest, t :: tokens <:+ next.rest ∧
            readConstruct o t tokens = .done (some d) rest) :
          ∃ t tokens rest, t :: tokens <:+ s.rest ∧
            readConstruct o t tokens = .done (some d) rest := by
        obtain ⟨t, tokens, rest, htokens, hread⟩ := hlater
        exact ⟨t, tokens, rest, htokens.trans hrest, hread⟩
      cases hstep with
      | separate hskip => exact (ih h).imp_right (hback (suffix_of_skipLayout hskip))
      | close hskip => exact (ih h).imp_right (hback (suffix_of_skipLayout hskip))
      | @declare t tokens rest declaration hskip _ _ hread =>
          have hrest : rest <:+ tokens := by
            have hsuffix := readConstruct_rest_suffix o t tokens
            rwa [hread] at hsuffix
          rcases ih h with hd | hlater
          · rw [← Array.mem_toList_iff, Array.toList_appendList, List.mem_append,
              Array.mem_toList_iff, Option.mem_toList] at hd
            rcases hd with hbefore | rfl
            · exact .inl hbefore
            · exact .inr ⟨t, tokens, rest, hskip ▸ skipLayout_suffix s.rest, hread⟩
          · exact .inr (hback (hrest.trans (suffix_of_skipLayout hskip)) hlater)
      | @recover t tokens rest fault hskip _ _ hread =>
          have hrest : rest <:+ tokens := by
            have hsuffix := readConstruct_rest_suffix o t tokens
            rwa [hread] at hsuffix
          refine (ih h).imp_right (hback ?_)
          exact (resume_suffix ..).trans (hrest.trans (suffix_of_skipLayout hskip))

/-- A declaration of a header was read at a token of it. -/
theorem readHeader_declared {o : ReadOptions} {source : Bytes} {d : Declaration}
    (h : d ∈ (readHeader o source).declarations) :
    ∃ t tokens rest, t :: tokens <:+ tokenize source ∧
      readConstruct o t tokens = .done (some d) rest := by
  have hrun : d ∈ ((Session.ofTokens (tokenize source)).run o).1.declarations :=
    Array.mem_toList_iff.mp h
  rcases Session.run_declared _ hrun with hnone | hread
  · simp [Session.ofTokens] at hnone
  · exact hread

namespace Grammar

variable {o : ReadOptions} {front : List Token} {d : Declaration} {text : Bytes}

theorem Block.exists_lexical {α : Type} {inside : List Token → α → Prop} {block : List Token}
    {value : α} (h : Block inside block value) (hlexical : Lexical block) :
    ∃ body, inside body value ∧ Lexical body := by
  cases h with
  | mk _ _ hbody => exact ⟨_, hbody, hlexical.back.tail.front⟩

/-- An item of a source in print is cut into an item with the same declaration. -/
theorem Item.readsAs (h : Item o front (some d)) (ho : o.multilineEnum = false)
    (hlexical : Lexical front) (hnamed : d.Named Bytes.IsName) (ht : d.inC? = some text) :
    ReadsAs o text d := by
  have hprintable {arguments : List Argument} (hnames : ∀ a ∈ arguments, a.Named Bytes.IsName)
      (hallowed : ∀ a ∈ arguments, a.Allowed o) : ∀ a ∈ arguments, a.Printable o :=
    fun a ha => ⟨hnames a ha, hallowed a ha⟩
  cases h with
  | enum _ _ _ hblock =>
      cases ht
      obtain ⟨body, hbody, hlexical⟩ := hblock.exists_lexical hlexical.tail.back.front
      exact readsAs_enum ho hnamed.1 hbody hlexical
  | typedefEnum _ _ _ _ hblock =>
      cases ht
      obtain ⟨body, hbody, hlexical⟩ := hblock.exists_lexical hlexical.tail.back.front
      exact readsAs_enum ho hnamed.1 hbody hlexical
  | struct _ _ _ hblock =>
      cases ht
      obtain ⟨body, hbody, -⟩ := hblock.exists_lexical hlexical.tail.back.front
      exact readsAs_struct hnamed.1 (hprintable hnamed.2 (Members.allowed hbody))
  | typedefStruct _ _ _ _ hblock =>
      cases ht
      obtain ⟨body, hbody, -⟩ := hblock.exists_lexical hlexical.tail.back.front
      exact readsAs_struct hnamed.1 (hprintable hnamed.2 (Members.allowed hbody))
  | prototype _ _ _ _ hparameters =>
      cases ht
      exact readsAs_prototype hnamed.1 (hprintable hnamed.2.2 hparameters.allowed)

end Grammar

/-- Directives have no enums, structs or prototypes: names have no part in what they declare. -/
theorem readConstruct_directive {o : ReadOptions} {t : Token} {tokens rest : List Token}
    {d : Declaration} (ht : t.kind.isDirective = true)
    (h : readConstruct o t tokens = .done (some d) rest) : d.inC? = none := by
  rw [readConstruct, if_pos ht] at h
  have hsound : (readDirective t tokens).Sound (∀ d ∈ ·, d.Named fun _ => False) :=
    readDirective_sound
  rw [h] at hsound
  have hnamed := hsound d rfl
  cases d with
  | inclusion | macroName => rfl
  | enum | struct | prototype => exact hnamed.1.elim

/-- What starts with no directive is read as an item, whose tokens are cut from its text as they are
from the source. -/
theorem readConstruct_lexicalItem {o : ReadOptions} {source : Bytes} {t : Token}
    {tokens rest : List Token} {d : Option Declaration} (hsource : t :: tokens <:+ tokenize source)
    (hdirective : ¬ t.kind.isDirective = true) (h : readConstruct o t tokens = .done d rest) :
    ∃ front, tokens = front ++ rest ∧ Grammar.Item o (t :: front) d ∧ Lexical (t :: front) := by
  obtain ⟨front, rfl, hitem⟩ := Grammar.readConstruct_item (by simpa using hdirective) h
  obtain ⟨before, hbefore⟩ := hsource
  have hlexical : Lexical (before ++ ((t :: front) ++ rest)) := hbefore ▸ lexical_tokenize source
  exact ⟨front, rfl, hitem, hlexical.back.front⟩

/-- Reading undoes printing: an enum, a struct or a prototype among the declarations of a source,
in print, is read back alone and unchanged. -/
theorem readHeader_inC {o : ReadOptions} (ho : o.multilineEnum = false) {source text : Bytes}
    {d : Declaration} (hd : d ∈ (readHeader o source).declarations) (ht : d.inC? = some text) :
    readHeader o text = ⟨[d], [], none⟩ := by
  obtain ⟨t, tokens, rest, hsuffix, hread⟩ := readHeader_declared hd
  by_cases hdirective : t.kind.isDirective = true
  · rw [readConstruct_directive hdirective hread] at ht
    cases ht
  · have hnames : Names Bytes.IsName tokens :=
      (names_tokenize source).suffix ((List.suffix_cons t tokens).trans hsuffix)
    have hnamed : d.Named Bytes.IsName := readConstruct_named hnames hread
    obtain ⟨front, rfl, hitem, hlexical⟩ := readConstruct_lexicalItem hsuffix hdirective hread
    exact (hitem.readsAs ho hlexical hnamed ht).readHeader_eq

/-- A comment that kept two words apart is gone, a brace stands in a literal, and a comment is
opened that nothing closes. -/
theorem readHeader_inC_openComment :
    let d := Declaration.enum ⟨ascii "E", [ascii "AB = '\x7d'", ascii "C /* 2"]⟩
    d ∈ (readHeader .default (ascii "enum E \x7b A/**/B = '\x7d', C /* 2 \x7d;")).declarations ∧
      readHeader .default (ascii "enum E \x7b AB = '\x7d', C /* 2 \x7d;") = ⟨[d], [], none⟩ := by
  intro d
  have hd : d ∈
      (readHeader .default (ascii "enum E \x7b A/**/B = '\x7d', C /* 2 \x7d;")).declarations := by
    decide +kernel
  exact ⟨hd, readHeader_inC rfl hd (by decide)⟩

end HeaderBinding
