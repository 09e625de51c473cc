import HeaderBinding.Proofs.Reading.Printing
import HeaderBinding.Proofs.Reading.RepeatedRuns

/-!
# What declarations are made of

The parts of a declaration come from tokens, from a directive or from the texts between commas. Each
source vouches for something: the lexicon for names, the grammar for types, trimming and cutting for
enumerators, delimiters for includes. Together they make an invariant that every declaration of a
session has, after any number of runs.
-/

namespace HeaderBinding

open Lexicon

/-! ## The invariant -/

/-- An identifier that is no keyword. -/
structure Bytes.IsFree (s : Bytes) : Prop where
  isIdentifier : s.isIdentifier = true
  ne_keyword : ∀ k ∈ keywords, s ≠ ascii k.2

/-- A scalar type, or an enum of a free name where the options allow one. -/
inductive CType.Valid (o : ReadOptions) : CType → Prop where
  | scalar (s : Scalar) : Valid o (.scalar s)
  | enum {tag : Bytes} (ho : o.noInlineEnum = false) (htag : tag.IsFree) : Valid o (.enum tag)

structure Argument.Valid (o : ReadOptions) (a : Argument) : Prop where
  name : a.name.IsFree
  type : a.type.Valid o

/-- The text of an enumerator: not empty, without blanks around it and without line feeds. If
enumerators keep to one line, cutting the text again gives nothing that ends an enumerator or drops
out of it. -/
structure IsEnumerator (o : ReadOptions) (text : Bytes) : Prop where
  ne_nil : text ≠ []
  leading : ∀ blank ∈ Blank.encodings, ¬ blank <+: text
  trailing : ∀ blank ∈ Blank.encodings, ¬ blank <:+ text
  noLineFeed : lineFeed ∉ text
  kinds : o.multilineEnum = false → ∀ t ∈ tokenize text,
    t.kind ∉ [.comma, .leftBrace, .rightBrace, .semicolon, .newline, .comment, .invalid]

/-- The byte that ends the name of an include. -/
def IncludeKind.closing : IncludeKind → UInt8
  | .custom => 0x22
  | .standard => 0x3E

structure Include.Valid (i : Include) : Prop where
  ne_nil : i.name ≠ []
  ends : i.kind.closing ∉ i.name

/-- What every declaration that is read satisfies. -/
def Declaration.Valid (o : ReadOptions) : Declaration → Prop
  | .inclusion i => i.Valid
  | .macroName m => m.name.isIdentifier = true
  | .enum e => e.name.IsFree ∧ ∀ text ∈ e.attributes, IsEnumerator o text
  | .struct s => s.name.IsFree ∧ ∀ a ∈ s.attributes, a.Valid o
  | .prototype p =>
    p.name.IsFree ∧ (∃ s, p.returnType = .scalar s) ∧ ∀ a ∈ p.arguments, a.Valid o

/-! ## Names and types -/

theorem Bytes.IsName.isFree {s : Bytes} (h : s.IsName) : s.IsFree where
  isIdentifier := h.isIdentifier
  ne_keyword k hk hs := by
    have hkinds : ∀ k ∈ keywords, k.1 ≠ .identifier := by decide
    exact hkinds k hk ((h.eq_keyword_iff hk).mpr hs).symm

theorem Argument.Named.valid {o : ReadOptions} {a : Argument} (h : a.Named Bytes.IsName)
    (hallowed : a.Allowed o) : a.Valid o where
  name := h.name.isFree
  type := by
    obtain ⟨name, type⟩ := a
    cases type with
    | scalar s => exact .scalar s
    | enum tag => exact .enum (hallowed rfl) (Bytes.IsName.isFree h.type)

/-! ## Trimmed texts -/

section

variable {encodings : List Bytes} {s e : Bytes}

theorem dropEncodings_suffix (encodings : List Bytes) (s : Bytes) :
    Bytes.dropEncodings encodings s <:+ s := by
  fun_induction Bytes.dropEncodings encodings s with
  | case1 => exact List.suffix_rfl
  | case2 => exact List.suffix_rfl
  | case3 b s n _ ih => exact ih.trans ((List.drop_suffix n s).trans (List.suffix_cons b s))

theorem not_prefix_dropEncodings (hencodings : ∀ e ∈ encodings, e ≠ []) (he : e ∈ encodings)
    (s : Bytes) : ¬ e <+: Bytes.dropEncodings encodings s := by
  fun_induction Bytes.dropEncodings encodings s with
  | case1 =>
      intro h
      exact hencodings e he (List.prefix_nil.mp h)
  | case2 b s hlength =>
      intro h
      rw [Blank.matchLength] at hlength
      cases hfind : encodings.find? (·.isPrefixOf (b :: s)) with
      | none => simpa [h] using List.find?_eq_none.mp hfind e he
      | some found =>
          rw [hfind] at hlength
          exact hencodings found (List.mem_of_find?_eq_some hfind)
            (List.eq_nil_of_length_eq_zero hlength)
  | case3 _ _ _ _ ih => exact ih

theorem encodings_ne_nil : ∀ e ∈ Blank.encodings, e ≠ [] := by
  decide

theorem trimRight_isPrefix (s : Bytes) : s.trimRight <+: s := by
  rw [Bytes.trimRight, ← List.reverse_suffix, List.reverse_reverse]
  exact dropEncodings_suffix _ _

theorem trim_isInfix (s : Bytes) : s.trim <:+: s :=
  (trimRight_isPrefix s.trimLeft).isInfix.trans (dropEncodings_suffix _ s).isInfix

/-- No blank is left at the start of a trimmed text: trimming its end adds none. -/
theorem not_prefix_trim (he : e ∈ Blank.encodings) (s : Bytes) : ¬ e <+: s.trim := by
  intro h
  exact not_prefix_dropEncodings encodings_ne_nil he s (h.trans (trimRight_isPrefix s.trimLeft))

theorem not_suffix_trim (he : e ∈ Blank.encodings) (s : Bytes) : ¬ e <:+ s.trim := by
  intro h
  rw [Bytes.trim, Bytes.trimRight, ← List.reverse_prefix, List.reverse_reverse] at h
  refine not_prefix_dropEncodings ?_ (List.mem_map_of_mem he) _ h
  exact List.forall_mem_map.mpr fun e he => by simpa using encodings_ne_nil e he

end

/-! ## Enumerators -/

namespace Grammar

variable {o : ReadOptions} {piece later body : List Token} {attributes : List Bytes}

theorem lineFeed_notMem_enumeratorText (h : Lexical piece)
    (hpiece : ∀ t ∈ piece, endsEnumerator t = false) : lineFeed ∉ enumeratorText piece := by
  intro hfeed
  have hkept := (trim_isInfix _).subset hfeed
  rw [Token.concat, List.mem_flatten] at hkept
  obtain ⟨text, htext, hfeed⟩ := hkept
  obtain ⟨t, ht, rfl⟩ := List.mem_map.mp htext
  obtain ⟨hmem, hkept⟩ := List.mem_filter.mp ht
  have hkind := isTextKind_iff.mpr ⟨hpiece t hmem, hkept⟩
  have hfirst := h.firstKind_of_isTextKind hmem hkind
  rcases hfirst.break_or_comment hfeed with ⟨hbreak, -⟩ | ⟨hcomment, -⟩
  · rw [hbreak] at hkind
    cases hkind
  · rw [hcomment] at hkind
    cases hkind

/-- A text of an enumerator on one line is cut as the enumerator was, without its comments. -/
theorem isTextKind_of_mem_tokenize (h : Lexical (piece ++ later))
    (hpiece : ∀ t ∈ piece, isPieceKind t.kind = true) (hlater : ∀ t ∈ later, t.kind ≠ .invalid)
    (hne : enumeratorText piece ≠ []) :
    ∀ t ∈ tokenize (enumeratorText piece), isTextKind t.kind = true := by
  have hclean := (enumeratorText_trimmed h hpiece hlater hne).clean
  have hnone : ¬ ClosesComment [0x7D] := by
    intro hcloses
    exact not_closesComment_nil (closesComment_cons (by decide) hcloses)
  obtain ⟨cut, hconcat, hkinds, hlexical⟩ := hclean.cutsBefore (.inr rfl) (absurd · hnone)
  have hbrace : Lexical [.spelled .rightBrace [0x7D]] := (lexical_nil.cons_mark (by decide)).lexical
  have hspelling := spelling_tokenize (hlexical _ rfl hbrace).front
  rw [hconcat] at hspelling
  intro t ht
  have hmem : t.spelling ∈ cut.map Token.spelling := by
    rw [← hspelling]
    exact List.mem_map_of_mem ht
  obtain ⟨u, hu, hsame⟩ := List.mem_map.mp hmem
  have hkind : u.kind = t.kind := congrArg Prod.fst hsame
  rw [← hkind]
  exact hkinds u hu

theorem isEnumerator_enumeratorText (h : Lexical (piece ++ later))
    (hpiece : ∀ t ∈ piece, endsEnumerator t = false) (hlater : ∀ t ∈ later, t.kind ≠ .invalid)
    (hline : o.multilineEnum = false → ∀ t ∈ piece, t.kind ≠ .newline)
    (hne : enumeratorText piece ≠ []) : IsEnumerator o (enumeratorText piece) where
  ne_nil := hne
  leading _ hblank := not_prefix_trim hblank _
  trailing _ hblank := not_suffix_trim hblank _
  noLineFeed := lineFeed_notMem_enumeratorText h.front hpiece
  kinds ho t ht := by
    have hkinds : ∀ t ∈ piece, isPieceKind t.kind = true :=
      fun t ht => isPieceKind_of_text (hpiece t ht) (hline ho t ht)
    have hkind := isTextKind_of_mem_tokenize h hkinds hlater hne t ht
    revert hkind
    cases t.kind <;> decide

theorem Enumerators.isEnumerator (h : Enumerators body attributes) (hlexical : Lexical body)
    (hline : o.multilineEnum = false → ∀ t ∈ body, t.kind ≠ .newline) :
    ∀ text ∈ attributes, IsEnumerator o text := by
  induction h with
  | empty => nofun
  | @last piece hpiece hne =>
      rw [← List.append_nil piece] at hlexical
      exact List.forall_mem_singleton.mpr
        (isEnumerator_enumeratorText hlexical hpiece nofun hline hne)
  | @cons piece tokens t texts hpiece hne ht htokens ih =>
      have hlater : ∀ u ∈ t :: tokens, u.kind ≠ .invalid :=
        List.forall_mem_cons.mpr ⟨by simp [ht], htokens.ne_invalid⟩
      refine List.forall_mem_cons.mpr ⟨?_, ?_⟩
      · exact isEnumerator_enumeratorText hlexical hpiece hlater
          (fun ho u hu => hline ho u (by simp [hu])) hne
      · exact ih hlexical.back.tail fun ho u hu => hline ho u (by simp [hu])

theorem Block.isEnumerator {block : List Token} (h : Block (EnumBody o) block attributes)
    (hlexical : Lexical block) : ∀ text ∈ attributes, IsEnumerator o text := by
  obtain ⟨body, ⟨henumerators, hlines⟩, hlexical⟩ := h.exists_lexical hlexical
  refine henumerators.isEnumerator hlexical fun ho => hlines.resolve_left ?_
  simp [ho]

/-- An item of a source declares what the invariant allows. -/
theorem Item.valid {front : List Token} {d : Declaration} (h : Item o front (some d))
    (hlexical : Lexical front) (hnamed : d.Named Bytes.IsName) : d.Valid o := by
  have hvalid {arguments : List Argument} (hnames : ∀ a ∈ arguments, a.Named Bytes.IsName)
      (hallowed : ∀ a ∈ arguments, a.Allowed o) : ∀ a ∈ arguments, a.Valid o :=
    fun a ha => (hnames a ha).valid (hallowed a ha)
  cases h with
  | enum _ _ _ hblock =>
      exact ⟨hnamed.1.isFree, hblock.isEnumerator hlexical.tail.back.front⟩
  | typedefEnum _ _ _ _ hblock =>
      exact ⟨hnamed.1.isFree, hblock.isEnumerator hlexical.tail.back.front⟩
  | struct _ _ _ hblock =>
      obtain ⟨body, hbody, -⟩ := hblock.exists_lexical hlexical.tail.back.front
      exact ⟨hnamed.1.isFree, hvalid hnamed.2 (Members.allowed hbody)⟩
  | typedefStruct _ _ _ _ hblock =>
      obtain ⟨body, hbody, -⟩ := hblock.exists_lexical hlexical.tail.back.front
      exact ⟨hnamed.1.isFree, hvalid hnamed.2 (Members.allowed hbody)⟩
  | prototype _ _ _ _ hparameters =>
      exact ⟨hnamed.1.isFree, ⟨_, rfl⟩, hvalid hnamed.2.2 hparameters.allowed⟩

end Grammar

/-! ## Directives -/

namespace Directive

variable {s : Bytes} {i : Include}

theorem notMem_of_enclosed? {close : UInt8} {name : Bytes} (h : enclosed? close s = some name) :
    close ∉ name := by
  unfold enclosed? at h
  dsimp only at h
  split at h
  · cases h
  · cases h
    intro hmem
    simpa using List.mem_takeWhile_imp hmem

theorem target?_valid (h : target? s = some i) : i.Valid := by
  refine ⟨target?_name_ne_nil h, ?_⟩
  unfold target? at h
  split at h
  · obtain ⟨name, hname, rfl⟩ := Option.map_eq_some_iff.mp h
    exact notMem_of_enclosed? hname
  · obtain ⟨name, hname, rfl⟩ := Option.map_eq_some_iff.mp h
    exact notMem_of_enclosed? hname
  · cases h

theorem read_inclusion (h : read s = .ok (some (.inclusion i))) : i.Valid := by
  have hmacro {kind : MacroKind} {rest : Bytes}
      (h : macroFrom kind rest = .ok (some (.inclusion i))) : i.Valid := by
    unfold macroFrom at h
    split at h <;> cases h
  unfold read at h
  split at h
  · dsimp only at h
    split at h
    · split at h
      · rename_i htarget
        cases h
        exact target?_valid htarget
      · cases h
    · split at h
      · exact hmacro h
      · split at h
        · exact hmacro h
        · split at h <;> cases h
  · cases h

end Directive

theorem parseStatement_inclusion {s : Bytes} {i : Include}
    (h : parseStatement s = .ok (some (.inclusion i))) : i.Valid := by
  rw [parseStatement] at h
  cases hread : Directive.read s.trim with
  | error cause =>
      rw [hread] at h
      cases h
  | ok d =>
      rw [hread] at h
      cases h
      exact Directive.read_inclusion hread

/-! ## Sessions -/

/-- Whatever is read at a token of a source satisfies the invariant. -/
theorem readConstruct_valid {o : ReadOptions} {source : Bytes} {t : Token}
    {tokens rest : List Token} {d : Declaration} (hsource : t :: tokens <:+ tokenize source)
    (h : readConstruct o t tokens = .done (some d) rest) : d.Valid o := by
  have hnames : Names Bytes.IsName tokens :=
    (names_tokenize source).suffix ((List.suffix_cons t tokens).trans hsource)
  have hnamed : d.Named Bytes.IsName := readConstruct_named hnames h
  by_cases hdirective : t.kind.isDirective = true
  · have hprinted := readConstruct_directive hdirective h
    rw [readConstruct, if_pos hdirective] at h
    obtain ⟨line, -, ⟨-, -, hstatement⟩, -⟩ := (Grammar.readDirective_eq_done_iff hdirective).mp h
    cases d with
    | inclusion i => exact parseStatement_inclusion hstatement
    | macroName m => exact hnamed
    | enum | struct | prototype => cases hprinted
  · obtain ⟨front, rfl, hitem, hlexical⟩ := readConstruct_lexicalItem hsource hdirective h
    exact hitem.valid hlexical hnamed

theorem readHeader_valid {o : ReadOptions} {source : Bytes} {d : Declaration}
    (h : d ∈ (readHeader o source).declarations) : d.Valid o := by
  obtain ⟨t, tokens, rest, hsuffix, hread⟩ := readHeader_declared h
  exact readConstruct_valid hsuffix hread

namespace Session

theorem afterRuns_rest_suffix (o : ReadOptions) (source : Bytes) (n : Nat) :
    (afterRuns o source n).rest <:+ tokenize source := by
  induction n with
  | zero => exact List.suffix_rfl
  | succ n ih =>
      rw [afterRuns_succ]
      exact (run_rest_suffix _).trans ih

/-- Every declaration of a session satisfies the invariant, after any number of runs and whatever
faults were passed over. -/
theorem afterRuns_declarations_valid (o : ReadOptions) (source : Bytes) (n : Nat) :
    ∀ d ∈ (afterRuns o source n).declarations, d.Valid o := by
  induction n with
  | zero =>
      intro d hd
      simp [afterRuns, ofSource, ofTokens] at hd
  | succ n ih =>
      intro d hd
      rw [afterRuns_succ] at hd
      rcases run_declared _ hd with hbefore | ⟨t, tokens, rest, hsuffix, hread⟩
      · exact ih d hbefore
      · exact readConstruct_valid (hsuffix.trans (afterRuns_rest_suffix o source n)) hread

/-- The first two runs stop at a pointer and at the brace behind it. The third one reads an enum
whose text holds a comma in a comment and a brace in a literal. -/
theorem afterRuns_declarations_valid_thirdRun :
    let source := ascii "struct S \x7b int *p; \x7d;\nenum E \x7b A /* , */ = '\x7d' \x7d;"
    let d := Declaration.enum ⟨ascii "E", [ascii "A  = '\x7d'"]⟩
    d ∈ (afterRuns .default source 3).declarations ∧ d.Valid .default := by
  intro source d
  have hd : d ∈ (afterRuns .default source 3).declarations := by decide +kernel
  exact ⟨hd, afterRuns_declarations_valid .default source 3 d hd⟩

end Session

end HeaderBinding
