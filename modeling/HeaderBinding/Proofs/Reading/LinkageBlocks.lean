import HeaderBinding.Proofs.Reading.Acceptance
import HeaderBinding.Proofs.Token.Delimiters

/-!
# Linkage blocks around a source

A collecting session notes the opening of a linkage block and reads on inside it; the brace that
closes the block only lowers the number of open ones. A source in any number of blocks is therefore
read as the source is, with a fault for each block.
-/

namespace HeaderBinding

/-- A source inside a linkage block, on lines of its own. -/
def linkageBlock (literal source : Bytes) : Bytes :=
  ascii "extern " ++ literal ++ ascii " \x7b\n" ++ source ++ ascii "\n\x7d\n"

/-- A source inside linkage blocks, the first literal outermost. -/
def inLinkageBlocks (literals : List Bytes) (source : Bytes) : Bytes :=
  literals.foldr linkageBlock source

/-- The tokens that open a linkage block, with the line break behind the brace. -/
def linkageOpening (literal : Bytes) : List Token :=
  [⟨.identifier, ascii "extern", .start⟩, ⟨.whiteSpace, ascii " ", .start⟩,
   ⟨.stringLiteral, literal, .start⟩, ⟨.whiteSpace, ascii " ", .start⟩,
   ⟨.leftBrace, ascii "\x7b", .start⟩, ⟨.newline, ascii "\n", .start⟩]

/-- The tokens that close a linkage block, with the line break behind the brace. -/
def linkageClosing : List Token :=
  [⟨.rightBrace, ascii "\x7d", .start⟩, ⟨.newline, ascii "\n", .start⟩]

/-! ## The tokens of a block -/

namespace Lexicon

open Lexer

variable {s u literal rest : Bytes} {b : UInt8} {kind : TokenKind}
  {tokens : List (TokenKind × Bytes)}

theorem viable_foldl_advance {w : Bytes} {rules : List LexicalRule} :
    Viable ((w.foldl (fun rules b => advance b rules) rules).map LexicalRule.entry) s ↔
      Viable (rules.map LexicalRule.entry) (w ++ s) := by
  induction w generalizing rules with
  | nil => rfl
  | cons b w ih => rw [List.foldl_cons, ih, viable_advance, List.cons_append]

/-- A word is the longest one before a byte at which every rule fails. -/
theorem longestWord_of_advance (hne : u ≠ [])
    (hkind : accepted? (u.foldl (fun rules b => advance b rules) LexicalRule.all) = some kind)
    (hdead :
      (advance b (u.foldl (fun rules b => advance b rules) LexicalRule.all)).isEmpty = true) :
    LongestWord entries (u ++ b :: s) u kind := by
  refine longestWord_append (firstKind_of_accepted? hkind) hne ?_
  intro w hw hnil hword
  obtain ⟨w, rfl, _⟩ := (List.prefix_cons_iff.mp hw).resolve_left hnil
  rw [advance_isEmpty_eq_true_iff, viable_foldl_advance, LexicalRule.map_entry_all] at hdead
  refine hdead (hword.viable ?_)
  simp

theorem cut_linkageOpening
    (hliteral : (LexicalRule.quoted .stringLiteral 0x22).pattern.Matches literal)
    (h : Cut rest tokens) :
    Cut (ascii "extern " ++ literal ++ ascii " \x7b\n" ++ rest)
      ((linkageOpening literal).map Token.spelling ++ tokens) := by
  have hquote : (.stringLiteral, '\x22') ∈ quotes := by decide
  have hword : IsLiteral (.stringLiteral, '\x22') literal := isLiteral_of_matches hquote hliteral
  obtain ⟨inside, rfl⟩ : ∃ inside, literal = 0x22 :: inside := by
    obtain ⟨tail, htail, -⟩ := hword.exists_tail
    rw [utf8_quote hquote] at htail
    exact ⟨_, htail.symm⟩
  have htext : ascii "extern " ++ 0x22 :: inside ++ ascii " \x7b\n" ++ rest =
      ascii "extern" ++ (ascii " " ++ (0x22 :: inside ++ (ascii " " ++ (ascii "\x7b" ++
        (ascii "\n" ++ rest))))) := by
    rw [List.append_assoc, List.append_assoc]
    rfl
  rw [htext]
  refine .word (longestWord_of_advance (b := 0x20) (by decide) (by decide) (by decide)) ?_
  refine .word (longestWord_of_advance (b := 0x22) (by decide) (by decide) (by decide)) ?_
  refine .word (hword.longestWord _) ?_
  refine .word (longestWord_of_advance (b := 0x7B) (by decide) (by decide) (by decide)) ?_
  refine .word (longestWord_of_advance (b := 0x0A) (by decide) (by decide) (by decide)) ?_
  exact .word (longestWord_lineFeed rest) h

theorem cut_linkageClosing (h : Cut rest tokens) :
    Cut (ascii "\x7d\n" ++ rest) (linkageClosing.map Token.spelling ++ tokens) := by
  have htext : ascii "\x7d\n" ++ rest = ascii "\x7d" ++ (ascii "\n" ++ rest) := rfl
  rw [htext]
  refine .word (longestWord_of_advance (b := 0x0A) (by decide) (by decide) (by decide)) ?_
  exact .word (longestWord_lineFeed rest) h

end Lexicon

/-! ## Reading through blocks -/

namespace Session

/-- A session goes over the tokens, at any depth of linkage and whatever follows: it finds their
declarations and notes the opening of each block. -/
def ReadsThrough (o : ReadOptions) (tokens : List Token) (declarations : List Declaration)
    (blocks : Nat) : Prop :=
  ∀ more linkage before diagnostics, ∃ faults : List Fault,
    faults.map Fault.cause = List.replicate blocks .linkageBlock ∧
    run o ⟨tokens ++ more, linkage, before, diagnostics⟩ =
      run o ⟨more, linkage, before ++ declarations, diagnostics ++ faults⟩

variable {o : ReadOptions} {tokens : List Token} {declarations : List Declaration} {blocks : Nat}

theorem run_nil (o : ReadOptions) (linkage : Nat) (before : Array Declaration)
    (diagnostics : Array Fault) :
    run o ⟨[], linkage, before, diagnostics⟩ = (⟨[], linkage, before, diagnostics⟩, none) :=
  run_of_stop (.finish rfl)

theorem ReadsThrough.append_newline {t : Token} (h : ReadsThrough o tokens declarations blocks)
    (ht : t.kind = .newline) : ReadsThrough o (tokens ++ [t]) declarations blocks := by
  intro more linkage before diagnostics
  obtain ⟨faults, hcauses, hrun⟩ := h (t :: more) linkage before diagnostics
  refine ⟨faults, hcauses, ?_⟩
  have hskip : skipLayout (t :: more) = t :: more := by
    simp [skipLayout, ht, TokenKind.isLayout]
  have hbreak := run_of_go (o := o)
    (s := ⟨t :: more, linkage, before ++ declarations, diagnostics ++ faults⟩)
    (.separate hskip (.inl ht))
  rw [List.append_assoc, List.singleton_append, hrun, hbreak]

/-- The opening of a block is noted, and one more block is open behind it. -/
theorem run_linkageOpening (ho : o.collect = true) (literal : Bytes) (more : List Token)
    (linkage : Nat) (before : Array Declaration) (diagnostics : Array Fault) :
    ∃ fault, fault.cause = .linkageBlock ∧
      run o ⟨linkageOpening literal ++ more, linkage, before, diagnostics⟩ =
        run o ⟨more, linkage + 1, before, diagnostics.push fault⟩ := by
  let start : Token := ⟨.identifier, ascii "extern", .start⟩
  let newline : Token := ⟨.newline, ascii "\n", .start⟩
  let fault : Fault := ⟨.linkageBlock, ascii "extern" ++ ascii " " ++ literal, .start⟩
  obtain ⟨tokens, htokens⟩ : ∃ tokens, linkageOpening literal ++ more = start :: tokens := ⟨_, rfl⟩
  have hread : readConstruct o start tokens = .broken fault (newline :: more) := by
    obtain ⟨_, rfl⟩ := List.cons.inj htokens
    rfl
  have hskip : skipLayout (start :: tokens) = start :: tokens := rfl
  have hstops : stops o fault = false := by
    simp [stops, ho, fault, SyntaxError.category]
  have hopening := run_of_go (s := ⟨start :: tokens, linkage, before, diagnostics⟩)
    (.recover hskip (by simp [start]) (by simp [start]) hread hstops)
  have hbreak := run_of_go (o := o)
    (s := ⟨newline :: more, linkage + 1, before, diagnostics.push fault⟩)
    (.separate (t := newline) rfl (.inl rfl))
  refine ⟨fault, rfl, ?_⟩
  rw [htokens, hopening]
  exact hbreak

/-- A closing brace closes a block. -/
theorem run_linkageClosing (more : List Token) (linkage : Nat) (before : Array Declaration)
    (diagnostics : Array Fault) :
    run o ⟨linkageClosing ++ more, linkage + 1, before, diagnostics⟩ =
      run o ⟨more, linkage, before, diagnostics⟩ := by
  let brace : Token := ⟨.rightBrace, ascii "\x7d", .start⟩
  let newline : Token := ⟨.newline, ascii "\n", .start⟩
  have hclose := run_of_go (o := o)
    (s := ⟨brace :: newline :: more, linkage + 1, before, diagnostics⟩)
    (.close (t := brace) rfl rfl (Nat.succ_pos linkage))
  have hbreak := run_of_go (o := o) (s := ⟨newline :: more, linkage, before, diagnostics⟩)
    (.separate (t := newline) rfl (.inl rfl))
  exact hclose.trans hbreak

theorem ReadsThrough.block (ho : o.collect = true) (h : ReadsThrough o tokens declarations blocks)
    (literal : Bytes) :
    ReadsThrough o (linkageOpening literal ++ (tokens ++ linkageClosing)) declarations
      (blocks + 1) := by
  intro more linkage before diagnostics
  obtain ⟨fault, hcause, hopening⟩ := run_linkageOpening ho literal
    (tokens ++ (linkageClosing ++ more)) linkage before diagnostics
  obtain ⟨faults, hcauses, hinside⟩ :=
    h (linkageClosing ++ more) (linkage + 1) before (diagnostics.push fault)
  refine ⟨fault :: faults, by simp [hcause, hcauses, List.replicate_succ], ?_⟩
  have hnoted : diagnostics.push fault ++ faults = diagnostics ++ (fault :: faults) := by
    apply Array.ext'
    simp
  rw [List.append_assoc, List.append_assoc, hopening, hinside, run_linkageClosing, hnoted]

end Session

/-! ## Line breaks at the end of a source -/

namespace Grammar

variable {o : ReadOptions} {tokens front : List Token} {t : Token} {d : Option Declaration}
  {declarations : List Declaration}

theorem Ending.last_kind {name : Option Token} (h : Ending tokens name) :
    ∃ u ∈ tokens.getLast?, u.kind = .semicolon := by
  cases h with
  | mk _ _ ht => exact ⟨_, List.getLast?_concat, ht⟩

/-- An item other than a separator ends with a `;`. -/
theorem Item.last_kind (h : Item o front d) :
    (∃ u, front = [u] ∧ d = none) ∨ ∃ u ∈ front.getLast?, u.kind = .semicolon := by
  have hlast : ∀ (first : List Token) {tail : List Token} {name : Option Token}, Ending tail name →
      ∃ u ∈ (first ++ tail).getLast?, u.kind = .semicolon := by
    intro first tail name htail
    obtain ⟨u, hu, hkind⟩ := htail.last_kind
    exact ⟨u, by simp [List.getLast?_append, Option.mem_def.mp hu], hkind⟩
  cases h with
  | separator _ => exact .inl ⟨_, rfl, rfl⟩
  | @enum keyword _ head block tail _ _ _ _ _ htail =>
      exact .inr (by simpa using hlast (keyword :: (head ++ block)) htail)
  | @struct keyword _ head block tail _ _ _ _ _ htail =>
      exact .inr (by simpa using hlast (keyword :: (head ++ block)) htail)
  | @typedefEnum keyword _ _ _ _ head block tail _ _ _ _ _ _ htail _ =>
      exact .inr (by simpa using hlast (keyword :: (head ++ block)) htail)
  | @typedefStruct keyword _ _ _ _ head block tail _ _ _ _ _ _ htail _ =>
      exact .inr (by simpa using hlast (keyword :: (head ++ block)) htail)
  | @prototype first _ left right _ head body tail _ _ _ _ _ _ _ _ htail =>
      exact .inr (by simpa using hlast (first :: (head ++ left :: (body ++ [right]))) htail)

/-- A line break may be added to the end. -/
theorem Items.append_newline (h : Items o tokens declarations) (ht : t.kind = .newline) :
    Items o (tokens ++ [t]) declarations := by
  induction h with
  | nil hlayout => exact .item hlayout (.separator (.inl ht)) (.nil rfl)
  | item hlayout hitem _ ih =>
      rw [List.append_assoc, List.append_assoc]
      exact .item hlayout hitem ih
  | @directive layout front tokens _ _ hlayout hline hhead _ ih =>
      rw [List.append_assoc, List.append_assoc]
      refine .directive hlayout hline ?_ ih
      cases tokens with
      | nil => simp [ht]
      | cons u tokens => exact hhead

theorem Items.eq_nil (h : Items o [] declarations) : declarations = [] := by
  generalize hnil : ([] : List Token) = tokens at h
  cases h with
  | nil _ => rfl
  | item _ hitem _ => simp [hitem.ne_nil] at hnil
  | directive _ hline _ _ => simp [hline.ne_nil] at hnil

theorem mem_getLast?_of_append_eq {layout : List Token}
    (h : tokens ++ [t] = layout ++ (front ++ [])) (hne : front ≠ []) : t ∈ front.getLast? := by
  have hlast := congrArg List.getLast? h
  rw [List.append_nil, List.getLast?_append_of_ne_nil _ hne, List.getLast?_concat] at hlast
  exact hlast.symm

/-- A line break may be taken from the end. -/
theorem Items.of_append_newline (h : Items o (tokens ++ [t]) declarations)
    (ht : t.kind = .newline) : Items o tokens declarations := by
  generalize hall : tokens ++ [t] = all at h
  induction h generalizing tokens with
  | nil hlayout =>
      subst hall
      have hmem : t ∈ significant (tokens ++ [t]) := by
        simp [significant, ht, TokenKind.isLayout]
      simp [hlayout] at hmem
  | @item layout front rest d declarations hlayout hitem hrest ih =>
      rcases List.eq_nil_or_concat rest with rfl | ⟨rest, u, rfl⟩
      · -- The line break ends the last item, which therefore is the line break.
        obtain rfl := hrest.eq_nil
        rcases hitem.last_kind with ⟨u, rfl, rfl⟩ | ⟨u, hu, hkind⟩
        · obtain ⟨rfl, _⟩ := List.append_inj' hall rfl
          exact .nil hlayout
        · have hlast := mem_getLast?_of_append_eq hall hitem.ne_nil
          rw [Option.mem_unique hu hlast, ht] at hkind
          cases hkind
      · rw [List.concat_eq_append, ← List.append_assoc, ← List.append_assoc] at hall
        obtain ⟨rfl, hu⟩ := List.append_inj' hall rfl
        cases hu
        rw [List.append_assoc]
        exact .item hlayout hitem (ih List.concat_eq_append.symm)
  | @directive layout front rest d declarations hlayout hline hhead hrest ih =>
      rcases List.eq_nil_or_concat rest with rfl | ⟨rest, u, rfl⟩
      · have hlast := mem_getLast?_of_append_eq hall hline.ne_nil
        exact absurd ht (hline.kind_ne_newline t (List.mem_of_getLast? hlast))
      · rw [List.concat_eq_append, ← List.append_assoc, ← List.append_assoc] at hall
        obtain ⟨rfl, hu⟩ := List.append_inj' hall rfl
        cases hu
        rw [List.append_assoc]
        refine .directive hlayout hline ?_ (ih List.concat_eq_append.symm)
        cases rest with
        | nil => simp
        | cons v rest => exact hhead

end Grammar

/-! ## A source in blocks -/

open Lexicon Session

/-- A carriage return alone is a line break. -/
theorem kind_of_carriageReturn {source : Bytes} {t : Token} (ht : t ∈ tokenize source)
    (hvalid : t.kind ≠ .invalid) (htext : t.text = [carriageReturn]) : t.kind = .newline := by
  have hmem : (t.kind, t.text) ∈ (tokenize source).map Token.spelling := List.mem_map_of_mem ht
  rcases (cut_tokenize source).mem_cases hmem with hkind | ⟨hkind, _⟩
  · rw [htext] at hkind
    exact hkind.unique (firstKind_of_accepted? (by decide))
  · exact absurd hkind hvalid

theorem readsThrough_of_items {o : ReadOptions} {tokens : List Token} {t : Token}
    {declarations : List Declaration} (h : Grammar.Items o (tokens ++ [t]) declarations)
    (ht : t.kind = .newline) :
    ReadsThrough { o with collect := true } (tokens ++ [t]) declarations 0 := by
  intro more linkage before diagnostics
  have hseparated : Grammar.Separated (tokens ++ [t]) more := .inr (by simpa using ht)
  have hrun := Grammar.run_items true h hseparated linkage before diagnostics
  exact ⟨[], rfl, by simpa using hrun⟩

section

variable {multilineEnum noInlineEnum : Bool} {source : Bytes}

/-- A source and a line feed behind it are cut into the tokens of the source and a line break. A
carriage return at the end of the source belongs to the line break. -/
theorem exists_lineCut (hvalid : ∀ t ∈ tokenize source, t.kind ≠ .invalid) :
    ∃ front gap newline, tokenize source = front ++ gap ∧ (∀ t ∈ gap, t.kind = .newline) ∧
      newline.kind = .newline ∧ LineCut source ((front ++ [newline]).map Token.spelling) := by
  have hcut := cut_tokenize source
  by_cases hreturn : ∃ t ∈ (tokenize source).getLast?, t.text = [carriageReturn]
  · obtain ⟨t, ht, htext⟩ := hreturn
    have hkind := kind_of_carriageReturn (List.mem_of_getLast? ht)
      (hvalid t (List.mem_of_getLast? ht)) htext
    obtain ⟨front, hfront⟩ := List.getLast?_eq_some_iff.mp ht
    rw [hfront] at hvalid hcut
    rw [List.map_append, List.map_singleton, Token.spelling, htext] at hcut
    have hvalid' : ∀ token ∈ front.map Token.spelling, token.1 ≠ .invalid :=
      List.forall_mem_map.mpr (List.forall_mem_append.mp hvalid).1
    let newline : Token := ⟨.newline, [carriageReturn, lineFeed], .start⟩
    refine ⟨front, [t], newline, hfront, by simpa using hkind, rfl, ?_⟩
    simpa [newline, Token.spelling] using hcut.lineCut_carriageReturn hvalid'
  · have hvalid' : ∀ token ∈ (tokenize source).map Token.spelling, token.1 ≠ .invalid :=
      List.forall_mem_map.mpr hvalid
    have hreturn' : ∀ token ∈ ((tokenize source).map Token.spelling).getLast?,
        token.2 ≠ [carriageReturn] := by
      intro token htoken htext
      rw [List.getLast?_map, Option.mem_map] at htoken
      obtain ⟨t, ht, rfl⟩ := htoken
      exact hreturn ⟨t, ht, htext⟩
    let newline : Token := ⟨.newline, [lineFeed], .start⟩
    refine ⟨tokenize source, [], newline, by simp, by simp, rfl, ?_⟩
    simpa [newline, Token.spelling] using hcut.lineCut hvalid' hreturn'

theorem Grammar.Items.of_append_newlines {o : ReadOptions} {front gap : List Token}
    {declarations : List Declaration} (h : Items o (front ++ gap) declarations)
    (hgap : ∀ t ∈ gap, t.kind = .newline) : Items o front declarations := by
  induction gap using List.reverseRecOn with
  | nil => simpa using h
  | append_singleton gap t ih =>
      rw [List.forall_mem_append] at hgap
      rw [← List.append_assoc] at h
      exact ih (h.of_append_newline (hgap.2 t (List.mem_singleton_self t))) hgap.1

/-- An accepted source and a line feed behind it are cut into tokens that are read as the source
is. -/
theorem exists_lineCut_readsThrough (hvalid : ∀ t ∈ tokenize source, t.kind ≠ .invalid)
    (haccepted : (readHeader ⟨false, multilineEnum, noInlineEnum⟩ source).fault = none) :
    ∃ tokens, LineCut source (tokens.map Token.spelling) ∧
      ReadsThrough ⟨true, multilineEnum, noInlineEnum⟩ tokens
        (readHeader ⟨false, multilineEnum, noInlineEnum⟩ source).declarations 0 := by
  have hitems : Grammar.Items ⟨false, multilineEnum, noInlineEnum⟩ (tokenize source)
      (readHeader ⟨false, multilineEnum, noInlineEnum⟩ source).declarations :=
    (Grammar.readTokens_accepts_iff rfl).mp ⟨rfl, haccepted⟩
  obtain ⟨front, gap, newline, hsource, hgap, hnewline, hcut⟩ := exists_lineCut hvalid
  rw [hsource] at hitems
  exact ⟨front ++ [newline], hcut,
    readsThrough_of_items ((hitems.of_append_newlines hgap).append_newline hnewline) hnewline⟩

/-- The tokens of a block around a text. -/
theorem cut_linkageBlock {literal s more : Bytes} {tokens : List Token}
    {others : List (TokenKind × Bytes)}
    (hliteral : (LexicalRule.quoted .stringLiteral 0x22).pattern.Matches literal)
    (h : LineCut s (tokens.map Token.spelling)) (hslash : 0x2F ∉ more) (hmore : Cut more others) :
    Cut (linkageBlock literal s ++ more)
      ((linkageOpening literal ++ (tokens ++ linkageClosing)).map Token.spelling ++ others) := by
  have hclosing := cut_linkageClosing hmore
  have hslash' : 0x2F ∉ ascii "\x7d\n" ++ more := by
    rw [List.mem_append, not_or]
    exact ⟨by decide, hslash⟩
  have hinside := h _ _ hslash' hclosing
  have hblock := cut_linkageOpening hliteral hinside
  have htext : linkageBlock literal s ++ more =
      ascii "extern " ++ literal ++ ascii " \x7b\n" ++
        (s ++ lineFeed :: (ascii "\x7d\n" ++ more)) := by
    rw [linkageBlock, List.append_assoc, List.append_assoc _ s]
    rfl
  rw [htext]
  simpa only [List.map_append, List.append_assoc] using hblock

theorem exists_lineCut_inLinkageBlocks {literals : List Bytes}
    (hvalid : ∀ t ∈ tokenize source, t.kind ≠ .invalid)
    (haccepted : (readHeader ⟨false, multilineEnum, noInlineEnum⟩ source).fault = none)
    (hliterals : ∀ literal ∈ literals,
      (LexicalRule.quoted .stringLiteral 0x22).pattern.Matches literal) :
    ∃ tokens, LineCut (inLinkageBlocks literals source) (tokens.map Token.spelling) ∧
      ReadsThrough ⟨true, multilineEnum, noInlineEnum⟩ tokens
        (readHeader ⟨false, multilineEnum, noInlineEnum⟩ source).declarations literals.length := by
  induction literals with
  | nil => exact exists_lineCut_readsThrough hvalid haccepted
  | cons literal literals ih =>
      obtain ⟨hliteral, hliterals⟩ := List.forall_mem_cons.mp hliterals
      obtain ⟨tokens, hcut, hreads⟩ := ih hliterals
      let newline : Token := ⟨.newline, [lineFeed], .start⟩
      refine ⟨linkageOpening literal ++ (tokens ++ linkageClosing) ++ [newline], ?_, ?_⟩
      · intro more others hslash hmore
        have hbreak : Cut (lineFeed :: more) ((.newline, [lineFeed]) :: others) :=
          .word (longestWord_lineFeed more) hmore
        have hblock := cut_linkageBlock hliteral hcut (by simpa [lineFeed] using hslash) hbreak
        simpa [newline, Token.spelling, inLinkageBlocks] using hblock
      · exact (hreads.block rfl literal).append_newline rfl

end

/-- The tokens of an accepted source in blocks are read to the end without a fault that stops the
session, and no block is left open. -/
theorem exists_run_inLinkageBlocks {multilineEnum noInlineEnum : Bool} {source : Bytes}
    {literals : List Bytes} (hvalid : ∀ t ∈ tokenize source, t.kind ≠ .invalid)
    (haccepted : (readHeader ⟨false, multilineEnum, noInlineEnum⟩ source).fault = none)
    (hliterals : ∀ literal ∈ literals,
      (LexicalRule.quoted .stringLiteral 0x22).pattern.Matches literal) :
    ∃ (tokens : List Token) (faults : List Fault),
      (tokenize (inLinkageBlocks literals source)).map Token.spelling =
        tokens.map Token.spelling ∧
      faults.map Fault.cause = List.replicate literals.length .linkageBlock ∧
      run ⟨true, multilineEnum, noInlineEnum⟩ (.ofTokens tokens) =
        (⟨[], 0, (readHeader ⟨false, multilineEnum, noInlineEnum⟩ source).declarations.toArray,
          faults.toArray⟩, none) := by
  cases literals with
  | nil =>
      have hitems : Grammar.Items ⟨false, multilineEnum, noInlineEnum⟩ (tokenize source)
          (readHeader ⟨false, multilineEnum, noInlineEnum⟩ source).declarations :=
        (Grammar.readTokens_accepts_iff rfl).mp ⟨rfl, haccepted⟩
      have hend : Grammar.Separated (tokenize source) [] := .inl rfl
      have hrun := Grammar.run_items true hitems hend 0 #[] #[]
      refine ⟨tokenize source, [], rfl, rfl, ?_⟩
      rw [List.append_nil, run_nil] at hrun
      simpa [ofTokens] using hrun
  | cons literal literals =>
      obtain ⟨hliteral, hliterals⟩ := List.forall_mem_cons.mp hliterals
      obtain ⟨tokens, hcut, hreads⟩ :=
        exists_lineCut_inLinkageBlocks hvalid haccepted hliterals
      have hslash : 0x2F ∉ ([] : Bytes) := by simp
      have hblock := cut_linkageBlock hliteral hcut hslash .nil
      rw [List.append_nil, List.append_nil] at hblock
      obtain ⟨faults, hcauses, hrun⟩ := hreads.block rfl literal [] 0 #[] #[]
      refine ⟨linkageOpening literal ++ (tokens ++ linkageClosing), faults,
        spelling_tokenize hblock, hcauses, ?_⟩
      rw [List.append_nil, run_nil] at hrun
      simpa [ofTokens] using hrun

/-- A collecting session reads an accepted source without invalid tokens in any number of linkage
blocks as the source is read alone. It notes each block and leaves none open. -/
theorem readHeader_inLinkageBlocks (multilineEnum noInlineEnum : Bool) {source : Bytes}
    {literals : List Bytes} (hvalid : ∀ t ∈ tokenize source, t.kind ≠ .invalid)
    (haccepted : (readHeader ⟨false, multilineEnum, noInlineEnum⟩ source).fault = none)
    (hliterals : ∀ literal ∈ literals,
      (LexicalRule.quoted .stringLiteral 0x22).pattern.Matches literal) :
    let read := readHeader ⟨false, multilineEnum, noInlineEnum⟩ source
    let collected :=
      readHeader ⟨true, multilineEnum, noInlineEnum⟩ (inLinkageBlocks literals source)
    collected.fault = none ∧ collected.declarations = read.declarations ∧
      collected.diagnostics.length = literals.length ∧
      (∀ fault ∈ collected.diagnostics, fault.cause = .linkageBlock) ∧
      (Session.run ⟨true, multilineEnum, noInlineEnum⟩
        (.ofSource (inLinkageBlocks literals source))).1.linkage = 0 := by
  intro read collected
  obtain ⟨tokens, faults, hspelling, hcauses, hrun⟩ :=
    exists_run_inLinkageBlocks hvalid haccepted hliterals
  obtain ⟨hdeclarations, hlinkage, hdiagnostics, hfault⟩ :=
    Session.run_eq_of_spelling ⟨true, multilineEnum, noInlineEnum⟩ hspelling
  rw [hrun] at hdeclarations hlinkage hdiagnostics hfault
  have hnoted : collected.diagnostics.map Fault.cause =
      List.replicate literals.length .linkageBlock := by
    rw [← hcauses]
    exact hdiagnostics
  refine ⟨?_, ?_, ?_, ?_, hlinkage⟩
  · exact Option.map_eq_none_iff.mp hfault
  · exact congrArg Array.toList hdeclarations
  · simpa using congrArg List.length hnoted
  · intro fault hmem
    exact List.eq_of_mem_replicate (hnoted ▸ List.mem_map_of_mem hmem)

/-- Two blocks around a source that ends with a carriage return and opens a comment that it does not
close. -/
theorem readHeader_inLinkageBlocks_carriageReturn :
    let source := ascii "#define B /*\rint f();\r"
    let literals := [ascii "\"C\"", ascii "\"a\\\"b\""]
    (readHeader ⟨true, false, false⟩ (inLinkageBlocks literals source)).declarations =
        [.macroName ⟨ascii "B", .define⟩, .prototype ⟨ascii "f", .scalar .int, []⟩] ∧
      (readHeader ⟨true, false, false⟩ (inLinkageBlocks literals source)).diagnostics.length = 2 ∧
      (Session.run ⟨true, false, false⟩
        (.ofSource (inLinkageBlocks literals source))).1.linkage = 0 := by
  intro source literals
  have hvalid : ∀ t ∈ tokenize source, t.kind ≠ .invalid := by
    decide +kernel
  have haccepted : (readHeader ⟨false, false, false⟩ source).fault = none := by
    decide +kernel
  have hliterals : ∀ literal ∈ literals,
      (LexicalRule.quoted .stringLiteral 0x22).pattern.Matches literal := by
    decide +kernel
  obtain ⟨_, hdeclarations, hlength, _, hlinkage⟩ :=
    readHeader_inLinkageBlocks false false hvalid haccepted hliterals
  refine ⟨hdeclarations.trans ?_, hlength, hlinkage⟩
  decide +kernel

end HeaderBinding
