import HeaderBinding.Proofs.Reading.Enumerators
import HeaderBinding.Proofs.Token.Joining

/-!
# The texts of enumerators

The text of an enumerator is what is left of its tokens without comments and without the blanks
around it. Neighbours that a comment kept apart may grow together, but no comment comes to stand
where there was none, and literals stay whole: before a comma or a closing brace the text is cut
into tokens that an enumerator may hold again.
-/

namespace HeaderBinding

/-! ## Marks -/

/-- Two bytes stand side by side in a text if they do in one of its parts, or meet between them. -/
theorem pair_infix_append_iff {α : Type} {a b : α} {x y : List α} :
    [a, b] <:+: x ++ y ↔
      [a, b] <:+: x ∨ [a, b] <:+: y ∨ (x.getLast? = some a ∧ y.head? = some b) := by
  induction x with
  | nil => simp
  | cons c x ih =>
      rw [List.cons_append, List.infix_cons_iff, ih, List.infix_cons_iff]
      cases x with
      | nil =>
          cases y with
          | nil => simp [List.cons_prefix_cons]
          | cons d y =>
              simp [List.cons_prefix_cons]
              grind
      | cons d x => simp [List.cons_prefix_cons, or_assoc]

/-- A comment is closed somewhere in the text. -/
def ClosesComment (s : Bytes) : Prop := ascii "*/" <:+: s

theorem not_closesComment_nil : ¬ ClosesComment [] := by
  simp [ClosesComment, ascii]

theorem closesComment_append_iff {x y : Bytes} :
    ClosesComment (x ++ y) ↔
      ClosesComment x ∨ ClosesComment y ∨ (x.getLast? = some 0x2A ∧ y.head? = some 0x2F) :=
  pair_infix_append_iff

/-- Across a byte that is no part of a mark, no comment is closed. -/
theorem closesComment_across {x y : Bytes} {b : UInt8} (hb : b ≠ 0x2A ∧ b ≠ 0x2F)
    (h : ClosesComment (x ++ b :: y)) : ClosesComment x ∨ ClosesComment y := by
  rcases closesComment_append_iff.mp h with hx | hy | ⟨-, hhead⟩
  · exact .inl hx
  · rcases List.infix_cons_iff.mp hy with hstart | hy
    · exact absurd (List.cons_prefix_cons.mp hstart).1.symm hb.1
    · exact .inr hy
  · exact absurd (Option.some.inj hhead) hb.2

theorem closesComment_cons {y : Bytes} {b : UInt8} (hb : b ≠ 0x2A ∧ b ≠ 0x2F)
    (h : ClosesComment (b :: y)) : ClosesComment y :=
  (closesComment_across (x := []) hb h).resolve_left not_closesComment_nil

/-! ## Clean texts -/

open Lexicon

/-- The bytes that stand alone in the text of an enumerator: operators, the directive mark,
parentheses, brackets, stars and blanks. -/
def plainMarks : Bytes := ascii "+-/%&|^~!<>=?:.#()[]*\t\x0b\x0c "

/-- The bytes of an enumerator outside literals. -/
def isPlain (b : UInt8) : Bool :=
  isWord b || plainMarks.contains b

/-- Behind a slash no comment opens: no slash follows, and a star only if no comment is closed, be
it in the text or in what follows it. -/
def OpensNone (closed : Prop) (s : Bytes) : Prop :=
  s.head? ≠ some 0x2F ∧ (s.head? = some 0x2A → ¬ closed ∧ ¬ ClosesComment s.tail)

/-- Plain bytes and whole literals with no comment among them. What follows the text may close a
comment. -/
inductive Clean (closed : Prop) : Bytes → Prop where
  | nil : Clean closed []
  | plain {b : UInt8} {s : Bytes} (hb : isPlain b = true) (hopens : b = 0x2F → OpensNone closed s)
      (hs : Clean closed s) : Clean closed (b :: s)
  | literal {q : TokenKind × Char} {l s : Bytes} (hl : IsLiteral q l) (hs : Clean closed s) :
      Clean closed (l ++ s)

/-! ## Clean texts are cut into tokens of enumerators -/

/-- The kinds of tokens whose texts an enumerator holds. -/
def isTextKind (kind : TokenKind) : Bool :=
  kind ∉ [.comment, .newline, .comma, .leftBrace, .rightBrace, .semicolon, .invalid]

theorem isTextKind_iff {t : Token} :
    isTextKind t.kind = true ↔
      Grammar.endsEnumerator t = false ∧ Grammar.isEnumeratorText t = true := by
  simp only [isTextKind, Grammar.endsEnumerator, Grammar.isEnumeratorText]
  cases t.kind <;> decide

/-- A text that an enumerator holds is no invalid run. -/
theorem Lexical.firstKind_of_isTextKind {tokens : List Token} {t : Token} (h : Lexical tokens)
    (ht : t ∈ tokens) (hkind : isTextKind t.kind = true) : FirstKind entries t.text t.kind := by
  refine h.firstKind ht fun hinvalid => ?_
  rw [hinvalid] at hkind
  cases hkind

/-- The bytes at which a word that starts with a plain one has ended, comments apart. -/
def stops : Bytes := ascii "\"',;\x7b\x7d\n\r"

theorem not_mem_stops_of_isPlain {b : UInt8} (hb : isPlain b = true) : b ∉ stops := by
  have hstops : ∀ b ∈ stops, isPlain b = false := by decide +kernel
  intro hmem
  rw [hstops b hmem] at hb
  cases hb

theorem word_of_isPlain {b : UInt8} (hb : isPlain b = true) : Word entries [b] := by
  rw [isPlain, isWord, Bool.or_eq_true, Bool.or_eq_true] at hb
  rcases hb with (hstart | hdigit) | hmark
  · refine word_entries_iff.mpr ⟨.identifier, by decide, matches_identifier_iff.mpr ?_⟩
    simp [Bytes.isIdentifier, hstart]
  · refine word_entries_iff.mpr ⟨.number, by decide, ?_⟩
    simp only [isDigit, Bool.and_eq_true, decide_eq_true_eq] at hdigit
    exact Pattern.Matches.seq (s := [b]) (t := []) (.range hdigit.1 hdigit.2) .starNil
  · have hmarks : ∀ b ∈ plainMarks,
        (Lexer.accepted? (Lexer.advance b LexicalRule.all)).isSome = true := by
      decide +kernel
    obtain ⟨kind, hkind⟩ := Option.isSome_iff_exists.mp (hmarks b (by simpa using hmark))
    exact word_iff_firstKind.mpr ⟨kind, firstKind_of_accepted? (u := [b]) hkind⟩

/-- The rules for line breaks, literals and the marks that end enumerators. -/
def stopRules : List LexicalRule :=
  [.newline, .quoted .stringLiteral 0x22, .quoted .charLiteral 0x27, .fixed .leftBrace "\x7b",
   .fixed .rightBrace "\x7d", .fixed .semicolon ";", .fixed .comma ","]

theorem mem_stops_of_matches {rule : LexicalRule} {b : UInt8} {s : Bytes} (hrule : rule ∈ stopRules)
    (h : rule.pattern.Matches (b :: s)) : b ∈ stops := by
  have hquoted {q : TokenKind × Char} (hq : q ∈ quotes)
      (h : (LexicalRule.quoted q.1 (byteOfChar q.2)).pattern.Matches (b :: s)) :
      b = byteOfChar q.2 := by
    obtain ⟨w, hw, -⟩ := quoted_of_matches hq h
    rw [utf8_quote hq] at hw
    exact (List.cons.inj hw).1.symm
  have hfixed {kind : TokenKind} {t : String}
      (h : (LexicalRule.fixed kind t).pattern.Matches (b :: s)) : b :: s = ascii t :=
    Pattern.matches_literal_iff.mp h
  simp only [stopRules, List.mem_cons, List.not_mem_nil, or_false] at hrule
  rcases hrule with rfl | rfl | rfl | rfl | rfl | rfl | rfl
  · rcases matches_newline_iff.mp h with hs | hs | hs <;> cases hs <;> decide
  · rw [hquoted (q := (.stringLiteral, '\x22')) (by decide) h]
    decide
  · rw [hquoted (q := (.charLiteral, '\x27')) (by decide) h]
    decide
  all_goals
    cases hfixed h
    decide

/-- What a rule that starts with a plain byte matches: a comment, or a text of an enumerator that
holds no stop. -/
theorem rule_cases_of_isPlain {rule : LexicalRule} {b : UInt8} {s : Bytes} (hb : isPlain b = true)
    (hrule : rule ∈ LexicalRule.all) (h : rule.pattern.Matches (b :: s)) :
    rule = .lineComment ∨ rule = .blockComment ∨
      isTextKind rule.kind = true ∧ ∀ c ∈ b :: s, c ∉ stops := by
  have hrules : ∀ rule ∈ LexicalRule.all, rule = .lineComment ∨ rule = .blockComment ∨
      rule ∈ stopRules ∨
        isTextKind rule.kind = true ∧ ∀ c ∈ stops, rule.pattern.avoids c = true := by
    decide +kernel
  rcases hrules rule hrule with hline | hblock | hstops | ⟨hkind, havoids⟩
  · exact .inl hline
  · exact .inr (.inl hblock)
  · exact absurd (mem_stops_of_matches hstops h) (not_mem_stops_of_isPlain hb)
  · refine .inr (.inr ⟨hkind, fun c hc hstop => ?_⟩)
    exact Pattern.not_mem_of_avoids (havoids c hstop) h hc

theorem exists_longestWord {b : UInt8} (h : Word entries [b]) (s : Bytes) :
    ∃ u kind, LongestWord entries (b :: s) u kind := by
  have hmatched : ¬ Unmatched entries (b :: s) :=
    fun hunmatched => hunmatched [b] (by simp) (by simp) h
  have hcut := cut_tokenize (b :: s)
  generalize (tokenize (b :: s)).map Token.spelling = tokens at hcut
  generalize htext : b :: s = text at hcut hmatched ⊢
  cases hcut with
  | nil => cases htext
  | word hlongest => exact ⟨_, _, hlongest⟩
  | invalid hunmatched => exact absurd hunmatched hmatched

section

variable {closed : Prop} {s u w : Bytes} {b c : UInt8}

theorem getLast?_of_stars (h : (Pattern.oneOrMore (.byte 0x2A)).Matches s) :
    s.getLast? = some 0x2A := by
  obtain ⟨first, others, hfirst, hothers, rfl⟩ := Pattern.matches_seq_iff.mp h
  have hall : others.all (· == 0x2A) = true := by
    refine (matches_star_class_iff (P := (· == 0x2A)) ?_).mp hothers
    intro t
    simp [Pattern.matches_byte_iff]
  rw [Pattern.matches_byte_iff.mp hfirst, List.getLast?_append]
  cases hlast : others.getLast? with
  | none => rfl
  | some b =>
      have hb := List.all_eq_true.mp hall b (List.mem_of_getLast? hlast)
      rw [beq_iff_eq.mp hb]
      rfl

/-- A comment opens with two slashes or is closed behind a slash and a star. -/
theorem comment_marks {rule : LexicalRule} (hrule : rule = .lineComment ∨ rule = .blockComment)
    (h : rule.pattern.Matches s) :
    ascii "//" <+: s ∨ ∃ inside, s = ascii "/*" ++ inside ∧ ClosesComment inside := by
  rcases hrule with rfl | rfl
  · obtain ⟨opening, inside, hopening, -, rfl⟩ := Pattern.matches_seq_iff.mp h
    rw [Pattern.matches_literal_iff.mp hopening]
    exact .inl (List.prefix_append _ _)
  · simp only [LexicalRule.blockComment, Pattern.inOrder] at h
    obtain ⟨opening, _, hopening, hrest, rfl⟩ := Pattern.matches_seq_iff.mp h
    obtain ⟨inside, _, -, hclosing, rfl⟩ := Pattern.matches_seq_iff.mp hrest
    obtain ⟨stars, slash, hstars, hslash, rfl⟩ := Pattern.matches_seq_iff.mp hclosing
    rw [Pattern.matches_literal_iff.mp hopening, Pattern.matches_byte_iff.mp hslash]
    refine .inr ⟨inside ++ (stars ++ [0x2F]), rfl, ?_⟩
    rw [closesComment_append_iff, closesComment_append_iff]
    exact .inr (.inl (.inr (.inr ⟨getLast?_of_stars hstars, rfl⟩)))

/-- Where a clean text goes on, no comment starts. -/
theorem OpensNone.not_comment (h : OpensNone closed s) (hc : c = 0x2C ∨ c = 0x7D)
    (hclosed : ClosesComment (c :: w) → closed) {rule : LexicalRule}
    (hrule : rule = .lineComment ∨ rule = .blockComment) (hu : u <+: 0x2F :: (s ++ c :: w)) :
    ¬ rule.pattern.Matches u := by
  intro hmatch
  have hbyte : c ≠ 0x2A ∧ c ≠ 0x2F := by
    rcases hc with rfl | rfl <;> decide
  rcases comment_marks hrule hmatch with hslashes | ⟨inside, rfl, hinside⟩
  · -- The second slash would be the first byte of the text, or the byte behind it.
    obtain ⟨-, hsecond⟩ := List.cons_prefix_cons.mp (hslashes.trans hu)
    cases s with
    | nil => exact hbyte.2 (List.cons_prefix_cons.mp hsecond).1.symm
    | cons a s =>
        obtain ⟨rfl, -⟩ := List.cons_prefix_cons.mp hsecond
        exact h.1 rfl
  · obtain ⟨-, hsecond⟩ := List.cons_prefix_cons.mp hu
    cases s with
    | nil => exact hbyte.1 (List.cons_prefix_cons.mp hsecond).1.symm
    | cons a s =>
        obtain ⟨rfl, hrest⟩ := List.cons_prefix_cons.mp hsecond
        obtain ⟨hnot, htail⟩ := h.2 rfl
        have hcloses : ClosesComment (s ++ c :: w) := hinside.trans hrest.isInfix
        rcases closesComment_across hbyte hcloses with hs | hw
        · exact htail hs
        · exact hnot (hclosed (hw.trans (List.suffix_cons c w).isInfix))

/-- A word without stops that starts in a clean text ends in it. -/
theorem Clean.split (h : Clean closed s) (hu : u <+: s ++ c :: w) (hstops : ∀ b ∈ u, b ∉ stops)
    (hc : c ∈ stops) : ∃ rest, s = u ++ rest ∧ Clean closed rest := by
  induction u generalizing s with
  | nil => exact ⟨s, rfl, h⟩
  | cons a u ih =>
      obtain ⟨ha, hothers⟩ := List.forall_mem_cons.mp hstops
      cases h with
      | nil =>
          obtain ⟨rfl, -⟩ := List.cons_prefix_cons.mp hu
          exact absurd hc ha
      | plain _ _ hs =>
          obtain ⟨rfl, hrest⟩ := List.cons_prefix_cons.mp hu
          obtain ⟨rest, rfl, hclean⟩ := ih hs hrest hothers
          exact ⟨rest, rfl, hclean⟩
      | literal hl _ =>
          obtain ⟨tail, rfl, -⟩ := hl.exists_tail
          rw [utf8_quote hl.1] at hu
          obtain ⟨rfl, -⟩ := List.cons_prefix_cons.mp hu
          have hquotes : ∀ q ∈ quotes, byteOfChar q.2 ∈ stops := by decide
          exact absurd (hquotes _ hl.1) ha

/-- The longest word at a plain byte of a clean text is a token of an enumerator, and the text goes
on behind it. -/
theorem Clean.exists_word (h : Clean closed (b :: s)) (hb : isPlain b = true)
    (hopens : b = 0x2F → OpensNone closed s) (hc : c = 0x2C ∨ c = 0x7D)
    (hclosed : ClosesComment (c :: w) → closed) :
    ∃ u rest kind, b :: s = u ++ rest ∧ LongestWord entries (u ++ (rest ++ c :: w)) u kind ∧
      isTextKind kind = true ∧ Clean closed rest := by
  obtain ⟨u, kind, hlongest⟩ := exists_longestWord (word_of_isPlain hb) (s ++ c :: w)
  obtain ⟨u, rfl⟩ : ∃ tail, u = b :: tail := by
    obtain ⟨a, tail, rfl⟩ := List.exists_cons_of_ne_nil hlongest.ne_nil
    exact ⟨tail, by rw [(List.cons_prefix_cons.mp hlongest.starts).1]⟩
  obtain ⟨rule, hrule, rfl, hmatch⟩ := hlongest.kind_eq.rule
  have hnot (hcomment : rule = .lineComment ∨ rule = .blockComment) : False := by
    have hslash : b = 0x2F := by
      rcases comment_marks hcomment hmatch with hslashes | ⟨inside, heq, -⟩
      · exact (List.cons_prefix_cons.mp hslashes).1.symm
      · exact (List.cons.inj heq).1
    subst hslash
    exact (hopens rfl).not_comment hc hclosed hcomment hlongest.starts hmatch
  have hstop : c ∈ stops := by
    rcases hc with rfl | rfl <;> decide
  rcases rule_cases_of_isPlain hb hrule hmatch with hline | hblock | ⟨hkind, hstops⟩
  · exact (hnot (.inl hline)).elim
  · exact (hnot (.inr hblock)).elim
  · obtain ⟨rest, hrest, hclean⟩ := h.split hlongest.starts hstops hstop
    refine ⟨_, rest, _, hrest, ?_, hkind, hclean⟩
    rw [← List.append_assoc, ← hrest]
    exact hlongest

/-- In front of another text, a text is cut into tokens of an enumerator. -/
def CutsBefore (w s : Bytes) : Prop :=
  ∃ piece : List Token, Token.concat piece = s ∧ (∀ t ∈ piece, isTextKind t.kind = true) ∧
    ∀ later, Token.concat later = w → Lexical later → Lexical (piece ++ later)

theorem CutsBefore.append_word {kind : TokenKind} (h : CutsBefore w s)
    (hlongest : LongestWord entries (u ++ (s ++ w)) u kind) (hkind : isTextKind kind = true) :
    CutsBefore w (u ++ s) := by
  obtain ⟨piece, rfl, hkinds, hlexical⟩ := h
  refine ⟨.spelled kind u :: piece, rfl, List.forall_mem_cons.mpr ⟨hkind, hkinds⟩, ?_⟩
  intro later hw hlater
  refine (hlexical later hw hlater).cons ?_
  rw [Token.concat_append, hw]
  exact hlongest

/-- By induction on the length of the text: at each place stands a literal, or the longest word at a
plain byte. -/
theorem Clean.cutsBefore (h : Clean closed s) (hc : c = 0x2C ∨ c = 0x7D)
    (hclosed : ClosesComment (c :: w) → closed) : CutsBefore (c :: w) s := by
  induction hlength : s.length using Nat.strong_induction_on generalizing s with
  | _ n ih =>
      subst hlength
      cases h with
      | nil => exact ⟨[], rfl, nofun, fun later _ hlater => hlater⟩
      | @literal q l s hl hs =>
          have hlongest := hl.longestWord (s ++ c :: w)
          have hshorter : s.length < (l ++ s).length := by
            have := List.length_pos_iff.mpr hlongest.ne_nil
            rw [List.length_append]
            omega
          have hkinds : ∀ q ∈ quotes, isTextKind q.1 = true := by decide
          exact (ih _ hshorter hs rfl).append_word hlongest (hkinds q hl.1)
      | @plain b s hb hopens hs =>
          obtain ⟨u, rest, kind, hsplit, hlongest, hkind, hclean⟩ :=
            (Clean.plain hb hopens hs).exists_word hb hopens hc hclosed
          have hshorter : rest.length < (b :: s).length := by
            have := List.length_pos_iff.mpr hlongest.ne_nil
            rw [hsplit, List.length_append]
            omega
          rw [hsplit]
          exact (ih _ hshorter hclean rfl).append_word hlongest hkind

end

/-! ## Enumerators of a source are clean -/

section

variable {closed : Prop} {s u : Bytes} {kind : TokenKind}

theorem Lexicon.FirstKind.head?_of_comment (h : FirstKind entries u .comment) :
    u.head? = some 0x2F := by
  have hrules : ∀ rule ∈ LexicalRule.all, rule.kind = .comment →
      rule = .lineComment ∨ rule = .blockComment := by
    decide
  obtain ⟨rule, hrule, hkind, hmatch⟩ := h.rule
  rcases comment_marks (hrules rule hrule hkind) hmatch with ⟨rest, rfl⟩ | ⟨inside, rfl, -⟩
  · rfl
  · rfl

/-- A token of an enumerator is a literal, a slash, or plain without a slash. -/
theorem Lexicon.FirstKind.text_cases (h : FirstKind entries u kind)
    (hkind : isTextKind kind = true) :
    (∃ q, IsLiteral q u) ∨ u = [0x2F] ∨ ∀ b ∈ u, isPlain b = true ∧ b ≠ 0x2F := by
  have hrules : ∀ rule ∈ LexicalRule.all, isTextKind rule.kind = true →
      rule.kind ∈ quotes.map Prod.fst ∨ rule = .operator ∨
        rule.pattern.within (fun b => isPlain b && b != 0x2F) = true := by
    decide +kernel
  obtain ⟨rule, hrule, rfl, hmatch⟩ := h.rule
  rcases hrules rule hrule hkind with hquote | rfl | hwithin
  · obtain ⟨q, hq, hsame⟩ := List.mem_map.mp hquote
    rw [← hsame] at h
    exact .inl ⟨q, hq, h⟩
  · obtain ⟨b, hb, rfl⟩ := matches_byteOf_iff.mp hmatch
    by_cases hslash : b = 0x2F
    · exact .inr (.inl (by rw [hslash]))
    · have hoperators : ∀ b ∈ ascii "+-/%&|^~!<>=?:.", isPlain b = true := by
        decide +kernel
      refine .inr (.inr fun c hc => ?_)
      rw [List.mem_singleton.mp hc]
      exact ⟨hoperators b hb, hslash⟩
  · refine .inr (.inr fun b hb => ?_)
    simpa using Pattern.all_of_within hwithin hmatch b hb

theorem Clean.append_plain (h : Clean closed s) (hu : ∀ b ∈ u, isPlain b = true ∧ b ≠ 0x2F) :
    Clean closed (u ++ s) := by
  induction u with
  | nil => exact h
  | cons b u ih =>
      obtain ⟨⟨hb, hslash⟩, hothers⟩ := List.forall_mem_cons.mp hu
      exact .plain hb (fun heq => absurd heq hslash) (ih hothers)

end

/-- The texts of the tokens of an enumerator, without comments. -/
def keptText (piece : List Token) : Bytes :=
  Token.concat (piece.filter Grammar.isEnumeratorText)

/-- The tokens of an enumerator: its texts and the comments among them. -/
def isPieceKind (kind : TokenKind) : Bool :=
  kind == .comment || isTextKind kind

section

variable {piece later : List Token} {t : Token}

theorem keptText_cons_of_text (ht : isTextKind t.kind = true) :
    keptText (t :: piece) = t.text ++ keptText piece := by
  rw [keptText, List.filter_cons_of_pos (isTextKind_iff.mp ht).2, Token.concat_cons]
  rfl

theorem keptText_cons_of_comment (ht : t.kind = .comment) :
    keptText (t :: piece) = keptText piece := by
  rw [keptText, List.filter_cons_of_neg (by simp [Grammar.isEnumeratorText, ht])]
  rfl

theorem isPieceKind_cases (ht : isPieceKind t.kind = true) :
    t.kind = .comment ∨ isTextKind t.kind = true := by
  simpa [isPieceKind] using ht

theorem ne_invalid_of_isPieceKind (hpiece : ∀ t ∈ piece, isPieceKind t.kind = true) :
    ∀ t ∈ piece, t.kind ≠ .invalid := by
  intro t ht hinvalid
  have hkind := hpiece t ht
  rw [hinvalid] at hkind
  cases hkind

/-- Where comments are left out, a comment is closed only if one is closed where they stand: the
star before a comment closes one with the slash that the comment starts with. -/
theorem Lexical.closesComment (h : Lexical piece)
    (hpiece : ∀ t ∈ piece, isPieceKind t.kind = true) {x : Bytes}
    (hx : ClosesComment (x ++ keptText piece)) : ClosesComment (x ++ Token.concat piece) := by
  induction piece generalizing x with
  | nil => exact hx
  | cons t piece ih =>
      obtain ⟨ht, hothers⟩ := List.forall_mem_cons.mp hpiece
      rw [Token.concat_cons]
      rcases isPieceKind_cases ht with hcomment | htext
      · have hfirst := h.firstKind List.mem_cons_self (by simp [hcomment])
        have hslash := Lexicon.FirstKind.head?_of_comment (hcomment ▸ hfirst)
        rw [keptText_cons_of_comment hcomment] at hx
        rw [closesComment_append_iff, closesComment_append_iff, List.head?_append, hslash]
        rcases closesComment_append_iff.mp (ih h.tail hothers hx) with hx | hpiece | ⟨hstar, -⟩
        · exact .inl hx
        · exact .inr (.inl (.inr (.inl hpiece)))
        · exact .inr (.inr ⟨hstar, rfl⟩)
      · rw [keptText_cons_of_text htext, ← List.append_assoc] at hx
        rw [← List.append_assoc]
        exact ih h.tail hothers hx

/-- A slash that is a token of its own opens no comment with what follows it. -/
theorem Lexical.opensNone_concat (h : Lexical (t :: later)) (hslash : t.text = [0x2F])
    (hvalid : ∀ u ∈ t :: later, u.kind ≠ .invalid) : OpensNone False (Token.concat later) := by
  obtain ⟨ht, hlater⟩ := List.forall_mem_cons.mp hvalid
  have hlongest := h.longestWord ht
  rw [hslash] at hlongest
  refine ⟨fun hhead => ?_, fun hhead => ⟨id, fun hcloses => ?_⟩⟩
  · obtain ⟨s, hs⟩ := List.head?_eq_some_iff.mp hhead
    rw [hs] at hlongest
    exact absurd (hlongest.longest (ascii "//") ⟨s, rfl⟩ word_slashes) (by decide)
  · obtain ⟨s, hs⟩ := List.head?_eq_some_iff.mp hhead
    obtain ⟨cs, hcs⟩ := h.tail.exists_utf8 hlater
    obtain ⟨-, inside, -, -, hinside⟩ := utf8_split (a := '*') (x := [])
      (by decide) (by decide) (hcs.trans hs)
    rw [hs, List.tail_cons, ← hinside] at hcloses
    obtain ⟨v, hv, hword, hlength⟩ := exists_comment_word hcloses []
    rw [List.append_nil, hinside] at hv
    refine absurd (hlongest.longest v ?_ hword) (by simpa using hlength)
    rw [hs]
    exact hv

/-- Nor does it with what is kept of it: no comment follows the slash, so that the next byte is the
one that stood there. -/
theorem Lexical.opensNone (h : Lexical (t :: (piece ++ later))) (ht : t.kind ≠ .invalid)
    (hslash : t.text = [0x2F]) (hpiece : ∀ t ∈ piece, isPieceKind t.kind = true)
    (hlater : ∀ t ∈ later, t.kind ≠ .invalid) :
    OpensNone (ClosesComment (Token.concat later)) (keptText piece) := by
  have hvalid := List.forall_mem_append.mpr ⟨ne_invalid_of_isPieceKind hpiece, hlater⟩
  have hopens := h.opensNone_concat hslash (List.forall_mem_cons.mpr ⟨ht, hvalid⟩)
  cases piece with
  | nil => exact ⟨nofun, nofun⟩
  | cons u piece =>
      obtain ⟨hu, hothers⟩ := List.forall_mem_cons.mp hpiece
      have hu' := hvalid u List.mem_cons_self
      obtain ⟨b, text, htext⟩ := List.exists_cons_of_ne_nil (h.tail.longestWord hu').ne_nil
      rw [List.cons_append, Token.concat_cons, htext, List.cons_append] at hopens
      rcases isPieceKind_cases hu with hcomment | hkind
      · have hfirst := h.tail.firstKind List.mem_cons_self hu'
        have hhead := Lexicon.FirstKind.head?_of_comment (hcomment ▸ hfirst)
        rw [htext] at hhead
        exact absurd hhead hopens.1
      · rw [keptText_cons_of_text hkind, htext, List.cons_append]
        refine ⟨hopens.1, fun hhead => ?_⟩
        have hopen : ¬ ClosesComment (text ++ Token.concat (piece ++ later)) := (hopens.2 hhead).2
        rw [Token.concat_append, ← List.append_assoc, closesComment_append_iff] at hopen
        refine ⟨fun hcloses => hopen (.inr (.inl hcloses)), fun hcloses => hopen (.inl ?_)⟩
        exact h.tail.tail.front.closesComment hothers hcloses

/-- What is kept of the tokens of an enumerator is clean. -/
theorem Lexical.clean (h : Lexical (piece ++ later))
    (hpiece : ∀ t ∈ piece, isPieceKind t.kind = true) (hlater : ∀ t ∈ later, t.kind ≠ .invalid) :
    Clean (ClosesComment (Token.concat later)) (keptText piece) := by
  induction piece with
  | nil => exact .nil
  | cons t piece ih =>
      obtain ⟨ht, hothers⟩ := List.forall_mem_cons.mp hpiece
      have hclean := ih h.tail hothers
      rcases isPieceKind_cases ht with hcomment | htext
      · rw [keptText_cons_of_comment hcomment]
        exact hclean
      · have hvalid := ne_invalid_of_isPieceKind hpiece t List.mem_cons_self
        rw [keptText_cons_of_text htext]
        rcases (h.firstKind List.mem_cons_self hvalid).text_cases htext with
          ⟨q, hliteral⟩ | hslash | hplain
        · exact .literal hliteral hclean
        · rw [hslash]
          refine .plain (by decide) (fun _ => ?_) hclean
          exact Lexical.opensNone h hvalid hslash hothers hlater
        · exact hclean.append_plain hplain

end

/-! ## Blanks around a text -/

/-- A blank of one byte. -/
def Blank.isByte (b : UInt8) : Bool :=
  Blank.encodings.contains [b]

/-- Among encodings that start with an ASCII byte only if they are that byte, an ASCII byte at the
start of a text is cut off alone or not at all. -/
theorem dropEncodings_cons {encodings : List Bytes} {b : UInt8} {s : Bytes}
    (hencodings : ∀ e ∈ encodings, e ≠ [] ∧ ∀ c ∈ e.head?, c < 0x80 → e = [c]) (hb : b < 0x80) :
    Bytes.dropEncodings encodings (b :: s) =
      if [b] ∈ encodings then Bytes.dropEncodings encodings s else b :: s := by
  rw [Bytes.dropEncodings, Blank.matchLength]
  cases hfind : encodings.find? (·.isPrefixOf (b :: s)) with
  | none =>
      have hnot : [b] ∉ encodings := by
        intro hmem
        have := List.find?_eq_none.mp hfind [b] hmem
        simp at this
      rw [if_neg hnot]
  | some e =>
      have hmem := List.mem_of_find?_eq_some hfind
      obtain ⟨hne, hsingle⟩ := hencodings e hmem
      obtain ⟨c, e, rfl⟩ := List.exists_cons_of_ne_nil hne
      have hprefix : c :: e <+: b :: s := by simpa using List.find?_some hfind
      obtain ⟨rfl, -⟩ := List.cons_prefix_cons.mp hprefix
      cases hsingle c rfl hb
      rw [if_pos hmem]
      rfl

@[simp] theorem trimLeft_nil : Bytes.trimLeft [] = [] := by
  rw [Bytes.trimLeft, Bytes.dropEncodings]

@[simp] theorem trimRight_nil : Bytes.trimRight [] = [] := by
  rw [Bytes.trimRight, List.reverse_nil, Bytes.dropEncodings, List.reverse_nil]

theorem trimLeft_cons {b : UInt8} {s : Bytes} (hb : b < 0x80) :
    Bytes.trimLeft (b :: s) = if Blank.isByte b then Bytes.trimLeft s else b :: s := by
  rw [Bytes.trimLeft, dropEncodings_cons (by decide +kernel) hb]
  simp [Blank.isByte, Bytes.trimLeft]

theorem trimRight_concat {b : UInt8} {s : Bytes} (hb : b < 0x80) :
    Bytes.trimRight (s ++ [b]) = if Blank.isByte b then Bytes.trimRight s else s ++ [b] := by
  have hmem : [b] ∈ Blank.encodings.map List.reverse ↔ Blank.isByte b = true := by
    simp [Blank.isByte, List.reverse_eq_iff]
  rw [Bytes.trimRight, List.reverse_concat, dropEncodings_cons (by decide +kernel) hb]
  by_cases hblank : Blank.isByte b = true
  · rw [if_pos (hmem.mpr hblank), if_pos hblank, Bytes.trimRight]
  · rw [if_neg (mt hmem.mp hblank), if_neg hblank, List.reverse_cons, List.reverse_reverse]

/-- A text with an ASCII byte that is no blank at either end. -/
structure Bytes.Bounded (s : Bytes) : Prop where
  ne_nil : s ≠ []
  head : ∀ b ∈ s.head?, b < 0x80 ∧ Blank.isByte b = false
  last : ∀ b ∈ s.getLast?, b < 0x80 ∧ Blank.isByte b = false

theorem Bytes.Bounded.append {s u : Bytes} (hs : s.Bounded) (between : Bytes) (hu : u.Bounded) :
    Bytes.Bounded (s ++ (between ++ u)) where
  ne_nil := by simp [hs.ne_nil]
  head := by
    rw [List.head?_append_of_ne_nil _ hs.ne_nil]
    exact hs.head
  last := by
    rw [List.getLast?_append_of_ne_nil _ (by simp [hu.ne_nil]),
      List.getLast?_append_of_ne_nil _ hu.ne_nil]
    exact hu.last

theorem Bytes.Bounded.trimLeft_append {s : Bytes} (h : s.Bounded) (u : Bytes) :
    Bytes.trimLeft (s ++ u) = s ++ u := by
  obtain ⟨b, rest, rfl⟩ := List.exists_cons_of_ne_nil h.ne_nil
  obtain ⟨hascii, hblank⟩ := h.head b rfl
  rw [List.cons_append, trimLeft_cons hascii, hblank]
  rfl

theorem Bytes.Bounded.trimRight {s : Bytes} (h : s.Bounded) : Bytes.trimRight s = s := by
  obtain ⟨rest, b, rfl⟩ := (List.eq_nil_or_concat s).resolve_left h.ne_nil
  obtain ⟨hascii, hblank⟩ := h.last b (by simp)
  rw [List.concat_eq_append, trimRight_concat hascii, hblank]
  rfl

section

variable {closed : Prop} {a s t : Bytes} {b : UInt8}

theorem ascii_of_isWord (hb : isWord b = true) : b < 0x80 := by
  simp only [isWord, isIdentifierStart, isDigit, Bool.or_eq_true, Bool.and_eq_true,
    decide_eq_true_eq, beq_iff_eq, UInt8.le_iff_toNat_le, ← UInt8.toNat_inj] at hb
  simp only [UInt8.lt_iff_toNat_lt, UInt8.reduceToNat] at hb ⊢
  omega

theorem ascii_of_isPlain (hb : isPlain b = true) : b < 0x80 := by
  rw [isPlain, Bool.or_eq_true] at hb
  rcases hb with hword | hmark
  · exact ascii_of_isWord hword
  · have hmarks : ∀ b ∈ plainMarks, b < 0x80 := by decide +kernel
    exact hmarks b (by simpa using hmark)

theorem ascii_of_quote {q : TokenKind × Char} (hq : q ∈ quotes) :
    byteOfChar q.2 < 0x80 ∧ Blank.isByte (byteOfChar q.2) = false := by
  have hquotes : ∀ q ∈ quotes, byteOfChar q.2 < 0x80 ∧ Blank.isByte (byteOfChar q.2) = false := by
    decide
  exact hquotes q hq

theorem OpensNone.of_append (h : OpensNone closed (s ++ t)) : OpensNone closed s := by
  cases s with
  | nil => exact ⟨nofun, nofun⟩
  | cons c s =>
      refine ⟨h.1, fun hhead => ?_⟩
      obtain ⟨hclosed, hinside⟩ := h.2 hhead
      refine ⟨hclosed, fun hcloses => hinside ?_⟩
      exact closesComment_append_iff.mpr (.inl hcloses)

theorem OpensNone.append_space (h : OpensNone closed s) : OpensNone closed (s ++ [0x20]) := by
  cases s with
  | nil => exact ⟨by simp, by simp⟩
  | cons c s =>
      refine ⟨h.1, fun hhead => ?_⟩
      obtain ⟨hclosed, hinside⟩ := h.2 hhead
      refine ⟨hclosed, fun hcloses => ?_⟩
      rcases closesComment_across (by decide) hcloses with hs | hnil
      · exact hinside hs
      · exact not_closesComment_nil hnil

theorem Clean.append_space (h : Clean closed s) : Clean closed (s ++ [0x20]) := by
  induction h with
  | nil => exact .plain (by decide) nofun .nil
  | plain hb hopens _ ih => exact .plain hb (fun hslash => (hopens hslash).append_space) ih
  | literal hl _ ih =>
      rw [List.append_assoc]
      exact .literal hl ih

theorem Clean.head (h : Clean closed (b :: s)) :
    b < 0x80 ∧ (Blank.isByte b = true → Clean closed s) := by
  generalize htext : b :: s = text at h
  cases h with
  | nil => cases htext
  | plain hb _ hs =>
      cases htext
      exact ⟨ascii_of_isPlain hb, fun _ => hs⟩
  | literal hl _ =>
      obtain ⟨tail, rfl, -⟩ := hl.exists_tail
      rw [utf8_quote hl.1] at htext
      cases htext
      obtain ⟨hbyte, hblank⟩ := ascii_of_quote hl.1
      exact ⟨hbyte, fun hb => absurd hb (by simp [hblank])⟩

theorem Clean.last (h : Clean closed (s ++ [b])) :
    b < 0x80 ∧ (Blank.isByte b = true → Clean closed s) := by
  generalize htext : s ++ [b] = text at h
  induction h generalizing s with
  | nil => simp at htext
  | plain hc hopens _ ih =>
      cases s with
      | nil =>
          cases htext
          exact ⟨ascii_of_isPlain hc, fun _ => .nil⟩
      | cons a s =>
          obtain ⟨rfl, rfl⟩ := List.cons.inj htext
          obtain ⟨hb, hclean⟩ := ih rfl
          exact ⟨hb, fun hblank => .plain hc (fun hslash => (hopens hslash).of_append)
            (hclean hblank)⟩
  | @literal q l rest hl _ ih =>
      rcases List.eq_nil_or_concat rest with rfl | ⟨rest, c, rfl⟩
      · -- The text ends with the closing quote of the literal.
        have hlast : l.getLast? = some b := by
          rw [← List.append_nil l, ← htext, List.getLast?_concat]
        rw [hl.getLast?] at hlast
        cases hlast
        obtain ⟨hbyte, hblank⟩ := ascii_of_quote hl.1
        exact ⟨hbyte, fun hb => absurd hb (by simp [hblank])⟩
      · rw [List.concat_eq_append, ← List.append_assoc] at htext
        obtain ⟨rfl, hb⟩ := List.append_inj' htext rfl
        cases hb
        obtain ⟨hb, hclean⟩ := ih List.concat_eq_append.symm
        exact ⟨hb, fun hblank => .literal hl (hclean hblank)⟩

theorem Clean.trimLeft (h : Clean closed s) :
    Clean closed s.trimLeft ∧ s.trimLeft <:+ s ∧
      ∀ b ∈ s.trimLeft.head?, Blank.isByte b = false := by
  induction s with
  | nil => simpa using h
  | cons c s ih =>
      obtain ⟨hc, hrest⟩ := h.head
      rw [trimLeft_cons hc]
      by_cases hblank : Blank.isByte c = true
      · rw [if_pos hblank]
        obtain ⟨hclean, hsuffix, hhead⟩ := ih (hrest hblank)
        exact ⟨hclean, hsuffix.trans (List.suffix_cons c s), hhead⟩
      · rw [if_neg hblank]
        exact ⟨h, List.suffix_refl _, by simpa using hblank⟩

theorem Clean.trimRight (h : Clean closed s) :
    Clean closed s.trimRight ∧ s.trimRight <+: s ∧
      ∀ b ∈ s.trimRight.getLast?, Blank.isByte b = false := by
  induction s using List.reverseRecOn with
  | nil => simpa using h
  | append_singleton s c ih =>
      obtain ⟨hc, hrest⟩ := h.last
      rw [trimRight_concat hc]
      by_cases hblank : Blank.isByte c = true
      · rw [if_pos hblank]
        obtain ⟨hclean, hprefix, hlast⟩ := ih (hrest hblank)
        exact ⟨hclean, hprefix.trans (List.prefix_append s [c]), hlast⟩
      · rw [if_neg hblank]
        exact ⟨h, List.prefix_refl _, by simpa using hblank⟩

/-- A clean text with no blank at its start or its end. -/
structure Trimmed (closed : Prop) (a : Bytes) : Prop where
  clean : Clean closed a
  ne_nil : a ≠ []
  head : ∀ b ∈ a.head?, Blank.isByte b = false
  last : ∀ b ∈ a.getLast?, Blank.isByte b = false

theorem Clean.trim_isInfix (h : Clean closed s) : s.trim <:+: s :=
  h.trimLeft.1.trimRight.2.1.isInfix.trans h.trimLeft.2.1.isInfix

theorem Clean.trimmed (h : Clean closed s) (hne : s.trim ≠ []) : Trimmed closed s.trim := by
  obtain ⟨hleft, -, hhead⟩ := h.trimLeft
  obtain ⟨hclean, hprefix, hlast⟩ := hleft.trimRight
  refine ⟨hclean, hne, fun b hb => hhead b ?_, hlast⟩
  obtain ⟨c, rest, htrim⟩ := List.exists_cons_of_ne_nil hne
  rw [Bytes.trim] at htrim hb
  rw [htrim] at hprefix hb
  obtain ⟨behind, hbehind⟩ := hprefix
  rw [← hbehind]
  exact hb

theorem Trimmed.bounded (h : Trimmed closed a) : a.Bounded where
  ne_nil := h.ne_nil
  head b hb := by
    obtain ⟨rest, rfl⟩ := List.head?_eq_some_iff.mp hb
    exact ⟨h.clean.head.1, h.head b hb⟩
  last b hb := by
    obtain ⟨rest, rfl⟩ := List.getLast?_eq_some_iff.mp hb
    exact ⟨h.clean.last.1, h.last b hb⟩

theorem Trimmed.trimLeft_append (h : Trimmed closed a) (s : Bytes) :
    Bytes.trimLeft (0x20 :: (a ++ s)) = a ++ s := by
  rw [trimLeft_cons (by decide), if_pos (by decide), h.bounded.trimLeft_append]

theorem Trimmed.trim_space (h : Trimmed closed a) : Bytes.trim (0x20 :: a) = a := by
  have hleft := h.trimLeft_append []
  rw [List.append_nil] at hleft
  rw [Bytes.trim, hleft, h.bounded.trimRight]

theorem Trimmed.trim_spaces (h : Trimmed closed a) : Bytes.trim (0x20 :: (a ++ [0x20])) = a := by
  rw [Bytes.trim, h.trimLeft_append, trimRight_concat (by decide), if_pos (by decide),
    h.bounded.trimRight]

end

/-! ## Enumerators in print -/

/-- The enumerators of an enum as they are printed between its braces. -/
def enumeratorsText (attributes : List Bytes) : Bytes :=
  ascii " " ++ (Bytes.join (ascii ", ") attributes ++ ascii " ")

theorem enumeratorsText_nil : enumeratorsText [] = [0x20, 0x20] := by
  decide

theorem enumeratorsText_singleton (a : Bytes) : enumeratorsText [a] = 0x20 :: (a ++ [0x20]) := by
  simp [enumeratorsText, Bytes.join, List.intercalate, ascii]

theorem enumeratorsText_cons (a b : Bytes) (others : List Bytes) :
    enumeratorsText (a :: b :: others) = 0x20 :: (a ++ 0x2C :: enumeratorsText (b :: others)) := by
  simp [enumeratorsText, Bytes.join, List.intercalate, ascii]

namespace Grammar

section

variable {piece body : List Token} {attributes : List Bytes}

theorem enumeratorText_eq_trim (h : ∀ t ∈ piece, isTextKind t.kind = true) :
    enumeratorText piece = Bytes.trim (Token.concat piece) := by
  have hall : piece.filter isEnumeratorText = piece := by
    refine List.filter_eq_self.mpr fun t ht => ?_
    exact (isTextKind_iff.mp (h t ht)).2
  rw [enumeratorText, hall]

theorem isPieceKind_of_text {t : Token} (ht : endsEnumerator t = false)
    (hline : t.kind ≠ .newline) : isPieceKind t.kind = true := by
  simp only [endsEnumerator] at ht
  cases hkind : t.kind <;> simp_all [isPieceKind, isTextKind]

theorem Enumerators.ne_invalid (h : Enumerators body attributes) :
    ∀ t ∈ body, t.kind ≠ .invalid := by
  intro t ht hinvalid
  have hends := h.kind_ne t ht (by simp [hinvalid])
  simp [endsEnumerator, hinvalid] at hends

theorem enumeratorText_trimmed {later : List Token} (h : Lexical (piece ++ later))
    (hpiece : ∀ t ∈ piece, isPieceKind t.kind = true) (hlater : ∀ t ∈ later, t.kind ≠ .invalid)
    (hne : enumeratorText piece ≠ []) :
    Trimmed (ClosesComment (Token.concat later)) (enumeratorText piece) :=
  (h.clean hpiece hlater).trimmed hne

theorem closesComment_of_enumeratorText (h : Lexical piece)
    (hpiece : ∀ t ∈ piece, isPieceKind t.kind = true)
    (hcloses : ClosesComment (enumeratorText piece)) : ClosesComment (Token.concat piece) := by
  rw [← List.append_nil piece] at h
  have hkept : ClosesComment (keptText piece) :=
    hcloses.trans (h.clean hpiece nofun).trim_isInfix
  exact Lexical.closesComment (x := []) h.front hpiece hkept

/-- Before the closing brace, a text is cut into enumerators on one line. -/
def CutsInto (w s : Bytes) (attributes : List Bytes) : Prop :=
  ∃ body, Token.concat body = s ∧ Enumerators body attributes ∧ (∀ t ∈ body, t.kind ≠ .newline) ∧
    ∀ later, Token.concat later = 0x7D :: w → Lexical later → Lexical (body ++ later)

theorem ne_newline_of_isTextKind (h : ∀ t ∈ piece, isTextKind t.kind = true) :
    ∀ t ∈ piece, t.kind ≠ .newline := by
  intro t ht hline
  have hkind := h t ht
  rw [hline] at hkind
  cases hkind

variable {w s a : Bytes} {closed : Prop}

theorem cutsInto_nil (hw : ¬ ClosesComment w) : CutsInto w [0x20, 0x20] [] := by
  have hclean : Clean False [0x20, 0x20] :=
    .plain (by decide) nofun (.plain (by decide) nofun .nil)
  have hblank : Bytes.trim [0x20, 0x20] = [] := by
    simp [Bytes.trim, trimLeft_cons, Blank.isByte, Blank.encodings]
  obtain ⟨piece, hconcat, hkinds, hlexical⟩ :=
    hclean.cutsBefore (.inr rfl) fun hcloses => hw (closesComment_cons (by decide) hcloses)
  refine ⟨piece, hconcat, .empty ?_ ?_, ne_newline_of_isTextKind hkinds, hlexical⟩
  · exact fun t ht => (isTextKind_iff.mp (hkinds t ht)).1
  · rw [enumeratorText_eq_trim hkinds, hconcat, hblank]

theorem cutsInto_singleton (ha : Trimmed closed a) (hw : ¬ ClosesComment w) :
    CutsInto w (0x20 :: (a ++ [0x20])) [a] := by
  have hclean : Clean closed (0x20 :: (a ++ [0x20])) :=
    .plain (by decide) nofun ha.clean.append_space
  obtain ⟨piece, hconcat, hkinds, hlexical⟩ := hclean.cutsBefore (.inr rfl)
    fun hcloses => absurd (closesComment_cons (by decide) hcloses) hw
  have htext : enumeratorText piece = a := by
    rw [enumeratorText_eq_trim hkinds, hconcat, ha.trim_spaces]
  refine ⟨piece, hconcat, ?_, ne_newline_of_isTextKind hkinds, hlexical⟩
  rw [← htext]
  refine .last (fun t ht => (isTextKind_iff.mp (hkinds t ht)).1) ?_
  rw [htext]
  exact ha.ne_nil

theorem CutsInto.cons (h : CutsInto w s attributes) (ha : Trimmed closed a)
    (hclosed : ClosesComment (s ++ 0x7D :: w) → closed) :
    CutsInto w (0x20 :: (a ++ 0x2C :: s)) (a :: attributes) := by
  obtain ⟨body, rfl, hbody, hlines, hlexical⟩ := h
  have hclean : Clean closed (0x20 :: a) := .plain (by decide) nofun ha.clean
  obtain ⟨piece, hconcat, hkinds, hpiece⟩ := hclean.cutsBefore (.inl rfl)
    fun hcloses => hclosed (closesComment_cons (by decide) hcloses)
  have htext : enumeratorText piece = a := by
    rw [enumeratorText_eq_trim hkinds, hconcat, ha.trim_space]
  refine ⟨piece ++ .spelled .comma [0x2C] :: body, ?_, ?_, ?_, ?_⟩
  · rw [Token.concat_append, hconcat, Token.concat_cons]
    rfl
  · rw [← htext]
    refine .cons (fun t ht => (isTextKind_iff.mp (hkinds t ht)).1) ?_ rfl hbody
    rw [htext]
    exact ha.ne_nil
  · refine List.forall_mem_append.mpr ⟨ne_newline_of_isTextKind hkinds, ?_⟩
    exact List.forall_mem_cons.mpr ⟨nofun, hlines⟩
  · intro later hlater hback
    rw [List.append_assoc, List.cons_append]
    refine hpiece _ ?_ ((hlexical later hlater hback).cons_mark (by decide)).lexical
    rw [Token.concat_cons, Token.concat_append, hlater]
    rfl

/-- The enumerators of a source, in print before the closing brace, are cut into the same ones. They
close a comment only if the source does, so that none comes to stand over several of them. -/
theorem Enumerators.printed (h : Enumerators body attributes) (hlexical : Lexical body)
    (hlines : ∀ t ∈ body, t.kind ≠ .newline) (hw : ¬ ClosesComment w) :
    CutsInto w (enumeratorsText attributes) attributes ∧
      (ClosesComment (enumeratorsText attributes) → ClosesComment (Token.concat body)) := by
  have hspaces {a b : Bytes} (h : ClosesComment (0x20 :: (a ++ 0x20 :: b))) :
      ClosesComment a ∨ ClosesComment b :=
    closesComment_across (by decide) (closesComment_cons (by decide) h)
  induction h with
  | empty =>
      rw [enumeratorsText_nil]
      refine ⟨cutsInto_nil hw, fun hcloses => ?_⟩
      rcases hspaces (a := []) (b := []) hcloses with hnil | hnil
      · exact absurd hnil not_closesComment_nil
      · exact absurd hnil not_closesComment_nil
  | @last piece hpiece hne =>
      have hkinds : ∀ t ∈ piece, isPieceKind t.kind = true :=
        fun t ht => isPieceKind_of_text (hpiece t ht) (hlines t ht)
      rw [enumeratorsText_singleton]
      refine ⟨?_, fun hcloses => ?_⟩
      · rw [← List.append_nil piece] at hlexical
        exact cutsInto_singleton (enumeratorText_trimmed hlexical hkinds nofun hne) hw
      · rcases hspaces hcloses with htext | hnil
        · exact closesComment_of_enumeratorText hlexical hkinds htext
        · exact absurd hnil not_closesComment_nil
  | @cons piece tokens t texts hpiece hne ht htokens ih =>
      obtain ⟨hfront, hback⟩ := List.forall_mem_append.mp hlines
      have hkinds : ∀ t ∈ piece, isPieceKind t.kind = true :=
        fun t ht => isPieceKind_of_text (hpiece t ht) (hfront t ht)
      have hvalid : ∀ u ∈ t :: tokens, u.kind ≠ .invalid :=
        List.forall_mem_cons.mpr ⟨by simp [ht], htokens.ne_invalid⟩
      have htrimmed := enumeratorText_trimmed hlexical hkinds hvalid hne
      obtain ⟨hinto, hclosing⟩ := ih hlexical.back.tail (List.forall_mem_cons.mp hback).2
      have hlater (hcloses : ClosesComment (enumeratorsText texts)) :
          ClosesComment (Token.concat (t :: tokens)) := by
        rw [Token.concat_cons]
        exact closesComment_append_iff.mpr (.inr (.inl (hclosing hcloses)))
      have hwhole (hcloses : ClosesComment (enumeratorText piece) ∨
          ClosesComment (Token.concat (t :: tokens))) :
          ClosesComment (Token.concat (piece ++ t :: tokens)) := by
        rw [Token.concat_append]
        rcases hcloses with htext | hback
        · have hcomment := closesComment_of_enumeratorText hlexical.front hkinds htext
          exact closesComment_append_iff.mpr (.inl hcomment)
        · exact closesComment_append_iff.mpr (.inr (.inl hback))
      cases texts with
      | nil =>
          -- What follows the last comma counts for nothing and is not printed.
          rw [enumeratorsText_singleton]
          refine ⟨cutsInto_singleton htrimmed hw, fun hcloses => hwhole ?_⟩
          exact (hspaces hcloses).imp_right fun hnil => absurd hnil not_closesComment_nil
      | cons b others =>
          rw [enumeratorsText_cons]
          refine ⟨hinto.cons htrimmed fun hcloses => ?_, fun hcloses => hwhole ?_⟩
          · rcases closesComment_across (by decide) hcloses with htexts | hend
            · exact hlater htexts
            · exact absurd hend hw
          · have hcomma := closesComment_cons (by decide) hcloses
            exact (closesComment_across (by decide) hcomma).imp_right hlater

end

end Grammar

end HeaderBinding
