import HeaderBinding.Proofs.Token.Delimiters

/-!
# Tokens side by side

The tokens of a text stay its tokens if the text ends or starts between two of them. The other way
round, a token may be put before the tokens of a text if no longer one starts there: a mark always,
a space before anything but blanks, and a word before anything but bytes of words.
-/

namespace HeaderBinding

open Lexicon

/-! ## The tokens of a text -/

/-- The tokens of the text they spell. -/
def Lexical (tokens : List Token) : Prop :=
  Cut (Token.concat tokens) (tokens.map Token.spelling)

theorem lexical_tokenize (source : Bytes) : Lexical (tokenize source) := by
  have hcut := cut_tokenize source
  rw [Lexical, ← flatten_map_spelling, hcut.flatten_eq]
  exact hcut

theorem lexical_nil : Lexical [] := .nil

theorem Lexicon.FirstKind.exists_utf8 {u : Bytes} {kind : TokenKind}
    (h : FirstKind entries u kind) : ∃ cs, utf8 cs = u := by
  have hencoded : ∀ e ∈ entries, ∃ words, e.texts = encoded words := by
    simp only [entries, List.forall_mem_cons, List.not_mem_nil, false_imp_iff, implies_true,
      and_true]
    repeat' apply And.intro
    all_goals exact ⟨_, rfl⟩
  obtain ⟨before, e, behind, hentries, -, hmem, -⟩ := h
  obtain ⟨words, hwords⟩ := hencoded e (by simp [hentries])
  rw [hwords] at hmem
  obtain ⟨cs, -, hcs⟩ := hmem
  exact ⟨cs, hcs⟩

namespace Lexical

variable {before tokens : List Token} {t : Token}

theorem front (h : Lexical (before ++ tokens)) : Lexical before := by
  rw [Lexical, List.map_append] at h
  rw [Lexical, ← flatten_map_spelling]
  exact h.of_append

theorem tail (h : Lexical (t :: tokens)) : Lexical tokens := by
  rw [Lexical, Token.concat_cons, List.map_cons] at h
  generalize Token.spelling t = first, t.text ++ Token.concat tokens = s at h
  rw [Lexical, ← flatten_map_spelling]
  cases h with
  | word _ hrest | invalid _ _ _ hrest =>
      rw [hrest.flatten_eq]
      exact hrest

theorem back (h : Lexical (before ++ tokens)) : Lexical tokens := by
  induction before with
  | nil => exact h
  | cons t before ih => exact ih h.tail

theorem longestWord (h : Lexical (t :: tokens)) (ht : t.kind ≠ .invalid) :
    LongestWord entries (t.text ++ Token.concat tokens) t.text t.kind := by
  rw [Lexical, Token.concat_cons, List.map_cons, Token.spelling] at h
  generalize t.kind = kind at h ht ⊢
  generalize hs : t.text ++ Token.concat tokens = s at h
  cases h with
  | word hlongest => exact hlongest
  | invalid => exact absurd rfl ht

theorem firstKind (h : Lexical tokens) (ht : t ∈ tokens) (hkind : t.kind ≠ .invalid) :
    FirstKind entries t.text t.kind := by
  rcases h.mem_cases (List.mem_map_of_mem ht) with hfirst | ⟨hinvalid, -⟩
  · exact hfirst
  · exact absurd hinvalid hkind

/-- Without invalid bytes a text is made of characters. -/
theorem exists_utf8 (h : Lexical tokens) (hvalid : ∀ t ∈ tokens, t.kind ≠ .invalid) :
    ∃ cs, utf8 cs = Token.concat tokens := by
  induction tokens with
  | nil => exact ⟨[], rfl⟩
  | cons t tokens ih =>
      obtain ⟨ht, hothers⟩ := List.forall_mem_cons.mp hvalid
      obtain ⟨cs, hcs⟩ := (h.firstKind List.mem_cons_self ht).exists_utf8
      obtain ⟨cs', hcs'⟩ := ih h.tail hothers
      exact ⟨cs ++ cs', by rw [utf8_append, hcs, hcs', Token.concat_cons]⟩

theorem cons (h : Lexical tokens)
    (ht : LongestWord entries (t.text ++ Token.concat tokens) t.text t.kind) :
    Lexical (t :: tokens) :=
  .word ht h

end Lexical

/-! ## Classes of bytes -/

/-- Every byte that a pattern can match belongs to a class. -/
def Pattern.within (P : UInt8 → Bool) : Pattern → Bool
  | .void | .empty => true
  | .range low high =>
    (List.range' low.toNat (high.toNat + 1 - low.toNat)).all fun n => P n.toUInt8
  | .seq p q | .alt p q => p.within P && q.within P
  | .star p => p.within P

theorem Pattern.all_of_within {P : UInt8 → Bool} {p : Pattern} {s : Bytes}
    (h : p.within P = true) (hs : p.Matches s) : ∀ b ∈ s, P b = true := by
  induction hs with
  | empty | starNil => exact nofun
  | @range low high b hl hh =>
      intro c hc
      rw [List.mem_singleton.mp hc]
      have hmem : b.toNat ∈ List.range' low.toNat (high.toNat + 1 - low.toNat) := by
        have hlow := UInt8.le_iff_toNat_le.mp hl
        have hhigh := UInt8.le_iff_toNat_le.mp hh
        rw [List.mem_range'_1]
        omega
      simpa using List.all_eq_true.mp h _ hmem
  | seq _ _ ihp ihq =>
      obtain ⟨hp, hq⟩ := Bool.and_eq_true_iff.mp h
      exact List.forall_mem_append.mpr ⟨ihp hp, ihq hq⟩
  | altLeft _ ih => exact ih (Bool.and_eq_true_iff.mp h).1
  | altRight _ ih => exact ih (Bool.and_eq_true_iff.mp h).2
  | starCons _ _ ihp ihq => exact List.forall_mem_append.mpr ⟨ihp h, ihq h⟩

section

variable {P : UInt8 → Bool} {b : UInt8} {s u : Bytes} {kind : TokenKind}

theorem all_of_word (hrules : ∀ rule ∈ LexicalRule.all,
      (rule.pattern.derivative b).isVoid = true ∨ rule.pattern.within P = true)
    (h : Word entries (b :: s)) : ∀ c ∈ b :: s, P c = true := by
  obtain ⟨rule, hrule, hmatch⟩ := word_entries_iff.mp h
  rcases hrules rule hrule with hvoid | hwithin
  · rw [Pattern.isVoid_derivative hmatch] at hvoid
    cases hvoid
  · exact Pattern.all_of_within hwithin hmatch

/-- Where all words have bytes of one class only, a word is the longest one before any other
byte. -/
theorem longestWord_of_class (hkind : FirstKind entries (b :: u) kind)
    (hall : ∀ s, Word entries (b :: s) → ∀ c ∈ b :: s, P c = true)
    (hnext : ∀ c ∈ s.head?, P c = false) : LongestWord entries (b :: u ++ s) (b :: u) kind := by
  refine longestWord_append hkind (by simp) ?_
  intro w hw hne hword
  obtain ⟨c, w, rfl⟩ := List.exists_cons_of_ne_nil hne
  obtain ⟨rest, rfl⟩ := hw
  have hc := hall _ hword c (by simp)
  rw [hnext c rfl] at hc
  cases hc

end

/-! ## Marks, spaces and words before tokens -/

/-- The marks that no token goes on behind. -/
def marks : List (TokenKind × UInt8) :=
  [(.leftBrace, 0x7B), (.rightBrace, 0x7D), (.leftParen, 0x28), (.rightParen, 0x29),
   (.semicolon, 0x3B), (.comma, 0x2C)]

/-- The blanks within a line. -/
def lineBlanks : Bytes := [0x09, 0x0B, 0x0C, 0x20]

theorem longestWord_mark {m : TokenKind × UInt8} (hm : m ∈ marks) (s : Bytes) :
    LongestWord entries ([m.2] ++ s) [m.2] m.1 := by
  have hkinds : ∀ m ∈ marks,
      Lexer.accepted? (Lexer.advance m.2 LexicalRule.all) = some m.1 := by
    decide +kernel
  have hrules : ∀ m ∈ marks, ∀ rule ∈ LexicalRule.all,
      (rule.pattern.derivative m.2).isVoid = true ∨ rule.pattern.derivative m.2 = .empty := by
    decide +kernel
  refine longestWord_append (firstKind_of_accepted? (u := [m.2]) (hkinds m hm)) (by simp) ?_
  intro w _ hne hword
  obtain ⟨rule, hrule, hmatch⟩ := word_entries_iff.mp hword
  have hrest := Pattern.matches_derivative_iff.mpr hmatch
  rcases hrules m hm rule hrule with hvoid | hempty
  · rw [Pattern.isVoid_derivative hmatch] at hvoid
    cases hvoid
  · rw [hempty] at hrest
    cases hrest
    exact hne rfl

/-- Blanks are white space, and no other text starts with one. -/
theorem firstKind_blanks {u : Bytes} (hne : u ≠ []) (hu : ∀ b ∈ u, b ∈ lineBlanks) :
    FirstKind entries u .whiteSpace := by
  have hstar : ∀ u : Bytes, (∀ b ∈ u, b ∈ lineBlanks) →
      (Pattern.star (Pattern.byteOf lineBlanks)).Matches u := by
    intro u hu
    induction u with
    | nil => exact .starNil
    | cons b u ih =>
        obtain ⟨hb, hothers⟩ := List.forall_mem_cons.mp hu
        exact .starCons (matches_byteOf_iff.mpr ⟨b, hb, rfl⟩) (ih hothers)
  obtain ⟨b, u, rfl⟩ := List.exists_cons_of_ne_nil hne
  obtain ⟨hb, hothers⟩ := List.forall_mem_cons.mp hu
  have hmatch : LexicalRule.whiteSpace.pattern.Matches ([b] ++ u) :=
    .seq (matches_byteOf_iff.mpr ⟨b, hb, rfl⟩) (hstar u hothers)
  rw [← LexicalRule.map_entry_all]
  exact ⟨[], LexicalRule.whiteSpace.entry, _, rfl, rfl, hmatch, nofun⟩

theorem mem_lineBlanks_of_word {b : UInt8} {s : Bytes} (hb : b ∈ lineBlanks)
    (h : Word entries (b :: s)) : ∀ c ∈ b :: s, c ∈ lineBlanks := by
  have hrules : ∀ b ∈ lineBlanks, ∀ rule ∈ LexicalRule.all,
      (rule.pattern.derivative b).isVoid = true ∨
        rule.pattern.within lineBlanks.contains = true := by
    decide +kernel
  intro c hc
  simpa using all_of_word (hrules b hb) h c hc

theorem longestWord_blanks {u s : Bytes} (hne : u ≠ []) (hu : ∀ b ∈ u, b ∈ lineBlanks)
    (hnext : ∀ b ∈ s.head?, b ∉ lineBlanks) : LongestWord entries (u ++ s) u .whiteSpace := by
  obtain ⟨b, u, rfl⟩ := List.exists_cons_of_ne_nil hne
  refine longestWord_of_class (P := lineBlanks.contains) (firstKind_blanks hne hu) ?_ ?_
  · intro s hword c hc
    simpa using mem_lineBlanks_of_word (hu b List.mem_cons_self) hword c hc
  · intro c hc
    simpa using hnext c hc

theorem longestWord_space {s : Bytes} (hnext : ∀ b ∈ s.head?, b ∉ lineBlanks) :
    LongestWord entries ([0x20] ++ s) [0x20] .whiteSpace :=
  longestWord_blanks (by simp) (List.forall_mem_singleton.mpr (by decide)) hnext

theorem longestWord_identifier {s u : Bytes} {kind : TokenKind} (hkind : FirstKind entries u kind)
    (hu : u.isIdentifier = true) (hnext : ∀ b ∈ s.head?, isWord b = false) :
    LongestWord entries (u ++ s) u kind := by
  cases u with
  | nil => cases hu
  | cons b u =>
      simp only [Bytes.isIdentifier, Bool.and_eq_true] at hu
      refine longestWord_of_class hkind (fun s hword => ?_) hnext
      exact List.all_eq_true.mp (all_isWord_of_word hu.1 hword)

/-- A token of a kind and a text, wherever it stands. -/
def Token.spelled (kind : TokenKind) (text : Bytes) : Token := ⟨kind, text, .start⟩

/-- A space between tokens. -/
def Token.space : Token := .spelled .whiteSpace [0x20]

/-- A keyword or a name. -/
structure Token.IsWord (t : Token) : Prop where
  firstKind : FirstKind entries t.text t.kind
  isIdentifier : t.text.isIdentifier = true
  isSolid : t.kind.isLayoutOrNewline = false

theorem Token.IsWord.head? {t : Token} (h : t.IsWord) (s : Bytes) :
    ∀ b ∈ (t.text ++ s).head?, isIdentifierStart b = true := by
  have hword := h.isIdentifier
  cases htext : t.text with
  | nil =>
      rw [htext] at hword
      cases hword
  | cons b text =>
      rw [htext, Bytes.isIdentifier, Bool.and_eq_true] at hword
      rintro _ ⟨⟩
      exact hword.1

/-- The tokens of a text that no word before it goes on into. -/
structure WordEnd (tokens : List Token) : Prop where
  lexical : Lexical tokens
  ends : ∀ b ∈ (Token.concat tokens).head?, isWord b = false

section

variable {tokens : List Token} {t : Token} {kind : TokenKind} {b : UInt8}

theorem Lexical.cons_mark (h : Lexical tokens) (hm : (kind, b) ∈ marks) :
    WordEnd (.spelled kind [b] :: tokens) where
  lexical := h.cons (longestWord_mark hm _)
  ends := by
    have hmarks : ∀ m ∈ marks, isWord m.2 = false := by decide
    rintro _ ⟨⟩
    exact hmarks _ hm

theorem Lexical.cons_space (h : Lexical tokens)
    (hnext : ∀ b ∈ (Token.concat tokens).head?, b ∉ lineBlanks) : WordEnd (.space :: tokens) where
  lexical := h.cons (longestWord_space hnext)
  ends := by
    rintro _ ⟨⟩
    decide

theorem WordEnd.cons_word (h : WordEnd tokens) (ht : t.IsWord) : Lexical (t :: tokens) :=
  h.lexical.cons (longestWord_identifier ht.firstKind ht.isIdentifier h.ends)

theorem Lexical.space_mark (h : Lexical tokens) (hm : (kind, b) ∈ marks) :
    WordEnd (.space :: .spelled kind [b] :: tokens) := by
  have hmarks : ∀ m ∈ marks, m.2 ∉ lineBlanks := by decide
  refine (h.cons_mark hm).lexical.cons_space ?_
  rintro _ ⟨⟩
  exact hmarks _ hm

theorem WordEnd.space_word (h : WordEnd tokens) (ht : t.IsWord) :
    WordEnd (.space :: t :: tokens) := by
  have hblanks : ∀ b ∈ lineBlanks, isIdentifierStart b = false := by decide +kernel
  refine (h.cons_word ht).cons_space fun b hb hblank => ?_
  rw [Token.concat_cons] at hb
  have hstart := ht.head? _ b hb
  rw [hblanks b hblank] at hstart
  cases hstart

theorem Lexical.text_ne_nil (h : Lexical (t :: tokens)) : t.text ≠ [] :=
  Cut.text_ne_nil h t.spelling List.mem_cons_self

/-- A token that starts with a blank takes all blanks there are. -/
theorem Lexical.blanks (h : Lexical (t :: tokens)) (hb : b ∈ t.text.head?)
    (hblank : b ∈ lineBlanks) :
    t.kind = .whiteSpace ∧ (∀ c ∈ t.text, c ∈ lineBlanks) ∧
      ∀ c ∈ (Token.concat tokens).head?, c ∉ lineBlanks := by
  have hword : ∀ u, u ≠ [] → (∀ c ∈ u, c ∈ lineBlanks) → Word entries u :=
    fun u hne hu => word_iff_firstKind.mpr ⟨_, firstKind_blanks hne hu⟩
  obtain ⟨text, htext⟩ := List.head?_eq_some_iff.mp hb
  have hlongest : LongestWord entries (t.text ++ Token.concat tokens) t.text t.kind := by
    rw [Lexical, Token.concat_cons, List.map_cons, Token.spelling] at h
    have hstart : [b] <+: t.text ++ Token.concat tokens := by simp [htext]
    generalize t.kind = kind at h ⊢
    generalize hs : t.text ++ Token.concat tokens = s at h hstart
    cases h with
    | word hlongest => exact hlongest
    | invalid hunmatched =>
        exact absurd (hword [b] (by simp) (by simpa using hblank))
          (hunmatched [b] hstart (by simp))
  have hall : ∀ c ∈ t.text, c ∈ lineBlanks := by
    rw [htext]
    apply mem_lineBlanks_of_word hblank
    rw [← htext]
    exact word_iff_firstKind.mpr ⟨_, hlongest.kind_eq⟩
  refine ⟨hlongest.kind_eq.unique (firstKind_blanks hlongest.ne_nil hall), hall, ?_⟩
  intro c hc hnext
  obtain ⟨rest, hrest⟩ := List.head?_eq_some_iff.mp hc
  -- Otherwise the token with the next blank would be a longer word.
  have hlength := hlongest.longest (t.text ++ [c]) (by simp [hrest])
    (hword _ (by simp) (List.forall_mem_append.mpr ⟨hall, by simpa using hnext⟩))
  rw [List.length_append, List.length_singleton] at hlength
  omega

/-- A space before a text is a token of its own, or joins the blanks there. -/
theorem Lexical.exists_space (h : Lexical tokens) :
    ∃ blank others, WordEnd (blank :: others) ∧
      Token.concat (blank :: others) = 0x20 :: Token.concat tokens ∧
      blank.kind = .whiteSpace ∧
      (tokens = others ∨ ∃ t, t.kind = .whiteSpace ∧ tokens = t :: others) := by
  by_cases hnext : ∀ b ∈ (Token.concat tokens).head?, b ∉ lineBlanks
  · exact ⟨.space, tokens, h.cons_space hnext, rfl, rfl, .inl rfl⟩
  · simp only [not_forall, not_not] at hnext
    obtain ⟨b, hb, hblank⟩ := hnext
    cases tokens with
    | nil => cases hb
    | cons t others =>
        have hb' : b ∈ t.text.head? := by
          rwa [Token.concat_cons, List.head?_append_of_ne_nil _ h.text_ne_nil] at hb
        obtain ⟨hkind, hall, hnext⟩ := h.blanks hb' hblank
        have hall' : ∀ c ∈ 0x20 :: t.text, c ∈ lineBlanks :=
          List.forall_mem_cons.mpr ⟨by decide, hall⟩
        refine ⟨.spelled .whiteSpace (0x20 :: t.text), others, ⟨?_, ?_⟩, by simp [Token.spelled], rfl,
          .inr ⟨t, hkind, rfl⟩⟩
        · exact h.tail.cons (longestWord_blanks (by simp [Token.spelled]) hall' hnext)
        · rintro _ ⟨⟩
          decide

end

end HeaderBinding
