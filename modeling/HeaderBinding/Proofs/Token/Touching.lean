import HeaderBinding.Proofs.Reading.DirectiveForms
import HeaderBinding.Proofs.Reading.LayoutIndependence

/-!
# Tokens that grow together

A token that is put before other bytes stays a token unless a longer word starts with it. Few words
go on at all: names and numbers with the bytes they are made of, the mark of directives with the
word of one, and a slash with the rest of a comment. These are all the ways in which a token of an
enumerator grows together with what comes to stand behind it.
-/

namespace HeaderBinding

open Lexicon

/-- A byte of a number behind its first digit. -/
def isNumberByte (b : UInt8) : Bool :=
  isWord b || b == 0x2E

/-- A longer word than the token starts with it and the text behind it. -/
inductive Token.Joins (t : Token) : Bytes → Prop where
  | word {b : UInt8} {s : Bytes} (ht : t.text.isIdentifier = true) (hb : isWord b = true) :
      Joins t (b :: s)
  | number {b : UInt8} {s : Bytes} (ht : t.kind = .number) (hb : isNumberByte b = true) :
      Joins t (b :: s)
  | directive {word s : Bytes} (ht : t.text = [0x23]) (hword : word ∈ Directive.words) :
      Joins t (word ++ s)
  | lineComment {s : Bytes} (ht : t.text = [0x2F]) : Joins t (0x2F :: s)
  | blockComment {s : Bytes} (ht : t.text = [0x2F]) (hs : ClosesComment s) : Joins t (0x2A :: s)

/-! ## Blanks do not count -/

section

variable {t : Token} {s u : Bytes}

theorem Token.Joins.append (h : t.Joins s) (u : Bytes) : t.Joins (s ++ u) := by
  cases h with
  | word ht hb => exact .word ht hb
  | number ht hb => exact .number ht hb
  | directive ht hword =>
      rw [List.append_assoc]
      exact .directive ht hword
  | lineComment ht => exact .lineComment ht
  | blockComment ht hs => exact .blockComment ht (closesComment_append_iff.mpr (.inl hs))

/-- A blank of a line is none of the bytes that tokens go on with. -/
theorem classes_of_mem_lineBlanks {b : UInt8} (hb : b ∈ lineBlanks) :
    isWord b = false ∧ isNumberByte b = false ∧ b ≠ 0x2F ∧ b ≠ 0x2A := by
  simp only [lineBlanks, List.mem_cons, List.not_mem_nil, or_false] at hb
  rcases hb with rfl | rfl | rfl | rfl <;> decide

/-- Blanks at the end of the text behind a token make no difference. -/
theorem joins_append_blank_iff (hu : ∀ b ∈ u, b ∈ lineBlanks) :
    t.Joins (s ++ u) ↔ t.Joins s := by
  refine ⟨fun h => ?_, fun h => h.append u⟩
  have hhead {b : UInt8} {rest : Bytes} (hrest : s ++ u = b :: rest) (hb : b ∉ lineBlanks) :
      ∃ inside, s = b :: inside ∧ rest = inside ++ u := by
    cases s with
    | nil =>
        rw [List.nil_append] at hrest
        exact absurd (hu b (by simp [hrest])) hb
    | cons c inside =>
        obtain ⟨rfl, rfl⟩ := List.cons.inj hrest
        exact ⟨inside, rfl, rfl⟩
  generalize hall : s ++ u = text at h
  cases h with
  | @word b _ ht hb =>
      have hnot : b ∉ lineBlanks := fun hblank => by simp [classes_of_mem_lineBlanks hblank] at hb
      obtain ⟨inside, rfl, -⟩ := hhead hall hnot
      exact .word ht hb
  | @number b _ ht hb =>
      have hnot : b ∉ lineBlanks := fun hblank => by simp [classes_of_mem_lineBlanks hblank] at hb
      obtain ⟨inside, rfl, -⟩ := hhead hall hnot
      exact .number ht hb
  | lineComment ht =>
      obtain ⟨inside, rfl, -⟩ := hhead hall (by decide)
      exact .lineComment ht
  | blockComment ht hs =>
      obtain ⟨inside, rfl, rfl⟩ := hhead hall (by decide)
      refine .blockComment ht ?_
      rcases closesComment_append_iff.mp hs with hinside | hblank | ⟨-, hslash⟩
      · exact hinside
      · exact absurd (hu 0x2A (hblank.subset (by decide))) (by decide)
      · exact absurd (hu 0x2F (List.mem_of_mem_head? hslash)) (by decide)
  | @directive word _ ht hword =>
      rcases List.append_eq_append_iff.mp hall with ⟨missing, rfl, rfl⟩ | ⟨rest, rfl, -⟩
      · -- What the blanks would add to the word is nothing.
        have hmissing : missing = [] := by
          rw [List.eq_nil_iff_forall_not_mem]
          intro b hb
          have hletter := Directive.all_isWord_of_mem_words hword b (List.mem_append_right s hb)
          have hblank := classes_of_mem_lineBlanks (hu b (List.mem_append_left _ hb))
          rw [hblank.1] at hletter
          cases hletter
        rw [hmissing, List.append_nil] at hword
        have hjoins : t.Joins (s ++ []) := .directive ht hword
        rwa [List.append_nil] at hjoins
      · exact .directive ht hword

end

/-! ## Longer words -/

theorem matches_number_iff {s : Bytes} :
    LexicalRule.number.pattern.Matches s ↔
      ∃ b inside, s = b :: inside ∧ isDigit b = true ∧ inside.all isNumberByte = true := by
  have hbyte (s : Bytes) : (Pattern.alt LexicalRule.wordByte (.byte 0x2E)).Matches s ↔
      ∃ b, isNumberByte b = true ∧ s = [b] := by
    simp only [Pattern.matches_alt_iff, matches_wordByte_iff, Pattern.matches_byte_iff,
      isNumberByte, Bool.or_eq_true, beq_iff_eq, or_and_right, exists_or, exists_eq_left]
  simp only [LexicalRule.number, Pattern.matches_seq_iff, Pattern.matches_range_iff,
    matches_star_class_iff hbyte, isDigit, Bool.and_eq_true, decide_eq_true_eq]
  constructor
  · rintro ⟨_, inside, ⟨b, hlow, hhigh, rfl⟩, hinside, rfl⟩
    exact ⟨b, inside, rfl, ⟨hlow, hhigh⟩, hinside⟩
  · rintro ⟨b, inside, rfl, ⟨hlow, hhigh⟩, hinside⟩
    exact ⟨[b], inside, ⟨b, hlow, hhigh, rfl⟩, hinside, rfl⟩

theorem word_directive {word : Bytes} (h : word ∈ Directive.words) :
    Word entries (0x23 :: word) := by
  have haccepted : ∀ word ∈ Directive.words,
      (Lexer.accepted? ((0x23 :: word).foldl (fun rules b => Lexer.advance b rules)
        LexicalRule.all)).isSome = true := by
    decide
  obtain ⟨kind, hkind⟩ := Option.isSome_iff_exists.mp (haccepted word h)
  exact word_iff_firstKind.mpr ⟨kind, firstKind_of_accepted? hkind⟩

theorem Lexicon.FirstKind.matches_number {u : Bytes} (h : FirstKind entries u .number) :
    LexicalRule.number.pattern.Matches u := by
  have hrules : ∀ rule ∈ LexicalRule.all, rule.kind = .number → rule = .number := by decide
  obtain ⟨rule, hrule, hkind, hmatch⟩ := h.rule
  rwa [hrules rule hrule hkind] at hmatch

/-- Where a token joins the characters behind it, it is not the longest word. -/
theorem Token.Joins.not_longestWord {t : Token} {cs : List Char} (h : t.Joins (utf8 cs)) :
    ¬ LongestWord entries (t.text ++ utf8 cs) t.text t.kind := by
  intro hlongest
  have hlonger {x : Bytes} (hx : x <+: utf8 cs) (hne : x ≠ []) : ¬ Word entries (t.text ++ x) := by
    intro hword
    have hlength := hlongest.longest _ ((List.prefix_append_right_inj t.text).mpr hx) hword
    rw [List.length_append] at hlength
    exact hne (List.eq_nil_of_length_eq_zero (by omega))
  generalize hs : utf8 cs = s at h
  rw [hs] at hlonger
  cases h with
  | @word b s ht hb =>
      refine hlonger (x := [b]) (by simp) (by simp) ?_
      refine word_entries_iff.mpr ⟨.identifier, by decide, matches_identifier_iff.mpr ?_⟩
      cases htext : t.text with
      | nil =>
          rw [htext] at ht
          cases ht
      | cons c text =>
          rw [htext, Bytes.isIdentifier, Bool.and_eq_true] at ht
          simp only [List.cons_append, Bytes.isIdentifier, List.all_append, Bool.and_eq_true]
          exact ⟨ht.1, ht.2, by simpa using hb⟩
  | @number b s ht hb =>
      refine hlonger (x := [b]) (by simp) (by simp) ?_
      have hkind := hlongest.kind_eq
      rw [ht] at hkind
      obtain ⟨c, inside, htext, hc, hinside⟩ := matches_number_iff.mp hkind.matches_number
      refine word_entries_iff.mpr ⟨.number, by decide, matches_number_iff.mpr ?_⟩
      exact ⟨c, inside ++ [b], by rw [htext]; rfl, hc, by simp [hinside, hb]⟩
  | @directive word s ht hword =>
      refine hlonger (x := word) (List.prefix_append word s) ?_ ?_
      · have hwords : ∀ word ∈ Directive.words, word ≠ [] := by decide
        exact hwords word hword
      · rw [ht]
        exact word_directive hword
  | @lineComment s ht =>
      refine hlonger (x := [0x2F]) (by simp) (by simp) ?_
      rw [ht]
      exact word_slashes
  | @blockComment s ht hcloses =>
      obtain ⟨none, back, rfl, hnone, rfl⟩ :=
        utf8_split (a := '*') (x := []) (by decide) (by decide) hs
      obtain ⟨u, hu, hword, hlength⟩ := exists_comment_word hcloses []
      rw [List.append_nil] at hu
      have hshorter := hlongest.longest u (by rw [ht, hs]; exact hu) hword
      rw [ht, List.length_singleton] at hshorter
      omega

/-! ## Longest words -/

/-- The texts of enumerators that no word goes on behind: directives and marks. -/
def closedTexts : List Bytes :=
  Directive.words.map (0x23 :: ·) ++ (ascii "()[]*+-%&|^~!<>=?:.").map ([·])

theorem longestWord_closed {u : Bytes} {kind : TokenKind} (hu : u ∈ closedTexts)
    (hkind : FirstKind entries u kind) (s : Bytes) : LongestWord entries (u ++ s) u kind := by
  have hrules : ∀ u ∈ closedTexts, u ≠ [] ∧
      ∀ rule ∈ u.foldl (fun rules b => Lexer.advance b rules) LexicalRule.all,
        rule.pattern = .empty := by
    decide
  refine longestWord_append hkind (hrules u hu).1 ?_
  intro w _ hne hword
  obtain ⟨kind', hkind'⟩ := word_iff_firstKind.mp hword
  rw [← LexicalRule.map_entry_all, ← firstKind_foldl_advance] at hkind'
  obtain ⟨before, e, behind, hentries, -, hw, -⟩ := hkind'
  have he : e ∈ (u.foldl (fun rules b => Lexer.advance b rules) LexicalRule.all).map
      LexicalRule.entry := by
    simp [hentries]
  obtain ⟨rule, hrule, rfl⟩ := List.mem_map.mp he
  have hmatch : rule.pattern.Matches w := hw
  rw [(hrules u hu).2 rule hrule, Pattern.matches_empty_iff] at hmatch
  exact hne hmatch

theorem longestWord_number {u s : Bytes} (hu : FirstKind entries u .number)
    (hs : ∀ b ∈ s.head?, isNumberByte b = false) : LongestWord entries (u ++ s) u .number := by
  have hrules : ∀ n : Fin 256, isDigit (UInt8.ofFin n) = true → ∀ rule ∈ LexicalRule.all,
      (rule.pattern.derivative (UInt8.ofFin n)).isVoid = true ∨
        rule.pattern.within isNumberByte = true := by
    decide +kernel
  obtain ⟨b, inside, rfl, hb, -⟩ := matches_number_iff.mp hu.matches_number
  refine longestWord_of_class hu (fun s hword => ?_) hs
  refine all_of_word (fun rule hrule => ?_) hword
  have hrule := hrules b.toFin (by rwa [UInt8.ofFin_toFin]) rule hrule
  rwa [UInt8.ofFin_toFin] at hrule

/-- A rule that matches a word is alive behind its first byte. -/
theorem exists_live_rule {b : UInt8} {s : Bytes} (h : Word entries (b :: s)) :
    ∃ rule ∈ LexicalRule.all, rule.pattern.Matches (b :: s) ∧
      (rule.pattern.derivative b).isVoid = false ∧ (rule.pattern.derivative b).Matches s := by
  obtain ⟨rule, hrule, hmatch⟩ := word_entries_iff.mp h
  exact ⟨rule, hrule, hmatch, Pattern.isVoid_derivative hmatch,
    Pattern.matches_derivative_iff.mpr hmatch⟩

theorem longestWord_directiveMark {s : Bytes} {kind : TokenKind}
    (hkind : FirstKind entries [0x23] kind) (hs : ∀ word ∈ Directive.words, ¬ word <+: s) :
    LongestWord entries ([0x23] ++ s) [0x23] kind := by
  have hrules : ∀ rule ∈ LexicalRule.all, (rule.pattern.derivative 0x23).isVoid = false →
      rule.pattern.derivative 0x23 = .empty ∨
        ∃ word ∈ Directive.words, rule.pattern.derivative 0x23 = .literal word := by
    decide +kernel
  refine longestWord_append hkind (by simp) ?_
  intro w hw hne hword
  obtain ⟨rule, hrule, -, hlive, hrest⟩ := exists_live_rule hword
  rcases hrules rule hrule hlive with hempty | ⟨word, hmem, hliteral⟩
  · rw [hempty, Pattern.matches_empty_iff] at hrest
    exact hne hrest
  · rw [hliteral, Pattern.matches_literal_iff] at hrest
    subst hrest
    exact hs _ hmem hw

theorem longestWord_slash {s : Bytes} {kind : TokenKind} (hkind : FirstKind entries [0x2F] kind)
    (hs : OpensNone False s) : LongestWord entries ([0x2F] ++ s) [0x2F] kind := by
  have hrules : ∀ rule ∈ LexicalRule.all, (rule.pattern.derivative 0x2F).isVoid = false →
      rule.pattern.derivative 0x2F = .empty ∨ rule = .lineComment ∨ rule = .blockComment := by
    decide
  refine longestWord_append hkind (by simp) ?_
  intro w hw hne hword
  obtain ⟨rule, hrule, hmatch, hlive, hrest⟩ := exists_live_rule hword
  rcases hrules rule hrule hlive with hempty | hcomment
  · rw [hempty, Pattern.matches_empty_iff] at hrest
    exact hne hrest
  · obtain ⟨behind, rfl⟩ := hw
    rcases comment_marks hcomment hmatch with ⟨rest, hmarks⟩ | ⟨inside, hmarks, hcloses⟩
    · obtain ⟨-, rfl⟩ := List.cons.inj hmarks
      exact hs.1 rfl
    · obtain ⟨-, rfl⟩ := List.cons.inj hmarks
      exact (hs.2 rfl).2 (closesComment_append_iff.mpr (.inl hcloses))

/-! ## Tokens of enumerators -/

/-- A token that an enumerator holds, as the lexicon has it. -/
structure Token.IsText (t : Token) : Prop where
  firstKind : FirstKind entries t.text t.kind
  ne_nil : t.text ≠ []
  isTextKind : isTextKind t.kind = true

namespace Token.IsText

variable {t : Token} {s : Bytes}

theorem mem_lineBlanks (h : t.IsText) (hblank : t.kind = .whiteSpace) :
    ∀ b ∈ t.text, b ∈ lineBlanks := by
  have hkind := h.firstKind
  rw [hblank] at hkind
  exact hkind.mem_lineBlanks

theorem bounded (h : t.IsText) (hblank : t.kind ≠ .whiteSpace) : t.text.Bounded :=
  h.firstKind.bounded h.ne_nil h.isTextKind hblank

/-- The texts of an enumerator other than blanks, by how they go on. -/
theorem text_cases (h : t.IsText) (hblank : t.kind ≠ .whiteSpace) :
    t.text.isIdentifier = true ∨ t.kind = .number ∨ (∃ c, IsLiteral (t.kind, c) t.text) ∨
      t.text = [0x23] ∨ t.text = [0x2F] ∨ t.text ∈ closedTexts := by
  have hrules : ∀ rule ∈ LexicalRule.all, HeaderBinding.isTextKind rule.kind = true →
      rule.kind ≠ .whiteSpace →
      rule ∈ wordRules ∨ rule.kind = .number ∨ rule.kind ∈ quotes.map Prod.fst ∨
        rule = .operator ∨ ∃ text ∈ [0x23] :: closedTexts, rule.pattern = .literal text := by
    decide +kernel
  have hoperators : ∀ b ∈ ascii "+-/%&|^~!<>=?:.", b = 0x2F ∨ [b] ∈ closedTexts := by
    decide +kernel
  have hkeywords : ∀ k ∈ keywords, (ascii k.2).isIdentifier = true := by decide
  obtain ⟨rule, hrule, hkind, hmatch⟩ := h.firstKind.rule
  have hcases := hrules rule hrule (hkind ▸ h.isTextKind) (hkind ▸ hblank)
  rcases hcases with hword | hnumber | hquote | rfl | ⟨text, htext, hliteral⟩
  · refine .inl ?_
    rcases List.mem_append.mp hword with hkeyword | hidentifier
    · obtain ⟨k, hk, rfl⟩ := List.mem_map.mp hkeyword
      rw [Pattern.matches_literal_iff.mp hmatch]
      exact hkeywords k hk
    · rw [List.mem_singleton.mp hidentifier] at hmatch
      exact matches_identifier_iff.mp hmatch
  · exact .inr (.inl (hkind ▸ hnumber))
  · obtain ⟨⟨kind, c⟩, hq, hsame⟩ := List.mem_map.mp hquote
    obtain rfl : kind = t.kind := hsame.trans hkind
    exact .inr (.inr (.inl ⟨c, hq, h.firstKind⟩))
  · obtain ⟨b, hb, htext⟩ := matches_byteOf_iff.mp hmatch
    rw [htext]
    rcases hoperators b hb with rfl | hclosed
    · exact .inr (.inr (.inr (.inr (.inl rfl))))
    · exact .inr (.inr (.inr (.inr (.inr hclosed))))
  · rw [hliteral, Pattern.matches_literal_iff] at hmatch
    rw [hmatch]
    rcases List.mem_cons.mp htext with rfl | hclosed
    · exact .inr (.inr (.inr (.inl rfl)))
    · exact .inr (.inr (.inr (.inr (.inr hclosed))))

theorem longestWord (h : t.IsText) (hblank : t.kind ≠ .whiteSpace) (hs : ¬ t.Joins s) :
    LongestWord entries (t.text ++ s) t.text t.kind := by
  have hkind := h.firstKind
  rcases h.text_cases hblank with hword | hnumber | ⟨c, hliteral⟩ | htext | htext | hclosed
  · refine longestWord_identifier hkind hword fun b hb => ?_
    obtain ⟨rest, rfl⟩ := List.head?_eq_some_iff.mp hb
    exact Bool.eq_false_iff.mpr fun hnext => hs (.word hword hnext)
  · rw [hnumber] at hkind ⊢
    refine longestWord_number hkind fun b hb => ?_
    obtain ⟨rest, rfl⟩ := List.head?_eq_some_iff.mp hb
    exact Bool.eq_false_iff.mpr fun hnext => hs (.number hnumber hnext)
  · exact hliteral.longestWord s
  · rw [htext] at hkind ⊢
    refine longestWord_directiveMark hkind ?_
    rintro word hmem ⟨rest, rfl⟩
    exact hs (.directive htext hmem)
  · rw [htext] at hkind ⊢
    refine longestWord_slash hkind ⟨fun hslash => ?_, fun hstar => ⟨not_false, fun hcloses => ?_⟩⟩
    · obtain ⟨rest, rfl⟩ := List.head?_eq_some_iff.mp hslash
      exact hs (.lineComment htext)
    · obtain ⟨rest, rfl⟩ := List.head?_eq_some_iff.mp hstar
      exact hs (.blockComment htext hcloses)
  · exact longestWord_closed hclosed hkind s

/-- Before characters, a token of an enumerator is the longest word exactly if it does not join
them. -/
theorem longestWord_iff (h : t.IsText) (hblank : t.kind ≠ .whiteSpace) (cs : List Char) :
    LongestWord entries (t.text ++ utf8 cs) t.text t.kind ↔ ¬ t.Joins (utf8 cs) :=
  ⟨fun hlongest hjoins => hjoins.not_longestWord hlongest, h.longestWord hblank⟩

/-- Blanks join nothing. -/
theorem not_joins_of_blank (h : t.IsText) (hblank : t.kind = .whiteSpace) (s : Bytes) :
    ¬ t.Joins s := by
  have hall := h.mem_lineBlanks hblank
  intro hjoins
  cases hjoins with
  | word ht =>
      obtain ⟨hne, hword⟩ := Directive.isWord_of_isIdentifier ht
      obtain ⟨b, hb⟩ := List.exists_mem_of_ne_nil _ hne
      have hletter := hword b hb
      rw [(classes_of_mem_lineBlanks (hall b hb)).1] at hletter
      cases hletter
  | number ht =>
      rw [hblank] at ht
      cases ht
  | directive ht => exact absurd (hall 0x23 (by simp [ht])) (by decide)
  | lineComment ht | blockComment ht => exact absurd (hall 0x2F (by simp [ht])) (by decide)

end Token.IsText

end HeaderBinding
