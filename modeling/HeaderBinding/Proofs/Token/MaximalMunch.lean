import HeaderBinding.Proofs.Token.Lossless
import HeaderBinding.Proofs.Token.Scanning

/-!
# The longest text comes first

The next token of a source is the longest text that an entry of the lexicon holds, of the kind of
the first such entry. Where no text stands, the bytes up to the first that no text can go on with
are invalid, together with the invalid bytes right behind them.
-/

namespace HeaderBinding

namespace Lexer

open Lexicon

/-! ## One token -/

theorem invalidRun_takeInvalid (c : Cursor) (s : Bytes) :
    InvalidRun entries s (takeInvalid c s).1 := by
  fun_induction takeInvalid c s with
  | case1 c => exact .finish
  | case2 c b s m h =>
      apply InvalidRun.word
      intro hunmatched
      rcases scan_accepted b s with ⟨u, kind, hlongest, _⟩ | ⟨_, hnone⟩
      · exact hunmatched (b :: u) hlongest.starts hlongest.ne_nil
          (word_iff_firstKind.mpr ⟨kind, hlongest.kind_eq⟩)
      · rw [h] at hnone
        cases hnone
  | case3 c b s h others ih =>
      have hunmatched : Unmatched entries (b :: s) := by
        rcases scan_accepted b s with ⟨u, kind, _, hsome⟩ | ⟨hunmatched, _⟩
        · rw [h] at hsome
          cases hsome
        · exact hunmatched
      have hpiece := scan_read b s
      have hsplit : b :: s = (b :: s.take (scan b s).read) ++ s.drop (scan b s).read := by simp
      rw [hsplit] at hunmatched hpiece ⊢
      exact .piece hunmatched (List.cons_ne_nil _ _) hpiece ih

/-- A call hands out the longest text that stands at the front, or else the invalid bytes there. -/
theorem next_munch {l l' : State} {t : Token} (h : next l = (.token t, l')) :
    LongestWord entries l.rest t.text t.kind ∨
      Unmatched entries l.rest ∧ t.kind = .invalid ∧ InvalidRun entries l.rest t.text := by
  rw [next] at h
  split at h
  · simp at h
  · rename_i b s hrest
    rw [hrest]
    rcases scan_accepted b s with ⟨u, kind, hlongest, hsome⟩ | ⟨hunmatched, hnone⟩
    · rw [hsome] at h
      obtain ⟨ht, _⟩ := Prod.mk.inj h
      cases ht
      obtain ⟨_, hu⟩ := List.cons_prefix_cons.mp hlongest.starts
      have htake : s.take u.length = u := (List.prefix_iff_eq_take.mp hu).symm
      rw [htake]
      exact .inl hlongest
    · rw [hnone] at h
      obtain ⟨ht, _⟩ := Prod.mk.inj h
      cases ht
      exact .inr ⟨hunmatched, rfl, invalidRun_takeInvalid l.cursor (b :: s)⟩

/-- Each token of a run is handed out by a call, before the bytes of the tokens behind it. -/
theorem Emits.next_eq {l : State} {front tokens : List Token} {t : Token} {p : Position}
    (h : Emits l (front ++ t :: tokens) p) :
    ∃ l₁ l₂, next l₁ = (.token t, l₂) ∧ l₁.rest = Token.concat (t :: tokens) := by
  induction front generalizing l with
  | nil =>
      have hrest := h.concat_eq
      cases h with
      | token hnext _ => exact ⟨_, _, hnext, hrest.symm⟩
  | cons u front ih =>
      cases h with
      | token _ htail => exact ih htail

end Lexer

/-! ## Keywords -/

namespace Lexicon

open Lexer

/-- The keywords that are words of their own. -/
def keywords : List (TokenKind × String) :=
  [(.enumKeyword, "enum"), (.structKeyword, "struct"), (.typedefKeyword, "typedef"),
   (.intKeyword, "int"), (.floatKeyword, "float"), (.longKeyword, "long"),
   (.voidKeyword, "void"), (.charKeyword, "char")]

/-- The rules whose texts may start with a letter or an underscore. -/
def wordRules : List LexicalRule :=
  keywords.map (fun k => .fixed k.1 k.2) ++ [.identifier]

variable {b : UInt8} {s u : Bytes} {kind : TokenKind}

theorem mem_wordRules_of_matches {rule : LexicalRule} (hb : isIdentifierStart b = true)
    (hrule : rule ∈ LexicalRule.all) (h : rule.pattern.Matches (b :: s)) : rule ∈ wordRules := by
  have hrules : ∀ n : Fin 256, isIdentifierStart (UInt8.ofFin n) = true →
      ∀ rule ∈ LexicalRule.all,
        rule ∈ wordRules ∨ (rule.pattern.derivative (UInt8.ofFin n)).isVoid = true := by
    decide +kernel
  rcases hrules b.toFin hb rule hrule with hword | hvoid
  · exact hword
  · rw [UInt8.ofFin_toFin, Pattern.isVoid_derivative h] at hvoid
    cases hvoid

theorem matches_wordStart_iff :
    LexicalRule.wordStart.Matches s ↔ ∃ b, isIdentifierStart b = true ∧ s = [b] := by
  simp only [LexicalRule.wordStart, Pattern.matches_oneOf_iff, List.mem_cons, List.not_mem_nil,
    or_false, exists_eq_or_imp, exists_eq_left, Pattern.matches_range_iff, Pattern.matches_byte_iff,
    isIdentifierStart, Bool.or_eq_true, Bool.and_eq_true, decide_eq_true_eq, beq_iff_eq]
  constructor
  · rintro (⟨b, hl, hh, rfl⟩ | ⟨b, hl, hh, rfl⟩ | rfl)
    · exact ⟨b, .inl (.inl ⟨hl, hh⟩), rfl⟩
    · exact ⟨b, .inl (.inr ⟨hl, hh⟩), rfl⟩
    · exact ⟨_, .inr rfl, rfl⟩
  · rintro ⟨b, (⟨hl, hh⟩ | ⟨hl, hh⟩) | rfl, rfl⟩
    · exact .inl ⟨b, hl, hh, rfl⟩
    · exact .inr (.inl ⟨b, hl, hh, rfl⟩)
    · exact .inr (.inr rfl)

theorem matches_wordByte_iff :
    LexicalRule.wordByte.Matches s ↔ ∃ b, isWord b = true ∧ s = [b] := by
  have hcons : LexicalRule.wordByte.Matches s ↔
      (Pattern.range 0x30 0x39).Matches s ∨ LexicalRule.wordStart.Matches s :=
    Pattern.matches_oneOf_cons _
  simp only [hcons, matches_wordStart_iff, Pattern.matches_range_iff, isWord, isDigit,
    Bool.or_eq_true, Bool.and_eq_true, decide_eq_true_eq]
  constructor
  · rintro (⟨b, hl, hh, rfl⟩ | ⟨b, hb, rfl⟩)
    · exact ⟨b, .inr ⟨hl, hh⟩, rfl⟩
    · exact ⟨b, .inl hb, rfl⟩
  · rintro ⟨b, hb | ⟨hl, hh⟩, rfl⟩
    · exact .inr ⟨b, hb, rfl⟩
    · exact .inl ⟨b, hl, hh, rfl⟩

/-- A repetition of single bytes of a class matches the texts of the class. -/
theorem matches_star_class_iff {p : Pattern} {P : UInt8 → Bool}
    (h : ∀ s, p.Matches s ↔ ∃ b, P b = true ∧ s = [b]) : p.star.Matches s ↔ s.all P = true := by
  induction s with
  | nil => simp [Pattern.Matches.starNil]
  | cons b s ih =>
      simp only [Pattern.matches_star_cons_iff, h, List.all_cons, Bool.and_eq_true, ← ih]
      constructor
      · rintro ⟨t, u, ⟨a, ha, hcons⟩, hu, rfl⟩
        obtain ⟨rfl, rfl⟩ := List.cons.inj hcons
        exact ⟨ha, hu⟩
      · rintro ⟨hb, hs⟩
        exact ⟨[], s, ⟨b, hb, rfl⟩, hs, rfl⟩

theorem matches_identifier_iff :
    LexicalRule.identifier.pattern.Matches s ↔ s.isIdentifier = true := by
  rw [LexicalRule.identifier, Pattern.matches_seq_iff]
  simp only [matches_wordStart_iff, matches_star_class_iff fun _ => matches_wordByte_iff]
  constructor
  · rintro ⟨_, u, ⟨b, hb, rfl⟩, hu, rfl⟩
    simp [Bytes.isIdentifier, hb, hu]
  · intro h
    cases s with
    | nil => simp [Bytes.isIdentifier] at h
    | cons b s =>
        simp only [Bytes.isIdentifier, Bool.and_eq_true] at h
        exact ⟨[b], s, ⟨b, h.1, rfl⟩, h.2, rfl⟩

theorem word_entries_iff :
    Word entries s ↔ ∃ rule ∈ LexicalRule.all, rule.pattern.Matches s := by
  rw [← LexicalRule.map_entry_all]
  simp only [Word, List.mem_map, exists_exists_and_eq_and]
  rfl

/-- A text that starts with a letter or an underscore has nothing else but word bytes. -/
theorem all_isWord_of_word (hb : isIdentifierStart b = true) (h : Word entries (b :: s)) :
    (b :: s).all isWord = true := by
  obtain ⟨rule, hrule, hmatch⟩ := word_entries_iff.mp h
  rcases List.mem_append.mp (mem_wordRules_of_matches hb hrule hmatch) with hword | hword
  · obtain ⟨k, hk, rfl⟩ := List.mem_map.mp hword
    have hletters : ∀ k ∈ keywords, (ascii k.2).all isWord = true := by decide
    rw [Pattern.matches_literal_iff.mp hmatch]
    exact hletters k hk
  · rw [List.mem_singleton.mp hword] at hmatch
    have hidentifier := matches_identifier_iff.mp hmatch
    simp only [Bytes.isIdentifier, Bool.and_eq_true] at hidentifier
    simp [isWord, hidentifier]

theorem not_unmatched_of_isIdentifierStart (hb : isIdentifierStart b = true) :
    ¬ Unmatched entries (b :: s) := by
  intro h
  refine h [b] (List.cons_prefix_cons.mpr ⟨rfl, List.nil_prefix⟩) (List.cons_ne_nil b []) ?_
  refine word_entries_iff.mpr ⟨.identifier, by decide, matches_identifier_iff.mpr ?_⟩
  simp [Bytes.isIdentifier, hb]

/-- A text that starts with a letter or an underscore is the whole run of word bytes. -/
theorem LongestWord.eq_takeWhile (hb : isIdentifierStart b = true)
    (h : LongestWord entries (b :: s) u kind) : u = (b :: s).takeWhile isWord := by
  have hrun : Word entries ((b :: s).takeWhile isWord) := by
    have hword : isWord b = true := by simp [isWord, hb]
    refine word_entries_iff.mpr ⟨.identifier, by decide, matches_identifier_iff.mpr ?_⟩
    rw [List.takeWhile_cons_of_pos hword, Bytes.isIdentifier, hb, Bool.true_and]
    exact List.all_takeWhile
  obtain ⟨tail, htail⟩ := h.starts
  have hall : ∀ a ∈ u, isWord a = true := by
    cases u with
    | nil => exact absurd rfl h.ne_nil
    | cons a u =>
        obtain ⟨rfl, _⟩ := List.cons_prefix_cons.mp h.starts
        exact List.all_eq_true.mp
          (all_isWord_of_word hb (word_iff_firstKind.mpr ⟨kind, h.kind_eq⟩))
  have hstarts : u <+: (b :: s).takeWhile isWord := by
    rw [← htail, List.takeWhile_append_of_pos hall]
    exact List.prefix_append u _
  exact hstarts.eq_of_length_le (h.longest _ (List.takeWhile_prefix isWord) hrun)

theorem firstKind_foldl_advance {w : Bytes} {rules : List LexicalRule} :
    FirstKind ((w.foldl (fun rules b => advance b rules) rules).map LexicalRule.entry) s kind ↔
      FirstKind (rules.map LexicalRule.entry) (w ++ s) kind := by
  induction w generalizing rules with
  | nil => rfl
  | cons b w ih => rw [List.foldl_cons, ih, firstKind_advance, List.cons_append]

theorem firstKind_keyword : ∀ k ∈ keywords, FirstKind entries (ascii k.2) k.1 := by
  have haccepted : ∀ k ∈ keywords,
      accepted? ((ascii k.2).foldl (fun rules b => advance b rules) LexicalRule.all) =
        some k.1 := by
    decide +kernel
  intro k hk
  have hfirst := accepted?_eq_some_iff.mp (haccepted k hk)
  rwa [firstKind_foldl_advance, List.append_nil, LexicalRule.map_entry_all] at hfirst

/-- Only a keyword's own text is of its kind. -/
theorem FirstKind.eq_keyword_iff {k : TokenKind × String} (h : FirstKind entries s kind)
    (hk : k ∈ keywords) : kind = k.1 ↔ s = ascii k.2 := by
  constructor
  · rintro rfl
    have honly : ∀ k ∈ keywords, ∀ rule ∈ LexicalRule.all,
        rule.kind = k.1 → rule = .fixed k.1 k.2 := by decide
    rw [← LexicalRule.map_entry_all] at h
    obtain ⟨before, e, behind, hentries, hkind, hs, _⟩ := h
    have he : e ∈ LexicalRule.all.map LexicalRule.entry := by simp [hentries]
    obtain ⟨rule, hrule, rfl⟩ := List.mem_map.mp he
    have hfixed := honly k hk rule hrule hkind
    subst hfixed
    exact Pattern.matches_literal_iff.mp hs
  · rintro rfl
    exact h.unique (firstKind_keyword k hk)

end Lexicon

/-! ## The tokens of a source -/

open Lexicon in
/-- The next token is the longest text that stands at its place, of the kind of the first entry that
holds it; where no text stands, it takes the bytes up to the first that no text goes on with, and
the invalid pieces right behind them. A token that starts with a letter or an underscore is a
keyword exactly if the whole run of word bytes at its place is that keyword. -/
theorem tokenize_maximal_munch (source : Bytes) (front tokens : List Token) (t : Token)
    (h : tokenize source = front ++ t :: tokens) :
    let rest := source.drop t.position.offset
    ((∃ u, u <+: rest ∧ u ≠ [] ∧ Word entries u) → LongestWord entries rest t.text t.kind) ∧
      (Unmatched entries rest → t.kind = .invalid ∧ InvalidRun entries rest t.text) ∧
      ∀ b ∈ t.text.head?, isIdentifierStart b = true → ∀ k ∈ keywords,
        (t.kind = k.1 ↔ rest.takeWhile isWord = ascii k.2) := by
  intro rest
  have hrun := Lexer.emits_tokenize source
  rw [h] at hrun
  obtain ⟨l, l', hnext, hbytes⟩ := hrun.next_eq
  have hrest : l.rest = rest := by
    have hplaced := placed_tokenize source
    rw [h, Token.placed_append] at hplaced
    have hoffset : t.position.offset = (Token.concat front).length := by simpa using hplaced.2.1
    have hsource := concat_tokenize source
    rw [h, Token.concat_append] at hsource
    rw [hbytes, show rest = source.drop t.position.offset from rfl, hoffset, ← hsource,
      List.drop_left]
  have hmunch := Lexer.next_munch hnext
  rw [hrest] at hmunch
  refine ⟨?_, ?_, ?_⟩
  · rintro ⟨u, hu, hne, hword⟩
    rcases hmunch with hlongest | ⟨hunmatched, _⟩
    · exact hlongest
    · exact absurd hword (hunmatched u hu hne)
  · intro hunmatched
    rcases hmunch with hlongest | ⟨_, hinvalid⟩
    · exact absurd (word_iff_firstKind.mpr ⟨_, hlongest.kind_eq⟩)
        (hunmatched t.text hlongest.starts hlongest.ne_nil)
    · exact hinvalid
  · intro b hb hstart k hk
    obtain ⟨s, hs⟩ : ∃ s, rest = b :: s := by
      obtain ⟨htext, _⟩ := Lexer.next_token hnext
      rw [hrest, ← List.cons_head?_tail hb] at htext
      exact ⟨_, htext⟩
    rw [hs] at hmunch ⊢
    rcases hmunch with hlongest | ⟨hunmatched, _⟩
    · rw [← hlongest.eq_takeWhile hstart]
      exact hlongest.kind_eq.eq_keyword_iff hk
    · exact absurd hunmatched (not_unmatched_of_isIdentifierStart hstart)

open Lexicon in
/-- An opening mark of a comment that is never closed is two tokens, a keyword ends where its run of
word bytes does, and two bytes that start no text are one token. -/
theorem tokenize_maximal_munch_openComment :
    tokenize (ascii "/*int@$") =
        [⟨.operator, ascii "/", ⟨0, 1, 1⟩⟩, ⟨.star, ascii "*", ⟨1, 1, 7⟩⟩,
          ⟨.intKeyword, ascii "int", ⟨2, 1, 8⟩⟩, ⟨.invalid, ascii "@$", ⟨5, 1, 11⟩⟩] ∧
      LongestWord entries (ascii "/*int@$") (ascii "/") .operator ∧
      (ascii "int@$").takeWhile isWord = ascii "int" ∧
      Unmatched entries (ascii "@$") ∧ InvalidRun entries (ascii "@$") (ascii "@$") := by
  have htokens : tokenize (ascii "/*int@$") =
      [⟨.operator, ascii "/", ⟨0, 1, 1⟩⟩, ⟨.star, ascii "*", ⟨1, 1, 7⟩⟩,
        ⟨.intKeyword, ascii "int", ⟨2, 1, 8⟩⟩, ⟨.invalid, ascii "@$", ⟨5, 1, 11⟩⟩] := by
    decide +kernel
  have hunmatched : Unmatched entries (ascii "@$") := by
    rw [← LexicalRule.map_entry_all]
    exact Lexer.unmatched_of_isEmpty (by decide)
  refine ⟨htokens, ?_, ?_, hunmatched, ?_⟩
  · refine (tokenize_maximal_munch _ [] _ _ htokens).1 ⟨ascii "/", by decide, by decide, ?_⟩
    exact word_entries_iff.mpr
      ⟨.operator, by decide, matches_byteOf_iff.mpr ⟨0x2F, by decide, rfl⟩⟩
  · exact ((tokenize_maximal_munch _ [_, _] _ _ htokens).2.2 0x69 rfl (by decide)
      (.intKeyword, "int") (by decide)).mp rfl
  · exact ((tokenize_maximal_munch _ [_, _, _] _ _ htokens).2.1 hunmatched).2

end HeaderBinding
