import HeaderBinding.Proofs.Token.Cutting

/-!
# Line feeds in tokens

The only words that hold a line feed are line breaks and block comments. An invalid token holds one
where a literal was opened and not closed: the line feed at which the literal breaks off is given up
with it.
-/

namespace HeaderBinding

/-! ## Bytes that a pattern leaves out -/

namespace Pattern

variable {p : Pattern} {s : Bytes} {b : UInt8}

/-- Does no range of the pattern hold the byte? -/
def avoids (b : UInt8) : Pattern → Bool
  | .void => true
  | .empty => true
  | .range low high => !(low ≤ b && b ≤ high)
  | .seq p q => p.avoids b && q.avoids b
  | .alt p q => p.avoids b && q.avoids b
  | .star p => p.avoids b

theorem not_mem_of_avoids (h : p.avoids b = true) (hs : p.Matches s) : b ∉ s := by
  induction hs with
  | empty => simp
  | range hl hh =>
      intro hmem
      rw [List.mem_singleton.mp hmem] at h
      simp [avoids, hl, hh] at h
  | seq _ _ ihp ihq =>
      simp only [avoids, Bool.and_eq_true] at h
      simp [ihp h.1, ihq h.2]
  | altLeft _ ih =>
      simp only [avoids, Bool.and_eq_true] at h
      exact ih h.1
  | altRight _ ih =>
      simp only [avoids, Bool.and_eq_true] at h
      exact ih h.2
  | starNil => simp
  | starCons _ _ ihp ihrest =>
      rw [List.mem_append, not_or]
      exact ⟨ihp h, ihrest h⟩

end Pattern

namespace Lexicon

open Lexer

variable {s u v w : Bytes} {b : UInt8} {kind : TokenKind}

/-! ## Words with a line feed -/

theorem FirstKind.rule (h : FirstKind entries s kind) :
    ∃ rule ∈ LexicalRule.all, rule.kind = kind ∧ rule.pattern.Matches s := by
  rw [← LexicalRule.map_entry_all] at h
  obtain ⟨before, e, behind, hentries, hkind, hs, _⟩ := h
  have he : e ∈ LexicalRule.all.map LexicalRule.entry := by simp [hentries]
  obtain ⟨rule, hrule, rfl⟩ := List.mem_map.mp he
  exact ⟨rule, hrule, hkind, hs⟩

theorem matches_newline_iff :
    LexicalRule.newline.pattern.Matches s ↔
      s = [lineFeed] ∨ s = [carriageReturn, lineFeed] ∨ s = [carriageReturn] := by
  simp only [LexicalRule.newline, Pattern.matches_oneOf_iff, List.mem_cons, List.not_mem_nil,
    or_false, exists_eq_or_imp, exists_eq_left, Pattern.matches_byte_iff,
    Pattern.matches_literal_iff]
  rfl

/-- A block comment starts and ends with a slash. -/
theorem blockComment_slashes (h : LexicalRule.blockComment.pattern.Matches s) :
    s.head? = some 0x2F ∧ s.getLast? = some 0x2F := by
  simp only [LexicalRule.blockComment, Pattern.inOrder] at h
  obtain ⟨opening, _, hopening, hrest, rfl⟩ := Pattern.matches_seq_iff.mp h
  obtain ⟨inside, _, _, hclosing, rfl⟩ := Pattern.matches_seq_iff.mp hrest
  obtain ⟨stars, slash, _, hslash, rfl⟩ := Pattern.matches_seq_iff.mp hclosing
  rw [Pattern.matches_literal_iff.mp hopening, Pattern.matches_byte_iff.mp hslash]
  refine ⟨rfl, ?_⟩
  simp [List.getLast?_append]

/-- A word that holds a line feed is a line break or a block comment. -/
theorem FirstKind.break_or_comment (h : FirstKind entries s kind) (hs : lineFeed ∈ s) :
    (kind = .newline ∧ (s = [lineFeed] ∨ s = [carriageReturn, lineFeed])) ∨
      (kind = .comment ∧ LexicalRule.blockComment.pattern.Matches s) := by
  have hrules : ∀ rule ∈ LexicalRule.all,
      rule = .newline ∨ rule = .blockComment ∨ rule.pattern.avoids lineFeed = true := by
    decide
  obtain ⟨rule, hrule, rfl, hmatch⟩ := h.rule
  rcases hrules rule hrule with rfl | rfl | havoids
  · rcases matches_newline_iff.mp hmatch with hbreak | hbreak | hreturn
    · exact .inl ⟨rfl, .inl hbreak⟩
    · exact .inl ⟨rfl, .inr hbreak⟩
    · rw [hreturn] at hs
      exact absurd hs (by decide)
  · exact .inr ⟨rfl, hmatch⟩
  · exact absurd hs (Pattern.not_mem_of_avoids havoids hmatch)

/-- A word goes on over a line feed only to the slash that closes a comment. -/
theorem not_word_append (hne : v ≠ []) (hreturn : v ≠ [carriageReturn]) (hw : w ≠ [])
    (hfeed : lineFeed ∈ v ++ w) (hslash : 0x2F ∉ w) : ¬ Word entries (v ++ w) := by
  intro hword
  obtain ⟨kind, hkind⟩ := word_iff_firstKind.mp hword
  obtain ⟨a, v, rfl⟩ := List.exists_cons_of_ne_nil hne
  obtain ⟨c, w, rfl⟩ := List.exists_cons_of_ne_nil hw
  rcases hkind.break_or_comment hfeed with ⟨_, hbreak | hbreak⟩ | ⟨_, hcomment⟩
  · simp at hbreak
  · simp only [List.cons_append, List.cons.injEq, List.append_eq_singleton_iff] at hbreak
    simp_all
  · have hlast := (blockComment_slashes hcomment).2
    rw [List.getLast?_append_of_ne_nil _ hw] at hlast
    exact hslash (List.mem_of_getLast? hlast)

/-! ## More behind a word -/

theorem firstKind_of_accepted?
    (h : accepted? (u.foldl (fun rules b => advance b rules) LexicalRule.all) = some kind) :
    FirstKind entries u kind := by
  have hfirst := accepted?_eq_some_iff.mp h
  rwa [firstKind_foldl_advance, List.append_nil, LexicalRule.map_entry_all] at hfirst

/-- A word is the longest one if no word goes on behind it. -/
theorem longestWord_append (hkind : FirstKind entries u kind) (hne : u ≠ [])
    (hlonger : ∀ w, w <+: s → w ≠ [] → ¬ Word entries (u ++ w)) :
    LongestWord entries (u ++ s) u kind where
  starts := List.prefix_append u s
  ne_nil := hne
  kind_eq := hkind
  longest := by
    intro v hv hword
    by_contra hlength
    have hstarts : u <+: v :=
      List.prefix_of_prefix_length_le (List.prefix_append u s) hv (by omega)
    obtain ⟨w, rfl⟩ := hstarts
    refine hlonger w ((List.prefix_append_right_inj u).mp hv) ?_ hword
    intro hnil
    simp [hnil] at hlength

theorem LongestWord.append (h : LongestWord entries (u ++ s) u kind)
    (hlonger : ∀ w, w <+: v → w ≠ [] → ¬ Word entries (u ++ s ++ w)) :
    LongestWord entries (u ++ (s ++ v)) u kind := by
  refine longestWord_append h.kind_eq h.ne_nil ?_
  intro w hw hne hword
  rcases List.prefix_or_prefix_of_prefix hw (List.prefix_append s v) with hinside | hacross
  · have hlength := h.longest (u ++ w) ((List.prefix_append_right_inj u).mpr hinside) hword
    rw [List.length_append] at hlength
    exact hne (List.eq_nil_of_length_eq_zero (by omega))
  · obtain ⟨w', rfl⟩ := hacross
    by_cases hnil : w' = []
    · subst hnil
      rw [List.append_nil] at hword hne
      have hlength := h.longest (u ++ s) List.prefix_rfl hword
      rw [List.length_append] at hlength
      exact hne (List.eq_nil_of_length_eq_zero (by omega))
    · rw [← List.append_assoc] at hword
      exact hlonger w' ((List.prefix_append_right_inj s).mp hw) hnil hword

theorem longestWord_lineFeed (s : Bytes) :
    LongestWord entries ([lineFeed] ++ s) [lineFeed] .newline := by
  refine longestWord_append (firstKind_of_accepted? (by decide)) (by simp) ?_
  intro w _ hne hword
  obtain ⟨kind, hkind⟩ := word_iff_firstKind.mp hword
  rcases hkind.break_or_comment (by simp) with ⟨_, hbreak⟩ | ⟨_, hcomment⟩
  · simp [hne, lineFeed, carriageReturn] at hbreak
  · exact absurd (blockComment_slashes hcomment).1 (by simp [lineFeed])

theorem longestWord_carriageReturn (s : Bytes) :
    LongestWord entries ([carriageReturn, lineFeed] ++ s) [carriageReturn, lineFeed] .newline := by
  refine longestWord_append (firstKind_of_accepted? (by decide)) (by simp) ?_
  intro w _ hne hword
  obtain ⟨kind, hkind⟩ := word_iff_firstKind.mp hword
  rcases hkind.break_or_comment (by simp) with ⟨_, hbreak⟩ | ⟨_, hcomment⟩
  · simp [hne] at hbreak
  · exact absurd (blockComment_slashes hcomment).1 (by simp [carriageReturn])

variable {tail more : Bytes} {front back others : List (TokenKind × Bytes)}

theorem Cut.text_ne_nil (h : Cut s others) : ∀ token ∈ others, token.2 ≠ [] := by
  induction h with
  | nil => simp
  | word hlongest _ ih => exact List.forall_mem_cons.mpr ⟨hlongest.ne_nil, ih⟩
  | invalid _ hne _ _ ih => exact List.forall_mem_cons.mpr ⟨hne, ih⟩

theorem Cut.eq_nil (h : Cut [] others) : others = [] :=
  h.unique .nil

/-- The first tokens of a text stay as they are if a line feed and no slash follows the text. The
rest of the text may go on into what follows. -/
theorem Cut.extend (h : Cut ((front.map Prod.snd).flatten ++ tail) (front ++ back))
    (hinvalid : ∀ token ∈ front, token.1 ≠ .invalid)
    (hreturn : ∀ token ∈ front.getLast?, token.2 ++ tail ≠ [carriageReturn])
    (hslash : 0x2F ∉ more) (hothers : Cut (tail ++ lineFeed :: more) others) :
    Cut ((front.map Prod.snd).flatten ++ (tail ++ lineFeed :: more)) (front ++ others) := by
  induction front with
  | nil => exact hothers
  | cons token front ih =>
      obtain ⟨kind, u⟩ := token
      rw [List.map_cons, List.flatten_cons, List.append_assoc] at h ⊢
      generalize htext : u ++ ((front.map Prod.snd).flatten ++ tail) = text at h
      cases h with
      | invalid _ _ _ _ => exact absurd rfl (hinvalid (.invalid, u) (by simp))
      | word hlongest hrest =>
          obtain rfl := List.append_cancel_left htext
          refine .word ?_ (ih hrest ?_ ?_)
          · rw [← List.append_assoc (front.map Prod.snd).flatten]
            refine hlongest.append ?_
            intro w hw hne
            obtain ⟨w, rfl, htail⟩ := (List.prefix_cons_iff.mp hw).resolve_left hne
            refine not_word_append (by simp [hlongest.ne_nil]) ?_ (by simp) (by simp) ?_
            · -- A carriage return alone would be the last token, and nothing would be left.
              intro hall
              obtain ⟨hu, hnil⟩ :
                  u = [carriageReturn] ∧ (front.map Prod.snd).flatten ++ tail = [] := by
                simpa [List.append_eq_singleton_iff, hlongest.ne_nil] using hall
              rw [hnil] at hrest
              obtain ⟨rfl, _⟩ := List.append_eq_nil_iff.mp hrest.eq_nil
              refine hreturn (kind, u) (by simp) ?_
              rw [hu, (List.append_eq_nil_iff.mp hnil).2]
              rfl
            · intro hmem
              rcases List.mem_cons.mp hmem with hfeed | hmem
              · exact absurd hfeed (by decide)
              · exact hslash (htail.subset hmem)
          · exact (List.forall_mem_cons.mp hinvalid).2
          · intro token htoken
            exact hreturn token (by simp [List.getLast?_cons, Option.mem_def.mp htoken])

/-- The tokens of a text that a line feed ends, whatever follows without a slash. -/
def LineCut (s : Bytes) (tokens : List (TokenKind × Bytes)) : Prop :=
  ∀ more others, 0x2F ∉ more → Cut more others → Cut (s ++ lineFeed :: more) (tokens ++ others)

/-- A line feed behind a text is a token of its own. -/
theorem Cut.lineCut (h : Cut s front) (hinvalid : ∀ token ∈ front, token.1 ≠ .invalid)
    (hreturn : ∀ token ∈ front.getLast?, token.2 ≠ [carriageReturn]) :
    LineCut s (front ++ [(.newline, [lineFeed])]) := by
  intro more others hslash hothers
  have htext := h.flatten_eq
  have hall : Cut ((front.map Prod.snd).flatten ++ []) (front ++ []) := by simpa [htext] using h
  have hbreak : Cut ([] ++ lineFeed :: more) ((.newline, [lineFeed]) :: others) :=
    .word (longestWord_lineFeed more) hothers
  have hextended := hall.extend hinvalid (by simpa using hreturn) hslash hbreak
  simpa [htext] using hextended

/-- A line feed behind a carriage return is one token with it. -/
theorem Cut.lineCut_carriageReturn (h : Cut s (front ++ [(kind, [carriageReturn])]))
    (hinvalid : ∀ token ∈ front, token.1 ≠ .invalid) :
    LineCut s (front ++ [(.newline, [carriageReturn, lineFeed])]) := by
  intro more others hslash hothers
  have htext : (front.map Prod.snd).flatten ++ [carriageReturn] = s := by
    simpa using h.flatten_eq
  have hreturn : ∀ token ∈ front.getLast?, token.2 ++ [carriageReturn] ≠ [carriageReturn] := by
    intro token htoken hnil
    refine h.text_ne_nil token ?_ (List.append_left_eq_self.mp hnil)
    exact List.mem_append_left _ (List.mem_of_getLast? htoken)
  have hbreak : Cut ([carriageReturn] ++ lineFeed :: more)
      ((.newline, [carriageReturn, lineFeed]) :: others) :=
    .word (longestWord_carriageReturn more) hothers
  have hextended := (htext ▸ h).extend hinvalid hreturn hslash hbreak
  simpa [← htext] using hextended

/-! ## Invalid bytes with a line feed -/

/-- Bytes from a quote on that a literal may go on with, though none ends in them. -/
structure OpenLiteral (s : Bytes) : Prop where
  starts : s.head? = some 0x22 ∨ s.head? = some 0x27
  viable : Viable entries s
  unmatched : Unmatched entries s

/-- A byte that words start with, but that is no word, is a quote. -/
theorem quote_of_viable (hviable : Viable entries [b]) (hword : ¬ Word entries [b]) :
    b = 0x22 ∨ b = 0x27 := by
  have hbytes : ∀ n : Fin 256, (advance (UInt8.ofFin n) LexicalRule.all).isEmpty = true ∨
      (accepted? (advance (UInt8.ofFin n) LexicalRule.all)).isSome = true ∨
      UInt8.ofFin n = 0x22 ∨ UInt8.ofFin n = 0x27 := by
    decide +kernel
  have hb := hbytes b.toFin
  rw [UInt8.ofFin_toFin] at hb
  rcases hb with hempty | haccepted | hquote
  · rw [← LexicalRule.map_entry_all] at hviable
    exact absurd hviable (advance_isEmpty_eq_true_iff.mp hempty)
  · obtain ⟨kind, hkind⟩ := Option.isSome_iff_exists.mp haccepted
    exact absurd (word_iff_firstKind.mpr ⟨kind, firstKind_of_accepted? (u := [b]) hkind⟩) hword
  · exact hquote

/-- Where no word stands, no word goes on with bytes that hold a line feed. -/
theorem Unmatched.not_viable (h : Unmatched entries s) (hv : v <+: s) (hfeed : lineFeed ∈ v) :
    ¬ Viable entries v := by
  intro hviable
  obtain ⟨t, ht, hstarts⟩ := hviable
  have hne : v ≠ [] := List.ne_nil_of_mem hfeed
  obtain ⟨kind, hkind⟩ := word_iff_firstKind.mp ht
  rcases hkind.break_or_comment (hstarts.subset hfeed) with ⟨_, hbreak⟩ | ⟨_, hcomment⟩
  · -- The line feed is the last byte of a line break.
    have hall : v = t := by
      apply hstarts.eq_of_length_le
      rcases hbreak with rfl | rfl
      · exact List.length_pos_iff.mpr hne
      · rcases List.prefix_cons_iff.mp hstarts with rfl | ⟨v, rfl, htail⟩
        · exact absurd rfl hne
        · have hmem : lineFeed ∈ v := by simpa [lineFeed, carriageReturn] using hfeed
          exact Nat.succ_le_succ (List.length_pos_of_mem hmem)
    exact h v hv hne (hall ▸ ht)
  · obtain ⟨b, v, rfl⟩ := List.exists_cons_of_ne_nil hne
    obtain ⟨tail, rfl⟩ := hstarts
    have hslash : b = 0x2F := by simpa using (blockComment_slashes hcomment).1
    subst hslash
    refine h [0x2F] ((List.prefix_append [0x2F] v).trans hv) (by simp) ?_
    exact word_iff_firstKind.mpr ⟨.operator, firstKind_of_accepted? (by decide)⟩

/-- An invalid piece with a line feed is a literal that the line feed breaks off. -/
theorem InvalidPiece.openLiteral (hunmatched : Unmatched entries s)
    (hpiece : InvalidPiece entries s u) (hfeed : lineFeed ∈ u) :
    ∃ literal, u = literal ++ [lineFeed] ∧ OpenLiteral literal := by
  rcases hpiece with hdead | ⟨hviable, rfl⟩
  · obtain ⟨literal, behind, rfl⟩ := List.append_of_mem hfeed
    have hbreak : literal ++ [lineFeed] <+: literal ++ lineFeed :: behind := by
      rw [List.prefix_append_right_inj, List.cons_prefix_cons]
      exact ⟨rfl, List.nil_prefix⟩
    have hnot := hunmatched.not_viable (hbreak.trans hdead.starts) (by simp)
    have hlength := hdead.shortest _ (hbreak.trans hdead.starts) hnot
    obtain rfl : behind = [] := by
      simp only [List.length_append, List.length_cons, List.length_nil] at hlength
      exact List.eq_nil_of_length_eq_zero (by omega)
    have hstarts : literal <+: s := (List.prefix_append literal _).trans hdead.starts
    have hviable : Viable entries literal := by
      by_contra hnot
      have hlength := hdead.shortest literal hstarts hnot
      simp only [List.length_append, List.length_cons, List.length_nil] at hlength
      omega
    refine ⟨literal, rfl, ?_, hviable, hunmatched.of_prefix hstarts⟩
    cases literal with
    | nil =>
        have hword : Word entries [lineFeed] :=
          word_iff_firstKind.mpr ⟨.newline, firstKind_of_accepted? (by decide)⟩
        exact absurd hword (hunmatched _ hdead.starts (by simp))
    | cons b literal =>
        have hb : [b] <+: b :: literal := List.prefix_append [b] literal
        obtain ⟨t, ht, hstarts'⟩ := hviable
        have hquote := quote_of_viable ⟨t, ht, hb.trans hstarts'⟩
          (hunmatched [b] (hb.trans hstarts) (by simp))
        simpa using hquote
  · exact absurd (hviable u List.prefix_rfl) (hunmatched.not_viable List.prefix_rfl hfeed)

/-- Each line feed among invalid bytes breaks off a literal. -/
theorem InvalidRun.openLiteral (h : InvalidRun entries s u) (hfeed : lineFeed ∈ u) :
    ∃ before literal behind, u = before ++ literal ++ lineFeed :: behind ∧
      OpenLiteral literal := by
  induction h with
  | finish => simp at hfeed
  | word _ => simp at hfeed
  | @piece u s text hunmatched _ hpiece _ ih =>
      by_cases hu : lineFeed ∈ u
      · obtain ⟨literal, rfl, hliteral⟩ := hpiece.openLiteral hunmatched hu
        exact ⟨[], literal, text, by simp, hliteral⟩
      · have htext : lineFeed ∈ text := (List.mem_append.mp hfeed).resolve_left hu
        obtain ⟨before, literal, behind, rfl, hliteral⟩ := ih htext
        exact ⟨u ++ before, literal, behind, by simp, hliteral⟩

/-- Each piece of a text is a word or a run of invalid bytes. -/
theorem Cut.mem_cases {tokens : List (TokenKind × Bytes)} (h : Cut s tokens)
    (hu : (kind, u) ∈ tokens) :
    FirstKind entries u kind ∨ (kind = .invalid ∧ ∃ rest, InvalidRun entries rest u) := by
  induction h with
  | nil => simp at hu
  | word hlongest _ ih =>
      rcases List.mem_cons.mp hu with hhead | hu
      · cases hhead
        exact .inl hlongest.kind_eq
      · exact ih hu
  | invalid _ _ hrun _ ih =>
      rcases List.mem_cons.mp hu with hhead | hu
      · cases hhead
        exact .inr ⟨rfl, _, hrun⟩
      · exact ih hu

end Lexicon

/-! ## Tokens with a line feed -/

open Lexicon

/-- A block comment from its opening to its closing mark. -/
def Token.IsBlockComment (t : Token) : Prop :=
  t.kind = .comment ∧ LexicalRule.blockComment.pattern.Matches t.text

/-- Invalid bytes with a literal among them that a line feed breaks off. -/
def Token.BreaksLiteral (t : Token) : Prop :=
  t.kind = .invalid ∧ ∃ before literal behind, t.text = before ++ literal ++ lineFeed :: behind ∧
    OpenLiteral literal

/-- A token with a line feed is a line break, a block comment, or holds a literal that is not
closed. -/
theorem tokenize_lineFeed {source : Bytes} {t : Token} (ht : t ∈ tokenize source)
    (hfeed : lineFeed ∈ t.text) :
    t.kind = .newline ∨ t.IsBlockComment ∨ t.BreaksLiteral := by
  have hmem : (t.kind, t.text) ∈ (tokenize source).map Token.spelling :=
    List.mem_map_of_mem ht
  rcases (cut_tokenize source).mem_cases hmem with hword | ⟨hkind, rest, hrun⟩
  · rcases hword.break_or_comment hfeed with ⟨hkind, _⟩ | hcomment
    · exact .inl hkind
    · exact .inr (.inl hcomment)
  · exact .inr (.inr ⟨hkind, hrun.openLiteral hfeed⟩)

end HeaderBinding
