import HeaderBinding.Proofs.Token.Touching

/-!
# The tokens of enumerator texts

The text of an enumerator leaves out the comments and line breaks among its tokens and puts nothing
in their place. Cut again, it gives the tokens of the enumerator exactly if none of them joins what
has come to stand behind it.
-/

namespace HeaderBinding

open Lexicon

/-- The tokens other than white space. -/
def withoutBlanks (tokens : List Token) : List Token :=
  tokens.filter fun t => t.kind != .whiteSpace

/-- No token joins the text of the tokens behind it. -/
def Apart : List Token → Prop
  | [] => True
  | t :: tokens => ¬ t.Joins (Token.concat tokens) ∧ Apart tokens

section

variable {tokens others : List Token} {t : Token}

theorem withoutBlanks_cons_of_blank (ht : t.kind = .whiteSpace) :
    withoutBlanks (t :: tokens) = withoutBlanks tokens := by
  simp [withoutBlanks, ht]

theorem withoutBlanks_cons (ht : t.kind ≠ .whiteSpace) :
    withoutBlanks (t :: tokens) = t :: withoutBlanks tokens := by
  simp [withoutBlanks, ht]

theorem withoutBlanks_of_blank (h : ∀ t ∈ tokens, t.kind = .whiteSpace) :
    withoutBlanks tokens = [] := by
  simpa [withoutBlanks] using h

theorem withoutBlanks_append (tokens others : List Token) :
    withoutBlanks (tokens ++ others) = withoutBlanks tokens ++ withoutBlanks others :=
  List.filter_append tokens others

/-- White space is told by the spelling. -/
theorem map_spelling_withoutBlanks (tokens : List Token) :
    (withoutBlanks tokens).map Token.spelling =
      (tokens.map Token.spelling).filter fun token => token.1 != .whiteSpace := by
  rw [List.filter_map]
  rfl

theorem mem_lineBlanks_concat (htext : ∀ t ∈ tokens, t.IsText)
    (h : ∀ t ∈ tokens, t.kind = .whiteSpace) : ∀ b ∈ Token.concat tokens, b ∈ lineBlanks := by
  intro b hb
  obtain ⟨text, hmem, hb⟩ := List.mem_flatten.mp hb
  obtain ⟨t, ht, rfl⟩ := List.mem_map.mp hmem
  exact (htext t ht).mem_lineBlanks (h t ht) b hb

/-! ## Blanks around the tokens -/

/-- Tokens are all white space, or white space around tokens with a bounded text. By induction from
the end. -/
theorem blank_or_bounded (h : ∀ t ∈ tokens, t.IsText) :
    (∀ t ∈ tokens, t.kind = .whiteSpace) ∨
      ∃ front core back, tokens = front ++ (core ++ back) ∧ (∀ t ∈ front, t.kind = .whiteSpace) ∧
        (∀ t ∈ back, t.kind = .whiteSpace) ∧ (Token.concat core).Bounded := by
  induction tokens using List.reverseRecOn with
  | nil => exact .inl nofun
  | append_singleton tokens t ih =>
      obtain ⟨hothers, ht⟩ := List.forall_mem_append.mp h
      have ht : t.IsText := ht t (List.mem_singleton_self t)
      by_cases hblank : t.kind = .whiteSpace
      · rcases ih hothers with hall | ⟨front, core, back, rfl, hfront, hback, hcore⟩
        · exact .inl (List.forall_mem_append.mpr ⟨hall, by simpa using hblank⟩)
        · refine .inr ⟨front, core, back ++ [t], by simp, hfront, ?_, hcore⟩
          exact List.forall_mem_append.mpr ⟨hback, by simpa using hblank⟩
      · have hbounded := ht.bounded hblank
        rcases ih hothers with hall | ⟨front, core, back, rfl, hfront, -, hcore⟩
        · exact .inr ⟨tokens, [t], [], by simp, hall, nofun, by simpa using hbounded⟩
        · refine .inr ⟨front, core ++ (back ++ [t]), [], by simp, hfront, nofun, ?_⟩
          simpa using hcore.append (Token.concat back) hbounded

/-- Trimming cuts off the white space around the tokens. -/
theorem exists_core (h : ∀ t ∈ tokens, t.IsText) :
    ∃ front core back, tokens = front ++ (core ++ back) ∧ (∀ t ∈ front, t.kind = .whiteSpace) ∧
      (∀ t ∈ back, t.kind = .whiteSpace) ∧
      Bytes.trim (Token.concat tokens) = Token.concat core := by
  rcases blank_or_bounded h with hall | ⟨front, core, back, rfl, hfront, hback, hcore⟩
  · refine ⟨tokens, [], [], by simp, hall, nofun, ?_⟩
    exact trim_of_blank (mem_lineBlanks_concat h hall)
  · refine ⟨front, core, back, rfl, hfront, hback, ?_⟩
    have hleft := mem_lineBlanks_concat (fun t ht => h t (by simp [ht])) hfront
    have hright := mem_lineBlanks_concat (fun t ht => h t (by simp [ht])) hback
    rw [Token.concat_append, Token.concat_append, Bytes.trim, trimLeft_append_blank hleft,
      hcore.trimLeft_append, trimRight_append_blank hright, hcore.trimRight]

/-! ## Tokens that stay apart -/

/-- Blanks before a text are a token of their own, or join the blanks there. -/
theorem Lexical.exists_blanks {u : Bytes} (h : Lexical tokens) (hne : u ≠ [])
    (hu : ∀ b ∈ u, b ∈ lineBlanks) :
    ∃ others, Lexical others ∧ Token.concat others = u ++ Token.concat tokens ∧
      withoutBlanks others = withoutBlanks tokens := by
  by_cases hnext : ∀ b ∈ (Token.concat tokens).head?, b ∉ lineBlanks
  · refine ⟨.spelled .whiteSpace u :: tokens, h.cons (longestWord_blanks hne hu hnext), ?_, ?_⟩
    · rfl
    · exact withoutBlanks_cons_of_blank rfl
  · simp only [not_forall, not_not] at hnext
    obtain ⟨b, hb, hblank⟩ := hnext
    cases tokens with
    | nil => cases hb
    | cons t tokens =>
        have hb' : b ∈ t.text.head? := by
          rwa [Token.concat_cons, List.head?_append_of_ne_nil _ h.text_ne_nil] at hb
        obtain ⟨hkind, hall, hnext⟩ := h.blanks hb' hblank
        have hall' : ∀ c ∈ u ++ t.text, c ∈ lineBlanks := List.forall_mem_append.mpr ⟨hu, hall⟩
        refine ⟨.spelled .whiteSpace (u ++ t.text) :: tokens, ?_, ?_, ?_⟩
        · exact h.tail.cons (longestWord_blanks (by simp [Token.spelled, hne]) hall' hnext)
        · simp [Token.spelled]
        · rw [withoutBlanks_cons_of_blank rfl, withoutBlanks_cons_of_blank hkind]

/-- Tokens that stay apart are the tokens of their text, up to white space. -/
theorem Apart.exists_lexical (h : Apart tokens) (htext : ∀ t ∈ tokens, t.IsText) :
    ∃ others, Lexical others ∧ Token.concat others = Token.concat tokens ∧
      withoutBlanks others = withoutBlanks tokens := by
  induction tokens with
  | nil => exact ⟨[], lexical_nil, rfl, rfl⟩
  | cons t tokens ih =>
      obtain ⟨ht, htext⟩ := List.forall_mem_cons.mp htext
      obtain ⟨others, hlexical, hconcat, hsame⟩ := ih h.2 htext
      by_cases hblank : t.kind = .whiteSpace
      · obtain ⟨blanks, hlexical, hconcat', hsame'⟩ :=
          hlexical.exists_blanks ht.ne_nil (ht.mem_lineBlanks hblank)
        refine ⟨blanks, hlexical, by rw [hconcat', hconcat, Token.concat_cons], ?_⟩
        rw [hsame', hsame, withoutBlanks_cons_of_blank hblank]
      · refine ⟨t :: others, hlexical.cons ?_, by simp [hconcat], ?_⟩
        · rw [hconcat]
          exact ht.longestWord hblank h.1
        · rw [withoutBlanks_cons hblank, withoutBlanks_cons hblank, hsame]

theorem Lexical.of_isInfix (h : Lexical tokens) (hothers : others <:+: tokens) :
    Lexical others := by
  obtain ⟨front, back, rfl⟩ := hothers
  exact h.front.back

theorem Lexical.isText_of_isTextKind (h : Lexical tokens) (ht : t ∈ tokens)
    (hkind : isTextKind t.kind = true) : t.IsText where
  firstKind := h.firstKind_of_isTextKind ht hkind
  ne_nil := Cut.text_ne_nil h t.spelling (List.mem_map_of_mem ht)
  isTextKind := hkind

/-- The tokens of a text are texts of an enumerator if they are spelled like such, up to white
space. -/
theorem Lexical.isText (h : Lexical others) (htext : ∀ t ∈ tokens, t.IsText)
    (hsame : (withoutBlanks others).map Token.spelling =
      (withoutBlanks tokens).map Token.spelling) : ∀ t ∈ others, t.IsText := by
  intro t ht
  refine h.isText_of_isTextKind ht ?_
  by_cases hblank : t.kind = .whiteSpace
  · rw [hblank]
    rfl
  · have hmem : t.spelling ∈ (withoutBlanks tokens).map Token.spelling := by
      rw [← hsame]
      exact List.mem_map_of_mem (List.mem_filter.mpr ⟨ht, by simpa using hblank⟩)
    obtain ⟨u, hu, hspelling⟩ := List.mem_map.mp hmem
    have hkind : u.kind = t.kind := congrArg Prod.fst hspelling
    rw [← hkind]
    exact (htext u (List.mem_of_mem_filter hu)).isTextKind

/-- A text that is no white space is found behind the blanks before it. -/
theorem dropWhile_blanks {blanks core : Bytes} (hblanks : ∀ b ∈ blanks, b ∈ lineBlanks)
    (hcore : core.Bounded) (s : Bytes) :
    (blanks ++ (core ++ s)).dropWhile lineBlanks.contains = core ++ s := by
  rw [List.dropWhile_append_of_pos fun b hb => by simpa using hblanks b hb]
  obtain ⟨b, core, rfl⟩ := List.exists_cons_of_ne_nil hcore.ne_nil
  have hb : b ∉ lineBlanks := by
    intro hblank
    have hnot := (hcore.head b rfl).2
    rw [(isByte_of_mem_lineBlanks hblank).2] at hnot
    cases hnot
  rw [List.cons_append, List.dropWhile_cons_of_neg (by simpa using hb)]

/-- The first token that is no white space stands behind the blanks of its text, and the other
tokens make up what follows it there. -/
theorem exists_first {spellings : List (TokenKind × Bytes)} {s blanks : Bytes} (ht : t.IsText)
    (hblank : t.kind ≠ .whiteSpace) (hothers : ∀ t ∈ others, t.IsText)
    (hsame : (withoutBlanks others).map Token.spelling = t.spelling :: spellings)
    (htext : t.text ++ s = (Token.concat others ++ blanks).dropWhile lineBlanks.contains) :
    ∃ front first behind, others = front ++ first :: behind ∧ first.spelling = t.spelling ∧
      (withoutBlanks behind).map Token.spelling = spellings ∧
      s = Token.concat behind ++ blanks := by
  obtain ⟨first, rest, hfilter, hspelling, hrest⟩ := List.map_eq_cons_iff.mp hsame
  obtain ⟨front, behind, rfl, hfront, -, rfl⟩ := List.filter_eq_cons_iff.mp hfilter
  refine ⟨front, first, behind, rfl, hspelling, hrest, ?_⟩
  have hleft : ∀ b ∈ Token.concat front, b ∈ lineBlanks :=
    mem_lineBlanks_concat (fun t ht => hothers t (by simp [ht]))
      fun t ht => by simpa using hfront t ht
  have hfirst : first.text = t.text := congrArg Prod.snd hspelling
  rw [Token.concat_append, Token.concat_cons, hfirst, List.append_assoc, List.append_assoc,
    dropWhile_blanks hleft (ht.bounded hblank)] at htext
  exact List.append_cancel_left htext

/-- A token at its place in a text does not join what follows it there. -/
theorem Lexical.not_joins {first : Token} (h : Lexical (first :: others)) (ht : t.IsText)
    (hblank : t.kind ≠ .whiteSpace) (hspelling : first.spelling = t.spelling)
    (hothers : ∀ t ∈ others, t.IsText) : ¬ t.Joins (Token.concat others) := by
  have hvalid {t : Token} (ht : t.IsText) : t.kind ≠ .invalid := by
    intro hinvalid
    have hkind := ht.isTextKind
    rw [hinvalid] at hkind
    cases hkind
  obtain ⟨hkind, htext⟩ := Prod.mk.inj hspelling
  have hlongest := h.longestWord (by rw [hkind]; exact hvalid ht)
  obtain ⟨cs, hcs⟩ := h.tail.exists_utf8 fun t ht => hvalid (hothers t ht)
  rw [hkind, htext, ← hcs, ht.longestWord_iff hblank, hcs] at hlongest
  exact hlongest

/-- The tokens of a text are apart, if an enumerator may hold them. -/
theorem Lexical.apart (h : Lexical tokens) (htext : ∀ t ∈ tokens, t.IsText) : Apart tokens := by
  induction tokens with
  | nil => trivial
  | cons t tokens ih =>
      obtain ⟨ht, htext⟩ := List.forall_mem_cons.mp htext
      refine ⟨?_, ih h.tail htext⟩
      by_cases hblank : t.kind = .whiteSpace
      · exact ht.not_joins_of_blank hblank _
      · exact h.not_joins ht hblank rfl htext

/-- Tokens are apart if their text, but for blanks around it, is cut into the same ones. By
induction on the tokens: behind the blanks before it, each stands at the start of a text that is cut
into it and the tokens of what follows. -/
theorem apart_of_lexical {blanks : Bytes} (htext : ∀ t ∈ tokens, t.IsText)
    (hlexical : Lexical others)
    (hsame : (withoutBlanks others).map Token.spelling = (withoutBlanks tokens).map Token.spelling)
    (hblanks : ∀ b ∈ blanks, b ∈ lineBlanks)
    (hconcat : (Token.concat tokens).dropWhile lineBlanks.contains =
      (Token.concat others ++ blanks).dropWhile lineBlanks.contains) : Apart tokens := by
  induction tokens generalizing others with
  | nil => trivial
  | cons t tokens ih =>
      have hothers := hlexical.isText htext hsame
      obtain ⟨ht, htext⟩ := List.forall_mem_cons.mp htext
      by_cases hblank : t.kind = .whiteSpace
      · have hall := ht.mem_lineBlanks hblank
        rw [Token.concat_cons,
          List.dropWhile_append_of_pos fun b hb => by simpa using hall b hb] at hconcat
        rw [withoutBlanks_cons_of_blank hblank] at hsame
        exact ⟨ht.not_joins_of_blank hblank _, ih htext hlexical hsame hconcat⟩
      · have hnone : ∀ b ∈ ([] : Bytes), b ∈ lineBlanks := nofun
        have hstart := dropWhile_blanks hnone (ht.bounded hblank) (Token.concat tokens)
        rw [List.nil_append, ← Token.concat_cons, hconcat, Token.concat_cons] at hstart
        rw [withoutBlanks_cons hblank, List.map_cons] at hsame
        obtain ⟨front, first, behind, rfl, hspelling, hsame, hrest⟩ :=
          exists_first ht hblank hothers hsame hstart.symm
        have hbehind : ∀ t ∈ behind, t.IsText := fun t ht => hothers t (by simp [ht])
        have hnot := hlexical.back.not_joins ht hblank hspelling hbehind
        refine ⟨?_, ih htext hlexical.back.tail hsame (by rw [hrest])⟩
        rwa [hrest, joins_append_blank_iff hblanks]

/-- The text of tokens without the blanks around it is cut into the same tokens, up to white space,
exactly if they are apart. -/
theorem withoutBlanks_tokenize_iff (h : ∀ t ∈ tokens, t.IsText) :
    (withoutBlanks (tokenize (Bytes.trim (Token.concat tokens)))).map Token.spelling =
      (withoutBlanks tokens).map Token.spelling ↔ Apart tokens := by
  constructor
  · intro hsame
    obtain ⟨front, core, back, htokens, hfront, hback, htrim⟩ := exists_core h
    have hleft := mem_lineBlanks_concat (fun t ht => h t (by simp [htokens, ht])) hfront
    have hright := mem_lineBlanks_concat (fun t ht => h t (by simp [htokens, ht])) hback
    refine apart_of_lexical h (lexical_tokenize _) hsame hright ?_
    rw [concat_tokenize, htrim, htokens, Token.concat_append, Token.concat_append,
      List.dropWhile_append_of_pos fun b hb => by simpa using hleft b hb]
  · intro hapart
    obtain ⟨others, hlexical, hconcat, hsame⟩ := hapart.exists_lexical h
    obtain ⟨front, core, back, rfl, hfront, hback, htrim⟩ :=
      exists_core (hlexical.isText h (by rw [hsame]))
    rw [withoutBlanks_append, withoutBlanks_append, withoutBlanks_of_blank hfront,
      withoutBlanks_of_blank hback, List.append_nil, List.nil_append] at hsame
    rw [← hconcat, htrim, map_spelling_withoutBlanks, spelling_tokenize hlexical.back.front,
      ← map_spelling_withoutBlanks, hsame]

end

/-! ## The enumerators of a body -/

/-- The tokens between the first opening brace and the next closing one. -/
def bracedTokens (tokens : List Token) : List Token :=
  ((tokens.dropWhile (·.kind != .leftBrace)).drop 1).takeWhile (·.kind != .rightBrace)

theorem bracedTokens_append {head body : List Token} {left right : Token}
    (hhead : ∀ t ∈ head, t.kind ≠ .leftBrace) (hleft : left.kind = .leftBrace)
    (hbody : ∀ t ∈ body, t.kind ≠ .rightBrace) (hright : right.kind = .rightBrace)
    (rest : List Token) : bracedTokens (head ++ left :: (body ++ right :: rest)) = body := by
  rw [bracedTokens, List.dropWhile_append_of_pos (by simpa using hhead),
    List.dropWhile_cons_of_neg (by simp [hleft]), List.drop_one, List.tail_cons,
    List.takeWhile_append_of_pos (by simpa using hbody),
    List.takeWhile_cons_of_neg (by simp [hright]), List.append_nil]

theorem bracedTokens_isInfix (tokens : List Token) : bracedTokens tokens <:+: tokens :=
  (List.takeWhile_prefix _).isInfix.trans
    ((List.drop_suffix _ _).trans (List.dropWhile_suffix _)).isInfix

namespace Grammar

variable {o : ReadOptions} {t : Token} {body front rest : List Token} {attributes : List Bytes}

/-- The tokens of the enumerators of a body: what stands between its commas. Only the last may be
empty, and then is none. -/
def enumeratorPieces (body : List Token) : List (List Token) :=
  (body.splitOnP (·.kind == .comma)).filter fun piece => !(enumeratorText piece).isEmpty

theorem ne_comma_of_endsEnumerator (ht : endsEnumerator t = false) :
    (t.kind == .comma) = false := by
  revert ht
  cases h : t.kind <;> simp [endsEnumerator, h]

theorem enumeratorPieces_cons {piece tokens : List Token}
    (hpiece : ∀ t ∈ piece, endsEnumerator t = false) (hne : enumeratorText piece ≠ [])
    (ht : t.kind = .comma) :
    enumeratorPieces (piece ++ t :: tokens) = piece :: enumeratorPieces tokens := by
  have hcomma : ∀ t ∈ piece, (t.kind == .comma) = false :=
    fun t ht => ne_comma_of_endsEnumerator (hpiece t ht)
  rw [enumeratorPieces, List.splitOnP_append_cons _ _ (by simp [ht]),
    List.splitOnP_eq_singleton hcomma]
  simp [enumeratorPieces, hne]

theorem enumeratorPieces_piece {piece : List Token}
    (hpiece : ∀ t ∈ piece, endsEnumerator t = false) :
    enumeratorPieces piece = if enumeratorText piece = [] then [] else [piece] := by
  have hcomma : ∀ t ∈ piece, (t.kind == .comma) = false :=
    fun t ht => ne_comma_of_endsEnumerator (hpiece t ht)
  rw [enumeratorPieces, List.splitOnP_eq_singleton hcomma]
  split <;> simp [*]

theorem Enumerators.eq_map_pieces (h : Enumerators body attributes) :
    attributes = (enumeratorPieces body).map enumeratorText := by
  induction h with
  | empty hpiece hnil => simp [enumeratorPieces_piece hpiece, hnil]
  | last hpiece hne => simp [enumeratorPieces_piece hpiece, hne]
  | cons hpiece hne ht _ ih => rw [enumeratorPieces_cons hpiece hne ht, List.map_cons, ← ih]

theorem Enumerators.pieces (h : Enumerators body attributes) :
    ∀ piece ∈ enumeratorPieces body,
      (∀ t ∈ piece, endsEnumerator t = false) ∧ piece <:+: body := by
  induction h with
  | empty hpiece hnil => simp [enumeratorPieces_piece hpiece, hnil]
  | last hpiece hne => simpa [enumeratorPieces_piece hpiece, hne] using hpiece
  | @cons piece tokens t texts hpiece hne ht _ ih =>
      rw [enumeratorPieces_cons hpiece hne ht]
      refine List.forall_mem_cons.mpr ⟨⟨hpiece, (List.prefix_append _ _).isInfix⟩, ?_⟩
      intro other hother
      have hbehind : tokens <:+: piece ++ t :: tokens :=
        ((List.suffix_cons t tokens).trans (List.suffix_append _ _)).isInfix
      exact ⟨(ih other hother).1, (ih other hother).2.trans hbehind⟩

/-- The body of an enum stands in the first braces behind a head without any. -/
theorem Block.enumerators {head block : List Token} (h : Block (EnumBody o) block attributes)
    (hhead : ∀ t ∈ head, t.kind ≠ .leftBrace) (behind : List Token) :
    Enumerators (bracedTokens (head ++ (block ++ behind))) attributes := by
  cases h with
  | @mk gap body left right _ hgap hleft hbody hright =>
      have hfront : ∀ t ∈ head ++ gap, t.kind ≠ .leftBrace := by
        refine List.forall_mem_append.mpr ⟨hhead, fun t ht hkind => ?_⟩
        have hnone := List.filter_eq_nil_iff.mp hgap t ht
        simp [hkind, TokenKind.isLayoutOrNewline, TokenKind.isLayout] at hnone
      have hinside : ∀ t ∈ body, t.kind ≠ .rightBrace := by
        intro t ht hkind
        have hends := hbody.1.kind_ne t ht (by simp [hkind])
        simp [endsEnumerator, hkind] at hends
      have hbraced := bracedTokens_append hfront hleft hinside hright behind
      simp only [List.append_assoc, List.cons_append, List.nil_append] at hbraced ⊢
      rw [hbraced]
      exact hbody.1

theorem ne_leftBrace_of_significant {head : List Token}
    (h : ∀ t ∈ significant head, t.kind ≠ .leftBrace) : ∀ t ∈ head, t.kind ≠ .leftBrace := by
  intro t ht hkind
  have hmem : t ∈ significant head := by simp [significant, ht, hkind, TokenKind.isLayout]
  exact h t hmem hkind

/-- An enum has the enumerators of the first braces behind its first token. -/
theorem Item.enumerators {e : Enum} (h : Item o (t :: front) (some (.enum e)))
    (rest : List Token) : Enumerators (bracedTokens (front ++ rest)) e.attributes := by
  cases h with
  | @enum _ name head block tail _ _ hhead hname hblock =>
      have hkinds : ∀ t ∈ head, t.kind ≠ .leftBrace :=
        ne_leftBrace_of_significant (by simp [hhead, hname])
      simpa using hblock.enumerators hkinds (tail ++ rest)
  | @typedefEnum _ keyword _ tag _ head block tail _ _ hhead hkeyword htag hblock =>
      have hkinds : ∀ t ∈ head, t.kind ≠ .leftBrace := by
        refine ne_leftBrace_of_significant ?_
        rw [hhead]
        refine List.forall_mem_cons.mpr ⟨by simp [hkeyword], fun t ht => ?_⟩
        simp [htag t (by simpa using ht)]
      simpa using hblock.enumerators hkinds (tail ++ rest)

theorem solid_eq_withoutBlanks (piece : List Token) :
    solid piece = withoutBlanks (piece.filter isEnumeratorText) := by
  rw [solid, withoutBlanks, List.filter_filter]
  refine List.filter_congr fun t _ => ?_
  simp only [isEnumeratorText, TokenKind.isLayoutOrNewline, TokenKind.isLayout]
  cases t.kind <;> rfl

end Grammar

open Grammar

/-- An enum of a header is read at a token of it. Its attributes are the texts of the pieces between
the commas of its body. Such a text is cut into the tokens of its piece, layout and line breaks
aside, exactly if no token joins what stands behind it once comments and line breaks are left out;
and where there are none to leave out, no token does. -/
theorem readHeader_enumerator_tokens (o : ReadOptions) (source : Bytes) :
    (∀ e, .enum e ∈ (readHeader o source).declarations →
      ∃ start tokens rest, start :: tokens <:+ tokenize source ∧
        readConstruct o start tokens = .done (some (.enum e)) rest) ∧
    ∀ start tokens rest e, start :: tokens <:+ tokenize source →
      readConstruct o start tokens = .done (some (.enum e)) rest →
      e.attributes = (enumeratorPieces (bracedTokens tokens)).map enumeratorText ∧
      ∀ piece ∈ enumeratorPieces (bracedTokens tokens),
        ((withoutBlanks (tokenize (enumeratorText piece))).map Token.spelling =
            (solid piece).map Token.spelling ↔ Apart (piece.filter isEnumeratorText)) ∧
          ((∀ t ∈ piece, isEnumeratorText t = true) →
            Apart (piece.filter isEnumeratorText)) := by
  refine ⟨fun e he => readHeader_declared he, ?_⟩
  intro start tokens rest e hsource hread
  have hdirective : start.kind.isDirective = false := by
    rw [Bool.eq_false_iff]
    intro hstart
    cases readConstruct_directive hstart hread
  obtain ⟨front, rfl, hitem⟩ := readConstruct_item hdirective hread
  have henumerators := hitem.enumerators rest
  refine ⟨henumerators.eq_map_pieces, fun piece hmem => ?_⟩
  obtain ⟨hends, hinfix⟩ := henumerators.pieces piece hmem
  have hlexical : Lexical piece := by
    refine (lexical_tokenize source).of_isInfix ?_
    exact hinfix.trans ((bracedTokens_isInfix _).trans
      ((List.suffix_cons start _).trans hsource).isInfix)
  have htext : ∀ t ∈ piece.filter isEnumeratorText, t.IsText := by
    intro t ht
    obtain ⟨ht, hkept⟩ := List.mem_filter.mp ht
    exact hlexical.isText_of_isTextKind ht (isTextKind_iff.mpr ⟨hends t ht, hkept⟩)
  refine ⟨?_, fun hall => ?_⟩
  · rw [solid_eq_withoutBlanks]
    exact withoutBlanks_tokenize_iff htext
  · have hkept : piece.filter isEnumeratorText = piece := List.filter_eq_self.mpr hall
    rw [hkept] at htext ⊢
    exact hlexical.apart htext

/-- The tokens of an enumerator stay apart where blanks are left beside its comment. -/
theorem readHeader_enumerator_tokens_blanks :
    let source := ascii "enum E \x7b A /* , */ = 1 \x7d;"
    let start : Token := ⟨.enumKeyword, ascii "enum", .start⟩
    let tokens := (tokenize source).tail
    let e : Enum := ⟨ascii "E", [ascii "A  = 1"]⟩
    start :: tokens <:+ tokenize source ∧
      readConstruct .default start tokens = .done (some (.enum e)) [] ∧
      e.attributes = (enumeratorPieces (bracedTokens tokens)).map enumeratorText ∧
      ∀ piece ∈ enumeratorPieces (bracedTokens tokens),
        Apart (piece.filter isEnumeratorText) := by
  intro source start tokens e
  have hsource : start :: tokens <:+ tokenize source := by decide +kernel
  have hread : readConstruct .default start tokens = .done (some (.enum e)) [] := by
    decide +kernel
  have hsame : ∀ piece ∈ enumeratorPieces (bracedTokens tokens),
      (withoutBlanks (tokenize (enumeratorText piece))).map Token.spelling =
        (solid piece).map Token.spelling := by
    decide +kernel
  obtain ⟨hattributes, hpieces⟩ :=
    (readHeader_enumerator_tokens .default source).2 start tokens [] e hsource hread
  refine ⟨hsource, hread, hattributes, fun piece hmem => ?_⟩
  exact (hpieces piece hmem).1.mp (hsame piece hmem)

/-- A comment is all that keeps two keywords apart: without it they are one name. -/
theorem readHeader_enumerator_joins_tokens :
    let source := ascii "enum E \x7b A = sizeof(long/**/int) \x7d;"
    let piece := bracedTokens (tokenize source)
    (readHeader .default source).declarations = [.enum ⟨ascii "E", [ascii "A = sizeof(longint)"]⟩] ∧
      enumeratorPieces piece = [piece] ∧ enumeratorText piece = ascii "A = sizeof(longint)" ∧
      (withoutBlanks (tokenize (enumeratorText piece))).map Token.spelling ≠
        (solid piece).map Token.spelling := by
  decide +kernel

end HeaderBinding
