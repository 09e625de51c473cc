import HeaderBinding.Proofs.Token.LineFeeds

/-!
# Literals and comments by their marks

A literal ends with the first quote that no backslash takes with it, whatever follows. Two slashes
always start a comment, and a slash and a star do so if a star and a slash follow somewhere behind
characters.
-/

namespace HeaderBinding

open scoped Computability

namespace Lexicon

/-! ## Characters in UTF-8 -/

theorem utf8_cons (c : Char) (cs : List Char) :
    utf8 (c :: cs) = String.utf8EncodeChar c ++ utf8 cs :=
  rfl

/-- No character's encoding goes on to another one's. -/
theorem utf8EncodeChar_append_inj {c c' : Char} {x y : Bytes}
    (h : String.utf8EncodeChar c ++ x = String.utf8EncodeChar c' ++ y) : c = c' ∧ x = y := by
  have hc := ByteArray.utf8DecodeChar?_utf8EncodeChar_append (b := x.toByteArray) (c := c)
  have hc' := ByteArray.utf8DecodeChar?_utf8EncodeChar_append (b := y.toByteArray) (c := c')
  rw [← List.toByteArray_append, h, List.toByteArray_append, hc'] at hc
  obtain rfl : c' = c := Option.some.inj hc
  exact ⟨rfl, List.append_cancel_left h⟩

theorem prefix_of_utf8_append {v w : List Char} {s : Bytes} (h : utf8 v ++ s = utf8 w) :
    v <+: w := by
  induction v generalizing w with
  | nil => exact List.nil_prefix
  | cons c v ih =>
      rw [utf8_cons, List.append_assoc] at h
      cases w with
      | nil => simp [utf8, String.utf8EncodeChar_ne_nil] at h
      | cons c' w =>
          obtain ⟨rfl, hrest⟩ := utf8EncodeChar_append_inj h
          exact (List.prefix_cons_inj c).mpr (ih hrest)

theorem byteOfChar_inj {c c' : Char} (hc : c.toNat < 0x80) (hc' : c'.toNat < 0x80)
    (h : byteOfChar c = byteOfChar c') : c = c' := by
  have hnat := congrArg UInt8.toNat h
  rw [toNat_byteOfChar hc, toNat_byteOfChar hc'] at hnat
  exact Char.toNat_inj.mp hnat

/-- A byte that no longer encoding holds stands for a character of its own. -/
theorem utf8_split {a : Char} (ha : a.toNat < 0x80)
    (havoids : Pattern.beyondAscii.avoids (byteOfChar a) = true) {cs : List Char} {x y : Bytes}
    (h : utf8 cs = x ++ byteOfChar a :: y) :
    ∃ front back, cs = front ++ a :: back ∧ utf8 front = x ∧ utf8 back = y := by
  induction cs generalizing x with
  | nil => simp [utf8] at h
  | cons c cs ih =>
      rw [utf8_cons] at h
      rcases List.append_eq_append_iff.mp h with ⟨x', rfl, hrest⟩ | ⟨inside, hchar, hrest⟩
      · obtain ⟨front, back, rfl, rfl, hback⟩ := ih hrest
        exact ⟨c :: front, back, rfl, rfl, hback⟩
      · cases inside with
        | nil =>
            obtain ⟨front, back, rfl, hfront, hback⟩ := ih (x := []) hrest.symm
            refine ⟨c :: front, back, rfl, ?_, hback⟩
            rw [utf8_cons, hfront, hchar, List.append_nil]
            simp
        | cons b inside =>
            obtain ⟨rfl, rfl⟩ := List.cons.inj hrest
            -- The byte is part of the encoding, which then is no longer one.
            have hc : c.toNat < 0x80 := by
              by_contra hbeyond
              have hmatch := matches_beyondAscii_iff.mpr ⟨c, by omega, rfl⟩
              refine Pattern.not_mem_of_avoids havoids hmatch ?_
              simp [hchar]
            rw [utf8EncodeChar_of_lt hc] at hchar
            obtain ⟨rfl, hbytes⟩ : x = [] ∧ byteOfChar a :: inside = [byteOfChar c] := by
              cases x with
              | nil => exact ⟨rfl, hchar.symm⟩
              | cons b x => simp at hchar
            obtain ⟨hbyte, rfl⟩ := List.cons.inj hbytes
            cases byteOfChar_inj ha hc hbyte
            exact ⟨[], cs, rfl, rfl, rfl⟩

/-! ## Literals -/

/-- What follows the opening quote of a literal, up to the closing one. -/
inductive QuotedTail (quote : Char) : List Char → Prop where
  | close : QuotedTail quote [quote]
  | plain {c : Char} {s : List Char} (hquote : c ≠ quote) (hslash : c ≠ '\\')
      (hs : QuotedTail quote s) : QuotedTail quote (c :: s)
  | escape {c : Char} {s : List Char} (hs : QuotedTail quote s) : QuotedTail quote ('\\' :: c :: s)

/-- The closing quote is the only one that can end a literal. -/
theorem QuotedTail.eq_of_prefix {quote : Char} {v w : List Char} (hv : QuotedTail quote v)
    (hw : QuotedTail quote w) (hquote : quote ≠ '\\') (h : v <+: w) : v = w := by
  induction hv generalizing w with
  | close =>
      cases hw with
      | close => rfl
      | plain hc => exact absurd (List.cons_prefix_cons.mp h).1.symm hc
      | escape => exact absurd (List.cons_prefix_cons.mp h).1 hquote
  | plain hc hslash _ ih =>
      cases hw with
      | close => exact absurd (List.cons_prefix_cons.mp h).1 hc
      | plain _ _ hw =>
          obtain ⟨rfl, hrest⟩ := List.cons_prefix_cons.mp h
          rw [ih hw hrest]
      | escape => exact absurd (List.cons_prefix_cons.mp h).1 hslash
  | escape _ ih =>
      cases hw with
      | close => exact absurd (List.cons_prefix_cons.mp h).1.symm hquote
      | plain _ hslash => exact absurd (List.cons_prefix_cons.mp h).1.symm hslash
      | escape hw =>
          obtain ⟨-, htaken⟩ := List.cons_prefix_cons.mp h
          obtain ⟨rfl, hrest⟩ := List.cons_prefix_cons.mp htaken
          rw [ih hw hrest]

theorem quotedTail_of_mem {quote : Char} {w : List Char}
    (h : w ∈ anyOf [quote] * (quotedChar quote)∗ * anyOf [quote]) :
    ∃ s, w = quote :: s ∧ QuotedTail quote s := by
  obtain ⟨front, hfront, last, hlast, rfl⟩ := Language.mem_mul.mp h
  obtain ⟨first, hfirst, inside, hinside, rfl⟩ := Language.mem_mul.mp hfront
  obtain ⟨_, hmem, rfl⟩ := hfirst
  obtain ⟨_, hmem', rfl⟩ := hlast
  cases List.mem_singleton.mp hmem
  cases List.mem_singleton.mp hmem'
  obtain ⟨chars, rfl, hchars⟩ := Language.mem_kstar.mp hinside
  refine ⟨chars.flatten ++ [quote], by simp, ?_⟩
  clear h hfront hmem hmem' hinside
  induction chars with
  | nil => exact .close
  | cons char chars ih =>
      obtain ⟨hchar, hothers⟩ := List.forall_mem_cons.mp hchars
      rw [List.flatten_cons, List.append_assoc]
      rcases hchar with ⟨c, hc, rfl⟩ | hescape
      · simp only [List.mem_cons, List.not_mem_nil, or_false, not_or] at hc
        exact .plain hc.2.1 hc.2.2 (ih hothers)
      · obtain ⟨_, ⟨_, hslash, rfl⟩, _, ⟨c, -, rfl⟩, rfl⟩ := Language.mem_mul.mp hescape
        cases List.mem_singleton.mp hslash
        exact .escape (ih hothers)

/-- The kinds of literals and their quotes. -/
def quotes : List (TokenKind × Char) :=
  [(.stringLiteral, '\x22'), (.charLiteral, '\x27')]

/-- A text that the lexicon takes for a literal of a kind. -/
def IsLiteral (q : TokenKind × Char) (s : Bytes) : Prop :=
  q ∈ quotes ∧ FirstKind entries s q.1

variable {q : TokenKind × Char} {s u v x y : Bytes}

theorem quoted_of_matches (hq : q ∈ quotes)
    (h : (LexicalRule.quoted q.1 (byteOfChar q.2)).pattern.Matches s) :
    ∃ w, utf8 (q.2 :: w) = s ∧ QuotedTail q.2 w := by
  have hquotes : ∀ q ∈ quotes, q.2.toNat < 0x80 ∧
      (['\n', q.2, '\\'].map byteOfChar).Pairwise (· < ·) := by
    decide
  have hentry : (LexicalRule.quoted q.1 (byteOfChar q.2)).entry = Lexicon.quoted q.1 q.2 :=
    LexicalRule.entry_quoted q.2 (hquotes q hq).1 (hquotes q hq).2
  have hmem : s ∈ (Lexicon.quoted q.1 q.2).texts := hentry ▸ h
  obtain ⟨w, hw, rfl⟩ := hmem
  obtain ⟨tail, rfl, htail⟩ := quotedTail_of_mem hw
  exact ⟨tail, rfl, htail⟩

/-- A text is matched by one rule only if no other rule goes on behind its front. -/
theorem rule_eq_of_front {rule only : LexicalRule} {front : Bytes} (hrule : rule ∈ LexicalRule.all)
    (hrules : ∀ rule ∈ LexicalRule.all, rule = only ∨
      (front.foldl (fun p b => p.derivative b) rule.pattern).isVoid = true)
    (h : rule.pattern.Matches (front ++ s)) : rule = only := by
  rcases hrules rule hrule with heq | hvoid
  · exact heq
  · rw [Pattern.isVoid_foldl_derivative h] at hvoid
    cases hvoid

/-- A text that starts with a quote is matched by the rule for it only. -/
theorem rule_eq_of_quote {rule : LexicalRule} (hq : q ∈ quotes) (hrule : rule ∈ LexicalRule.all)
    (h : rule.pattern.Matches (byteOfChar q.2 :: s)) :
    rule = LexicalRule.quoted q.1 (byteOfChar q.2) := by
  have hrules : ∀ q ∈ quotes, ∀ rule ∈ LexicalRule.all,
      rule = LexicalRule.quoted q.1 (byteOfChar q.2) ∨
        ([byteOfChar q.2].foldl (fun p b => p.derivative b) rule.pattern).isVoid = true := by
    decide +kernel
  exact rule_eq_of_front (s := s) hrule (hrules q hq) h

theorem IsLiteral.exists_tail (h : IsLiteral q s) :
    ∃ w, utf8 (q.2 :: w) = s ∧ QuotedTail q.2 w := by
  have hrules : ∀ q ∈ quotes, ∀ rule ∈ LexicalRule.all, rule.kind = q.1 →
      rule = LexicalRule.quoted q.1 (byteOfChar q.2) := by
    decide
  obtain ⟨rule, hrule, hkind, hmatch⟩ := h.2.rule
  rw [hrules q h.1 rule hrule hkind] at hmatch
  exact quoted_of_matches h.1 hmatch

theorem utf8_quote (hq : q ∈ quotes) (w : List Char) :
    utf8 (q.2 :: w) = byteOfChar q.2 :: utf8 w := by
  have hquotes : ∀ q ∈ quotes, q.2.toNat < 0x80 := by decide
  rw [utf8_cons, utf8EncodeChar_of_lt (hquotes q hq)]
  rfl

theorem isLiteral_of_matches (hq : q ∈ quotes)
    (h : (LexicalRule.quoted q.1 (byteOfChar q.2)).pattern.Matches s) : IsLiteral q s := by
  have hrules : ∀ q ∈ quotes, LexicalRule.quoted q.1 (byteOfChar q.2) ∈ LexicalRule.all := by
    decide
  obtain ⟨kind, hkind⟩ :=
    word_iff_firstKind.mp (word_entries_iff.mpr ⟨_, hrules q hq, h⟩)
  obtain ⟨rule, hrule, rfl, hmatch⟩ := hkind.rule
  obtain ⟨tail, rfl, -⟩ := quoted_of_matches hq h
  rw [utf8_quote hq] at hmatch
  rw [rule_eq_of_quote hq hrule hmatch] at hkind
  exact ⟨hq, hkind⟩

theorem QuotedTail.exists_init {quote : Char} {w : List Char} (h : QuotedTail quote w) :
    ∃ v, w = v ++ [quote] := by
  induction h with
  | close => exact ⟨[], rfl⟩
  | plain _ _ _ ih =>
      obtain ⟨v, rfl⟩ := ih
      exact ⟨_ :: v, rfl⟩
  | escape _ ih =>
      obtain ⟨v, rfl⟩ := ih
      exact ⟨'\\' :: _ :: v, rfl⟩

theorem IsLiteral.getLast? (h : IsLiteral q s) : s.getLast? = some (byteOfChar q.2) := by
  obtain ⟨tail, rfl, htail⟩ := h.exists_tail
  obtain ⟨v, rfl⟩ := htail.exists_init
  rw [← List.cons_append, utf8_append, utf8_quote h.1 v, utf8_quote h.1 []]
  exact List.getLast?_concat

/-- A literal is the longest word whatever follows it. -/
theorem IsLiteral.longestWord (h : IsLiteral q u) (s : Bytes) :
    LongestWord entries (u ++ s) u q.1 := by
  obtain ⟨tail, rfl, htail⟩ := h.exists_tail
  have hhead := utf8_quote h.1 tail
  refine longestWord_append h.2 (by simp [hhead]) ?_
  intro w _ hne hword
  obtain ⟨rule, hrule, hmatch⟩ := word_entries_iff.mp hword
  rw [hhead, List.cons_append] at hmatch
  have hsame := rule_eq_of_quote h.1 hrule hmatch
  rw [hsame, ← List.cons_append, ← hhead] at hmatch
  obtain ⟨longer, hlonger, htail'⟩ := quoted_of_matches h.1 hmatch
  have hquotes : ∀ q ∈ quotes, q.2 ≠ '\\' := by decide
  have hprefix : tail <+: longer :=
    (List.prefix_cons_inj _).mp (prefix_of_utf8_append hlonger.symm)
  rw [htail.eq_of_prefix htail' (hquotes q h.1) hprefix] at hlonger
  exact hne (List.append_right_eq_self.mp hlonger.symm)

/-! ## Comments -/

theorem word_slashes : Word entries (ascii "//") :=
  word_iff_firstKind.mpr ⟨.comment, firstKind_of_accepted? (by decide)⟩

/-- What may stand between the marks of a comment before the stars that end it. -/
def commentInside : Language Char := (noneOf ['*'] + starsInside)∗

/-- The stars and the slash that end a comment. -/
def commentEnd : Language Char := many (anyOf ['*']) * anyOf ['/']

theorem replicate_mem_many (n : Nat) : List.replicate (n + 1) '*' ∈ many (anyOf ['*']) := by
  have hstar : ['*'] ∈ anyOf ['*'] := ⟨'*', by simp, rfl⟩
  refine Language.mem_mul.mpr ⟨['*'], hstar, List.replicate n '*', ?_, rfl⟩
  refine Language.mem_kstar.mpr ⟨List.replicate n ['*'], by simp, ?_⟩
  intro w hw
  rw [List.eq_of_mem_replicate hw]
  exact hstar

theorem commentInside_append {v w : List Char} (hv : v ∈ noneOf ['*'] + starsInside)
    (hw : w ∈ commentInside * commentEnd) : v ++ w ∈ commentInside * commentEnd := by
  obtain ⟨inside, hinside, last, hlast, rfl⟩ := Language.mem_mul.mp hw
  obtain ⟨words, rfl, hwords⟩ := Language.mem_kstar.mp hinside
  refine Language.mem_mul.mpr ⟨v ++ words.flatten, ?_, last, hlast, by simp⟩
  exact Language.mem_kstar.mpr ⟨v :: words, by simp, List.forall_mem_cons.mpr ⟨hv, hwords⟩⟩

/-- By induction on the characters between the marks, with the stars that were just passed: the
first slash behind a star ends a comment, at the latest the last one. -/
theorem exists_commentEnd (n : Nat) (cs : List Char) :
    ∃ front, front <+: cs ++ ['*', '/'] ∧
      List.replicate n '*' ++ front ∈ commentInside * commentEnd := by
  have hslash : ['/'] ∈ anyOf ['/'] := ⟨'/', by simp, rfl⟩
  have hnil : [] ∈ commentInside := Language.mem_kstar.mpr ⟨[], rfl, nofun⟩
  have hend (n : Nat) : List.replicate (n + 1) '*' ++ ['/'] ∈ commentInside * commentEnd :=
    Language.mem_mul.mpr ⟨[], hnil, _, Language.mem_mul.mpr
      ⟨_, replicate_mem_many n, ['/'], hslash, rfl⟩, rfl⟩
  induction cs generalizing n with
  | nil =>
      refine ⟨['*', '/'], List.prefix_refl _, ?_⟩
      have hstars : List.replicate n '*' ++ ['*', '/'] = List.replicate (n + 1) '*' ++ ['/'] := by
        rw [List.replicate_succ', List.append_assoc]
        rfl
      rw [hstars]
      exact hend n
  | cons c cs ih =>
      by_cases hstar : c = '*'
      · obtain ⟨front, hfront, hmem⟩ := ih (n + 1)
        refine ⟨'*' :: front, ?_, ?_⟩
        · rw [hstar]
          exact (List.prefix_cons_inj '*').mpr hfront
        · rw [List.replicate_succ', List.append_assoc] at hmem
          exact hmem
      · obtain ⟨front, hfront, hmem⟩ := ih 0
        have hprefix : c :: front <+: c :: cs ++ ['*', '/'] := (List.prefix_cons_inj c).mpr hfront
        cases n with
        | zero =>
            refine ⟨c :: front, hprefix, ?_⟩
            exact commentInside_append (v := [c]) (.inl ⟨c, by simpa using hstar, rfl⟩) hmem
        | succ n =>
            by_cases hc : c = '/'
            · exact ⟨['/'], by simp [hc], hend n⟩
            · refine ⟨c :: front, hprefix, ?_⟩
              have hlast : [c] ∈ noneOf ['*', '/'] := ⟨c, by simp [hstar, hc], rfl⟩
              have hinside : List.replicate (n + 1) '*' ++ [c] ∈ starsInside :=
                Language.mem_mul.mpr ⟨_, replicate_mem_many n, [c], hlast, rfl⟩
              rw [List.append_cons]
              exact commentInside_append (.inr hinside) hmem

/-- What follows the opening mark of a comment, up to the closing one. Behind a star, a slash closes
the comment. -/
inductive CommentTail : (starred : Bool) → List Char → Prop where
  | close : CommentTail true ['/']
  | star {starred : Bool} {s : List Char} (hs : CommentTail true s) : CommentTail starred ('*' :: s)
  | plain {starred : Bool} {c : Char} {s : List Char} (hstar : c ≠ '*')
      (hslash : starred = true → c ≠ '/') (hs : CommentTail false s) : CommentTail starred (c :: s)

/-- The first closing mark is the only one that can end a comment. -/
theorem CommentTail.eq_of_prefix {starred : Bool} {v w : List Char} (hv : CommentTail starred v)
    (hw : CommentTail starred w) (h : v <+: w) : v = w := by
  induction hv generalizing w with
  | close =>
      cases hw with
      | close => rfl
      | star => exact absurd (List.cons_prefix_cons.mp h).1 (by decide)
      | plain _ hslash => exact absurd (List.cons_prefix_cons.mp h).1.symm (hslash rfl)
  | star _ ih =>
      cases hw with
      | close => exact absurd (List.cons_prefix_cons.mp h).1 (by decide)
      | star hw => rw [ih hw (List.cons_prefix_cons.mp h).2]
      | plain hstar => exact absurd (List.cons_prefix_cons.mp h).1.symm hstar
  | plain hstar hslash _ ih =>
      cases hw with
      | close => exact absurd (List.cons_prefix_cons.mp h).1 (hslash rfl)
      | star => exact absurd (List.cons_prefix_cons.mp h).1 hstar
      | plain _ _ hw =>
          obtain ⟨rfl, hrest⟩ := List.cons_prefix_cons.mp h
          rw [ih hw hrest]

theorem commentTail_stars {starred : Bool} {stars s : List Char} (h : stars ∈ many (anyOf ['*']))
    (hs : CommentTail true s) : CommentTail starred (stars ++ s) := by
  obtain ⟨_, ⟨_, hfirst, rfl⟩, others, hothers, rfl⟩ := Language.mem_mul.mp h
  cases List.mem_singleton.mp hfirst
  obtain ⟨words, rfl, hwords⟩ := Language.mem_kstar.mp hothers
  refine .star ?_
  clear h hothers
  induction words with
  | nil => exact hs
  | cons word words ih =>
      obtain ⟨⟨_, hword, rfl⟩, hrest⟩ := List.forall_mem_cons.mp hwords
      cases List.mem_singleton.mp hword
      exact .star (ih hrest)

theorem commentTail_of_mem {w : List Char} (h : w ∈ commentInside * commentEnd) :
    CommentTail false w := by
  obtain ⟨inside, hinside, last, hlast, rfl⟩ := Language.mem_mul.mp h
  obtain ⟨words, rfl, hwords⟩ := Language.mem_kstar.mp hinside
  clear h hinside
  induction words with
  | nil =>
      obtain ⟨stars, hstars, _, ⟨_, hslash, rfl⟩, rfl⟩ := Language.mem_mul.mp hlast
      cases List.mem_singleton.mp hslash
      rw [List.flatten_nil, List.nil_append]
      exact commentTail_stars hstars .close
  | cons word words ih =>
      obtain ⟨hword, hothers⟩ := List.forall_mem_cons.mp hwords
      rw [List.flatten_cons, List.append_assoc]
      rcases hword with ⟨c, hc, rfl⟩ | hinside
      · exact .plain (by simpa using hc) nofun (ih hothers)
      · obtain ⟨stars, hstars, _, ⟨c, hc, rfl⟩, rfl⟩ := Language.mem_mul.mp hinside
        simp only [List.mem_cons, List.not_mem_nil, or_false, not_or] at hc
        rw [List.append_assoc]
        exact commentTail_stars hstars (.plain hc.1 (fun _ => hc.2) (ih hothers))

theorem commentTail_of_matches (h : LexicalRule.blockComment.pattern.Matches s) :
    ∃ tail, s = ascii "/*" ++ utf8 tail ∧ CommentTail false tail := by
  have hmem : s ∈ LexicalRule.blockComment.entry.texts := h
  rw [LexicalRule.entry_blockComment, mul_assoc, mul_assoc] at hmem
  obtain ⟨w, hw, rfl⟩ := hmem
  obtain ⟨opening, hopening, tail, htail, rfl⟩ := Language.mem_mul.mp hw
  have hmark : opening = ['/', '*'] := hopening
  refine ⟨tail, ?_, commentTail_of_mem htail⟩
  rw [hmark, utf8_append]
  rfl

theorem blockComment_of_mem {w : List Char} (h : w ∈ commentInside * commentEnd) :
    LexicalRule.blockComment.pattern.Matches (ascii "/*" ++ utf8 w) := by
  have hword : '/' :: '*' :: w ∈ text "/*" * (commentInside * commentEnd) :=
    Language.mem_mul.mpr ⟨['/', '*'], rfl, w, h, rfl⟩
  have hmem : ascii "/*" ++ utf8 w ∈ LexicalRule.blockComment.entry.texts := by
    rw [LexicalRule.entry_blockComment, mul_assoc, mul_assoc]
    exact ⟨_, hword, rfl⟩
  exact hmem

/-- Nothing goes on behind a comment. -/
theorem blockComment_eq_of_prefix (hu : LexicalRule.blockComment.pattern.Matches u)
    (hv : LexicalRule.blockComment.pattern.Matches v) (h : u <+: v) : u = v := by
  obtain ⟨tail, rfl, htail⟩ := commentTail_of_matches hu
  obtain ⟨longer, rfl, hlonger⟩ := commentTail_of_matches hv
  obtain ⟨more, hmore⟩ := (List.prefix_append_right_inj _).mp h
  rw [htail.eq_of_prefix hlonger (prefix_of_utf8_append hmore)]

theorem utf8_eq_nil {cs : List Char} (h : utf8 cs = []) : cs = [] := by
  cases cs with
  | nil => rfl
  | cons c cs => simp [utf8, String.utf8EncodeChar_ne_nil] at h

/-- Opened by its mark, a comment is a word at the latest at the last closing mark that follows
behind characters. -/
theorem exists_comment_word {cs : List Char} (h : ascii "*/" <:+: utf8 cs) (y : Bytes) :
    ∃ u, u <+: ascii "/*" ++ (utf8 cs ++ y) ∧ Word entries u ∧ 1 < u.length := by
  obtain ⟨x, z, hcs⟩ := h
  have hsplit : utf8 cs = x ++ byteOfChar '*' :: (byteOfChar '/' :: z) := by
    rw [← hcs, List.append_assoc]
    rfl
  obtain ⟨front, back, rfl, -, hback⟩ := utf8_split (by decide) (by decide) hsplit
  obtain ⟨none, back, rfl, hnone, -⟩ := utf8_split (x := []) (by decide) (by decide) hback
  cases utf8_eq_nil hnone
  obtain ⟨inside, ⟨rest, hrest⟩, hinside⟩ := exists_commentEnd 0 front
  refine ⟨ascii "/*" ++ utf8 inside, ?_, ?_, ?_⟩
  · refine (List.prefix_append_right_inj _).mpr ?_
    have hchars : front ++ '*' :: ([] ++ '/' :: back) = inside ++ (rest ++ back) := by
      rw [← List.append_assoc inside, hrest]
      simp
    rw [hchars, utf8_append, List.append_assoc]
    exact List.prefix_append _ _
  · exact word_entries_iff.mpr ⟨_, by decide, blockComment_of_mem hinside⟩
  · simp [ascii]

end Lexicon

end HeaderBinding
