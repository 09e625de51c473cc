import HeaderBinding.Proofs.Token.Joining
import HeaderBinding.Proofs.Token.Rows
import Mathlib.Algebra.Group.Nat.Even
import Mathlib.Order.Bounds.Basic

/-!
# Where comments and literals end

A comment ends at the first closing mark behind its opening one, and a literal at the first quote
that no backslash takes with it. If there is no such mark, or if something before it breaks the
token off, the opening slash is an operator and the opening quote is invalid.
-/

namespace HeaderBinding

open Lexicon

open scoped Computability

/-! ## Marks in a text -/

/-- The text is well-formed UTF-8: it encodes characters. -/
def IsUtf8 (s : Bytes) : Prop :=
  ∃ cs, utf8 cs = s

/-- The places of the closing marks behind the opening mark of a comment. -/
def closingMarks (s : Bytes) : Set Nat :=
  {n | 2 ≤ n ∧ ascii "*/" <+: s.drop n}

/-- The number of backslashes at the end of a text. -/
def trailingBackslashes (s : Bytes) : Nat :=
  (s.reverse.takeWhile (· == 0x5C)).length

/-- The places of the quotes behind the opening one that an even number of backslashes stands
before. -/
def closingQuotes (quote : UInt8) (s : Bytes) : Set Nat :=
  {n | 1 ≤ n ∧ s[n]? = some quote ∧ Even (trailingBackslashes (s.take n))}

theorem exists_isLeast {S : Set Nat} {n : Nat} (h : n ∈ S) : ∃ m ≤ n, IsLeast S m := by
  classical
  exact ⟨Nat.find ⟨n, h⟩, Nat.find_min' _ h, Nat.find_spec ⟨n, h⟩, fun _ hk => Nat.find_min' _ hk⟩

/-- Within encoded characters, a byte that no longer encoding holds ends the encoding of characters.
-/
theorem isUtf8_take {cs : List Char} {s : Bytes} {a : Char} {n : Nat} (hs : utf8 cs <+: s)
    (hn : n < (utf8 cs).length) (ha : a.toNat < 0x80)
    (havoids : Pattern.beyondAscii.avoids (byteOfChar a) = true)
    (hbyte : s[n]? = some (byteOfChar a)) : IsUtf8 (s.take n) := by
  obtain ⟨more, rfl⟩ := hs
  rw [List.getElem?_append_left hn] at hbyte
  obtain ⟨hlt, hget⟩ := List.getElem?_eq_some_iff.mp hbyte
  have hsplit : utf8 cs = (utf8 cs).take n ++ byteOfChar a :: (utf8 cs).drop (n + 1) := by
    rw [← hget, List.getElem_cons_drop, List.take_append_drop]
  obtain ⟨before, _, _, hbefore, _⟩ := utf8_split ha havoids hsplit
  exact ⟨before, by rw [hbefore, List.take_append_of_le_length hn.le]⟩

/-! ## The first token of a text -/

namespace Lexical

variable {tokens : List Token} {t : Token}

theorem longestWord_or_unmatched (h : Lexical (t :: tokens)) :
    LongestWord entries (Token.concat (t :: tokens)) t.text t.kind ∨
      t.kind = .invalid ∧ Unmatched entries (Token.concat (t :: tokens)) := by
  rw [Lexical, List.map_cons, Token.spelling] at h
  generalize Token.concat (t :: tokens) = s, t.kind = kind at h ⊢
  cases h with
  | word hlongest => exact .inl hlongest
  | invalid hunmatched => exact .inr ⟨rfl, hunmatched⟩

/-- Where a word is the longest one, it is the first token. -/
theorem eq_of_longestWord {u : Bytes} {kind : TokenKind} (h : Lexical (t :: tokens))
    (hword : LongestWord entries (Token.concat (t :: tokens)) u kind) :
    t.kind = kind ∧ t.text = u := by
  rcases h.longestWord_or_unmatched with hlongest | ⟨-, hunmatched⟩
  · obtain ⟨htext, hkind⟩ := hlongest.unique hword
    exact ⟨hkind, htext⟩
  · exact absurd hunmatched hword.not_unmatched

theorem kind_of_unmatched (h : Lexical (t :: tokens))
    (hunmatched : Unmatched entries (Token.concat (t :: tokens))) : t.kind = .invalid := by
  rcases h.longestWord_or_unmatched with hlongest | ⟨hkind, -⟩
  · exact absurd hunmatched hlongest.not_unmatched
  · exact hkind

end Lexical

namespace Lexicon

variable {s : Bytes} {n : Nat}

/-! ## Comments -/

theorem CommentTail.exists_init {w : List Char} {starred : Bool} (h : CommentTail starred w) :
    (∃ v, w = v ++ ['*', '/']) ∨ starred = true ∧ w = ['/'] := by
  induction h with
  | close => exact .inr ⟨rfl, rfl⟩
  | star _ ih =>
      rcases ih with ⟨v, rfl⟩ | ⟨-, rfl⟩
      · exact .inl ⟨'*' :: v, rfl⟩
      · exact .inl ⟨[], rfl⟩
  | plain _ _ _ ih =>
      rcases ih with ⟨v, rfl⟩ | ⟨hfalse, -⟩
      · exact .inl ⟨_ :: v, rfl⟩
      · cases hfalse

theorem utf8_closingMark : utf8 ['*', '/'] = ascii "*/" := by
  decide

/-- What ends a comment is a closing mark of its text. -/
theorem CommentTail.mem_closingMarks {w : List Char} (h : CommentTail false w)
    (hs : ascii "/*" ++ utf8 w <+: s) :
    ∃ m ∈ closingMarks s, m + 2 = (ascii "/*" ++ utf8 w).length := by
  obtain ⟨v, rfl⟩ : ∃ v, w = v ++ ['*', '/'] := by
    rcases h.exists_init with hinit | ⟨hfalse, -⟩
    · exact hinit
    · cases hfalse
  obtain ⟨more, rfl⟩ := hs
  rw [utf8_append, utf8_closingMark, ← List.append_assoc (ascii "/*")]
  refine ⟨(ascii "/*" ++ utf8 v).length, ⟨by simp [ascii], ?_⟩, by simp [ascii]⟩
  rw [List.append_assoc, List.drop_left]
  exact List.prefix_append _ _

/-- Behind an opening mark, nothing but a comment is longer than the slash. -/
theorem blockComment_of_word {v : Bytes} (hs : ascii "/*" <+: s) (hv : v <+: s)
    (hword : Word entries v) (hlength : 1 < v.length) :
    LexicalRule.blockComment.pattern.Matches v := by
  obtain ⟨rest, rfl⟩ : ascii "/*" <+: v :=
    List.prefix_of_prefix_length_le hs hv hlength
  obtain ⟨rule, hrule, hmatch⟩ := word_entries_iff.mp hword
  rwa [Lexer.rule_eq_of_openComment hrule hmatch] at hmatch

theorem longestWord_blockComment {u : Bytes} (hu : LexicalRule.blockComment.pattern.Matches u)
    (hs : u <+: s) : LongestWord entries s u .comment := by
  obtain ⟨tail, rfl, -⟩ := commentTail_of_matches hu
  have hopening : ascii "/*" <+: s := (List.prefix_append _ _).trans hs
  obtain ⟨kind, hkind⟩ :=
    word_iff_firstKind.mp (word_entries_iff.mpr ⟨.blockComment, by decide, hu⟩)
  have hcomment : kind = .comment := by
    obtain ⟨rule, hrule, rfl, hmatch⟩ := hkind.rule
    rw [Lexer.rule_eq_of_openComment hrule hmatch]
    rfl
  refine ⟨hs, by simp [ascii], hcomment ▸ hkind, ?_⟩
  intro v hv hword
  by_contra hlonger
  have hlength : 1 < v.length := by
    simp only [ascii, List.length_append, List.length_map] at hlonger
    simp at hlonger
    omega
  have hv' := blockComment_of_word hopening hv hword hlength
  have hprefix := List.prefix_of_prefix_length_le hs hv (by omega)
  have hsame := blockComment_eq_of_prefix hu hv' hprefix
  exact hlonger (by rw [hsame])

/-- Up to its first closing mark, a comment is the longest word if characters stand before that
mark. -/
theorem longestWord_comment (hs : ascii "/*" <+: s) (hn : IsLeast (closingMarks s) n)
    (hchars : IsUtf8 (s.take n)) : LongestWord entries s (s.take (n + 2)) .comment := by
  obtain ⟨rest, rfl⟩ := hs
  obtain ⟨cs, hcs⟩ := hchars
  obtain ⟨m, rfl⟩ := Nat.exists_eq_add_of_le hn.1.1
  have htake : (ascii "/*" ++ rest).take (2 + m) = ascii "/*" ++ rest.take m := by
    simp [ascii, Nat.add_comm 2 m]
  have hdrop : (ascii "/*" ++ rest).drop (2 + m) = rest.drop m := by
    simp [ascii, Nat.add_comm 2 m]
  have hmark : ascii "*/" <+: rest.drop m := hdrop ▸ hn.1.2
  obtain ⟨inside, hinside⟩ : ∃ inside, utf8 inside = rest.take m := by
    have hsplit : utf8 ['/', '*'] ++ rest.take m = utf8 cs := by
      rw [hcs, htake]
      rfl
    obtain ⟨inside, rfl⟩ := prefix_of_utf8_append hsplit
    rw [utf8_append] at hsplit
    exact ⟨inside, (List.append_cancel_left hsplit).symm⟩
  obtain ⟨front, hfront, hmem⟩ := exists_commentEnd 0 inside
  rw [List.replicate_zero, List.nil_append] at hmem
  obtain ⟨behind, hbehind⟩ := hmark
  have hclosed : utf8 (inside ++ ['*', '/']) = rest.take (m + 2) := by
    rw [utf8_append, utf8_closingMark, hinside, List.take_add, ← hbehind]
    rfl
  have hstarts : utf8 front <+: rest.take (m + 2) := by
    obtain ⟨more, hmore⟩ := hfront
    rw [← hclosed, ← hmore, utf8_append]
    exact List.prefix_append _ _
  have hword : ascii "/*" ++ utf8 front <+: ascii "/*" ++ rest :=
    (List.prefix_append_right_inj _).mpr (hstarts.trans (List.take_prefix _ _))
  -- The comment that ends within these characters ends at the mark, which is the first one.
  obtain ⟨k, hk, hlength⟩ := (commentTail_of_mem hmem).mem_closingMarks hword
  have hleast := hn.2 hk
  have hfull : utf8 front = rest.take (m + 2) := by
    refine hstarts.eq_of_length_le ?_
    rw [List.length_append, show (ascii "/*").length = 2 from rfl] at hlength
    rw [List.length_take]
    omega
  have htext : (ascii "/*" ++ rest).take (2 + m + 2) = ascii "/*" ++ utf8 front := by
    rw [hfull, List.take_append, show (ascii "/*").length = 2 from rfl,
      List.take_of_length_le (by simp [ascii])]
    congr 2
    omega
  rw [htext]
  exact longestWord_blockComment (blockComment_of_mem hmem) hword

/-- A comment that is a word ends at some closing mark, and so the characters before the first one
are its own. -/
theorem isUtf8_of_blockComment {u : Bytes} (hu : LexicalRule.blockComment.pattern.Matches u)
    (hs : u <+: s) : ∃ n, IsLeast (closingMarks s) n ∧ IsUtf8 (s.take n) := by
  obtain ⟨tail, rfl, htail⟩ := commentTail_of_matches hu
  obtain ⟨k, hk, hlength⟩ := htail.mem_closingMarks hs
  obtain ⟨n, hle, hn⟩ := exists_isLeast hk
  refine ⟨n, hn, ?_⟩
  obtain ⟨behind, hbehind⟩ := hn.1.2
  have hprefix : utf8 ('/' :: '*' :: tail) <+: s := hs
  refine isUtf8_take (a := '*') hprefix ?_ (by decide) (by decide) ?_
  · have hchars : utf8 ('/' :: '*' :: tail) = ascii "/*" ++ utf8 tail := rfl
    rw [hchars]
    omega
  · rw [← List.head?_drop, ← hbehind]
    rfl

theorem longestWord_lone_slash (hs : ascii "/*" <+: s)
    (hopen : ∀ n, IsLeast (closingMarks s) n → ¬ IsUtf8 (s.take n)) :
    LongestWord entries s (ascii "/") .operator := by
  obtain ⟨rest, rfl⟩ := hs
  refine longestWord_append (u := ascii "/") (firstKind_of_accepted? (by decide)) (by decide) ?_
  intro w hw hne hword
  have hv : ascii "/" ++ w <+: ascii "/*" ++ rest := (List.prefix_append_right_inj _).mpr hw
  have hlength : 1 < (ascii "/" ++ w).length := by
    rw [List.length_append]
    exact Nat.lt_add_of_pos_right (List.length_pos_iff.mpr hne)
  have hcomment := blockComment_of_word (List.prefix_append _ _) hv hword hlength
  obtain ⟨n, hn, hchars⟩ := isUtf8_of_blockComment hcomment hv
  exact hopen n hn hchars

/-! ## Literals -/

theorem append_utf8_append (s : Bytes) (v w : List Char) :
    s ++ utf8 (v ++ w) = s ++ utf8 v ++ utf8 w := by
  rw [utf8_append, List.append_assoc]

theorem trailingBackslashes_concat (s : Bytes) (b : UInt8) :
    trailingBackslashes (s ++ [b]) = if b = 0x5C then trailingBackslashes s + 1 else 0 := by
  by_cases hb : b = 0x5C <;> simp [trailingBackslashes, hb]

theorem trailingBackslashes_backslash (s : Bytes) :
    trailingBackslashes (s ++ utf8 ['\\']) = trailingBackslashes s + 1 := by
  have hchar : utf8 ['\\'] = [0x5C] := by decide
  rw [hchar, trailingBackslashes_concat, if_pos rfl]

/-- No other character ends with a backslash. -/
theorem trailingBackslashes_char {c : Char} (hc : c ≠ '\\') (s : Bytes) :
    trailingBackslashes (s ++ utf8 [c]) = 0 := by
  have hne : utf8 [c] ≠ [] := mt utf8_eq_nil (List.cons_ne_nil c [])
  obtain ⟨front, b, hlast⟩ : ∃ front b, utf8 [c] = front ++ [b] :=
    ⟨_, _, (List.dropLast_append_getLast hne).symm⟩
  have hb : b ≠ 0x5C := by
    rintro rfl
    obtain ⟨before, behind, hsplit, -, -⟩ := utf8_split (a := '\\') (by decide) (by decide) hlast
    cases before with
    | nil => exact hc (List.cons.inj hsplit).1
    | cons => simp at hsplit
  rw [hlast, ← List.append_assoc, trailingBackslashes_concat, if_neg hb]

theorem even_trailingBackslashes_char {c : Char} (hc : c ≠ '\\') (s : Bytes) :
    Even (trailingBackslashes (s ++ utf8 [c])) := by
  rw [trailingBackslashes_char hc]
  exact Even.zero

theorem even_trailingBackslashes_escape {c : Char} (h : Even (trailingBackslashes s)) :
    Even (trailingBackslashes (s ++ utf8 ['\\', c])) := by
  have hchars : s ++ utf8 ['\\', c] = s ++ utf8 ['\\'] ++ utf8 [c] :=
    append_utf8_append s ['\\'] [c]
  rw [hchars]
  by_cases hc : c = '\\'
  · rw [hc, trailingBackslashes_backslash, trailingBackslashes_backslash]
    have htwo : Even 2 := by decide
    exact h.add htwo
  · exact even_trailingBackslashes_char hc _

variable {quote : Char}

/-- An even number of backslashes stands before the quote that ends a literal. -/
theorem QuotedTail.even_trailingBackslashes {w : List Char} (h : QuotedTail quote w)
    (hs : Even (trailingBackslashes s)) :
    ∃ v, w = v ++ [quote] ∧ Even (trailingBackslashes (s ++ utf8 v)) := by
  induction h generalizing s with
  | close => exact ⟨[], rfl, by simpa [utf8] using hs⟩
  | @plain c w _ hslash _ ih =>
      obtain ⟨v, rfl, hv⟩ := ih (even_trailingBackslashes_char hslash s)
      refine ⟨c :: v, rfl, ?_⟩
      rwa [List.append_assoc, ← utf8_append] at hv
  | @escape c w _ ih =>
      obtain ⟨v, rfl, hv⟩ := ih (even_trailingBackslashes_escape hs)
      refine ⟨'\\' :: c :: v, rfl, ?_⟩
      rwa [List.append_assoc, ← utf8_append] at hv

/-- Characters up to the first quote that an even number of backslashes stands before are a literal.
By induction on their number, as a backslash takes the character behind it along. -/
theorem quotedTail_of_even (hquote : quote ≠ '\\') (s : Bytes) (cs : List Char)
    (hs : Even (trailingBackslashes s)) (hend : Even (trailingBackslashes (s ++ utf8 cs)))
    (hfirst : ∀ v w, cs = v ++ quote :: w → ¬ Even (trailingBackslashes (s ++ utf8 v))) :
    QuotedTail quote (cs ++ [quote]) := by
  induction hn : cs.length using Nat.strong_induction_on generalizing s cs with
  | _ n ih =>
      cases cs with
      | nil => exact .close
      | cons c cs =>
          have hplain : c ≠ quote := by
            rintro rfl
            exact hfirst [] cs rfl (by simpa [utf8] using hs)
          by_cases hslash : c = '\\'
          · subst hslash
            cases cs with
            | nil =>
                rw [trailingBackslashes_backslash, Nat.even_add_one] at hend
                exact absurd hs hend
            | cons c cs =>
                have hmove (v : List Char) :
                    s ++ utf8 ('\\' :: c :: v) = s ++ utf8 ['\\', c] ++ utf8 v :=
                  append_utf8_append s ['\\', c] v
                have hshorter : cs.length < n := by
                  rw [← hn, List.length_cons, List.length_cons]
                  omega
                rw [hmove] at hend
                refine .escape (ih _ hshorter _ cs (even_trailingBackslashes_escape hs) hend ?_ rfl)
                rintro v w rfl
                rw [← hmove]
                exact hfirst _ w rfl
          · have hmove (v : List Char) : s ++ utf8 (c :: v) = s ++ utf8 [c] ++ utf8 v :=
              append_utf8_append s [c] v
            have heven := even_trailingBackslashes_char hslash s
            have hshorter : cs.length < n := by
              rw [← hn, List.length_cons]
              omega
            rw [hmove] at hend
            refine .plain hplain hslash (ih _ hshorter _ cs heven hend ?_ rfl)
            rintro v w rfl
            rw [← hmove]
            exact hfirst _ w rfl

/-- Without line feeds, what follows the opening quote of a literal is in the language of literals. -/
theorem QuotedTail.exists_quotedChars {w : List Char} (h : QuotedTail quote w) (hline : '\n' ∉ w) :
    ∃ chars : List (List Char), w = chars.flatten ++ [quote] ∧ ∀ v ∈ chars, v ∈ quotedChar quote := by
  induction h with
  | close => exact ⟨[], rfl, nofun⟩
  | @plain c w hquote hslash _ ih =>
      rw [List.mem_cons, not_or] at hline
      obtain ⟨chars, rfl, hchars⟩ := ih hline.2
      refine ⟨[c] :: chars, rfl, List.forall_mem_cons.mpr ⟨.inl ⟨c, ?_, rfl⟩, hchars⟩⟩
      simp [Ne.symm hline.1, hquote, hslash]
  | @escape c w _ ih =>
      simp only [List.mem_cons, not_or] at hline
      obtain ⟨chars, rfl, hchars⟩ := ih hline.2.2
      refine ⟨['\\', c] :: chars, rfl, List.forall_mem_cons.mpr ⟨.inr ?_, hchars⟩⟩
      refine Language.mem_mul.mpr ⟨['\\'], ⟨'\\', by simp, rfl⟩, [c], ⟨c, ?_, rfl⟩, rfl⟩
      simpa using Ne.symm hline.2.1

variable {q : TokenKind × Char}

theorem isLiteral_of_tail (hq : q ∈ quotes) {w : List Char} (h : QuotedTail q.2 w)
    (hline : '\n' ∉ w) : IsLiteral q (utf8 (q.2 :: w)) := by
  have hquotes : ∀ q ∈ quotes, q.2.toNat < 0x80 ∧
      (['\n', q.2, '\\'].map byteOfChar).Pairwise (· < ·) := by
    decide
  obtain ⟨chars, rfl, hchars⟩ := h.exists_quotedChars hline
  have hmark : [q.2] ∈ anyOf [q.2] := ⟨q.2, by simp, rfl⟩
  have hword : q.2 :: (chars.flatten ++ [q.2]) ∈
      anyOf [q.2] * (quotedChar q.2)∗ * anyOf [q.2] := by
    refine Language.mem_mul.mpr ⟨q.2 :: chars.flatten, ?_, [q.2], hmark, rfl⟩
    exact Language.mem_mul.mpr
      ⟨[q.2], hmark, _, Language.mem_kstar.mpr ⟨chars, rfl, hchars⟩, rfl⟩
  have hentry : (LexicalRule.quoted q.1 (byteOfChar q.2)).entry = Lexicon.quoted q.1 q.2 :=
    LexicalRule.entry_quoted q.2 (hquotes q hq).1 (hquotes q hq).2
  refine isLiteral_of_matches hq ?_
  have hmem : utf8 (q.2 :: (chars.flatten ++ [q.2])) ∈ (Lexicon.quoted q.1 q.2).texts :=
    ⟨_, hword, rfl⟩
  rw [← hentry] at hmem
  exact hmem

theorem quotes_ascii (hq : q ∈ quotes) :
    q.2.toNat < 0x80 ∧ Pattern.beyondAscii.avoids (byteOfChar q.2) = true ∧ q.2 ≠ '\\' ∧
      q.2 ≠ '\n' := by
  have hquotes : ∀ q ∈ quotes,
      q.2.toNat < 0x80 ∧ Pattern.beyondAscii.avoids (byteOfChar q.2) = true ∧ q.2 ≠ '\\' ∧
        q.2 ≠ '\n' := by
    decide
  exact hquotes q hq

theorem mem_closingQuotes {v : List Char} (hq : q ∈ quotes) (hs : utf8 (q.2 :: (v ++ [q.2])) <+: s)
    (heven : Even (trailingBackslashes (utf8 (q.2 :: v)))) :
    (utf8 (q.2 :: v)).length ∈ closingQuotes (byteOfChar q.2) s := by
  have hpositive : utf8 (q.2 :: v) ≠ [] := mt utf8_eq_nil (List.cons_ne_nil _ _)
  obtain ⟨more, rfl⟩ := hs
  rw [← List.cons_append, utf8_append, utf8_quote hq [], List.append_assoc]
  refine ⟨List.length_pos_iff.mpr hpositive, ?_, ?_⟩
  · rw [List.getElem?_append_right (Nat.le_refl _), Nat.sub_self]
    rfl
  · rwa [List.take_left]

/-- Up to its first closing quote, a literal is the longest word if characters of one line stand
before that quote. -/
theorem longestWord_literal (hq : q ∈ quotes) (hs : s.head? = some (byteOfChar q.2))
    (hn : IsLeast (closingQuotes (byteOfChar q.2) s) n) (hline : lineFeed ∉ s.take n)
    (hchars : IsUtf8 (s.take n)) : LongestWord entries s (s.take (n + 1)) q.1 := by
  obtain ⟨hpositive, hquote, heven⟩ := hn.1
  obtain ⟨-, -, hslash, hfeed⟩ := quotes_ascii hq
  obtain ⟨inside, hinside⟩ : ∃ inside, utf8 (q.2 :: inside) = s.take n := by
    obtain ⟨cs, hcs⟩ := hchars
    have hsplit : utf8 [q.2] ++ (s.take n).tail = utf8 cs := by
      have hhead : (s.take n).head? = some (byteOfChar q.2) := by
        rwa [List.head?_take, if_neg (by omega)]
      rw [utf8_quote hq, hcs]
      exact List.cons_head?_tail hhead
    obtain ⟨inside, rfl⟩ := prefix_of_utf8_append hsplit
    exact ⟨inside, hcs⟩
  have htext : utf8 (q.2 :: (inside ++ [q.2])) = s.take (n + 1) := by
    rw [← List.cons_append, utf8_append, hinside, utf8_quote hq [], List.take_add_one, hquote]
    rfl
  have htail : QuotedTail q.2 (inside ++ [q.2]) := by
    have hmove (v : List Char) : utf8 [q.2] ++ utf8 v = utf8 (q.2 :: v) :=
      (utf8_append [q.2] v).symm
    refine quotedTail_of_even hslash (utf8 [q.2]) inside
      (even_trailingBackslashes_char hslash []) ?_ ?_
    · rwa [hmove, hinside]
    · -- An earlier quote of this kind would be the first one.
      rintro v w rfl hearlier
      rw [hmove] at hearlier
      have hstarts : utf8 (q.2 :: (v ++ [q.2])) <+: s := by
        have hsplit : q.2 :: (v ++ q.2 :: w) = q.2 :: (v ++ [q.2]) ++ w := by simp
        refine List.IsPrefix.trans ?_ (List.take_prefix n s)
        rw [← hinside, hsplit, utf8_append]
        exact List.prefix_append _ _
      have hle := hn.2 (mem_closingQuotes hq hstarts hearlier)
      have hlength := congrArg List.length hinside
      rw [← List.cons_append, utf8_append, List.length_append, utf8_quote hq w, List.length_cons,
        List.length_take] at hlength
      omega
  have hchars : '\n' ∉ inside ++ [q.2] := by
    intro hmem
    have hinside' : '\n' ∈ inside := by simpa [Ne.symm hfeed] using hmem
    refine hline ?_
    rw [← hinside]
    exact List.mem_flatMap.mpr ⟨'\n', List.mem_cons_of_mem _ hinside', by decide⟩
  have hliteral := (isLiteral_of_tail hq htail hchars).longestWord (s.drop (n + 1))
  rwa [htext, List.take_append_drop] at hliteral

/-- A word that starts with a quote is a literal, and so characters of one line stand before the
first closing quote. -/
theorem isUtf8_of_literal {v : Bytes} (hq : q ∈ quotes) (hs : s.head? = some (byteOfChar q.2))
    (hv : v <+: s) (hne : v ≠ []) (hword : Word entries v) :
    ∃ n, IsLeast (closingQuotes (byteOfChar q.2) s) n ∧ lineFeed ∉ s.take n ∧ IsUtf8 (s.take n) := by
  have havoids : ∀ q ∈ quotes,
      (LexicalRule.quoted q.1 (byteOfChar q.2)).pattern.avoids lineFeed = true := by
    decide
  obtain ⟨hascii, havoid, hslash, -⟩ := quotes_ascii hq
  obtain ⟨rule, hrule, hmatch⟩ := word_entries_iff.mp hword
  have hhead : v.head? = some (byteOfChar q.2) := by
    obtain ⟨more, rfl⟩ := hv
    rwa [List.head?_append_of_ne_nil _ hne] at hs
  rw [← List.cons_head?_tail hhead] at hmatch
  rw [rule_eq_of_quote hq hrule hmatch, List.cons_head?_tail hhead] at hmatch
  have hfeed := Pattern.not_mem_of_avoids (havoids q hq) hmatch
  obtain ⟨w, rfl, htail⟩ := quoted_of_matches hq hmatch
  obtain ⟨inside, rfl, heven⟩ := htail.even_trailingBackslashes
    (s := utf8 [q.2]) (even_trailingBackslashes_char hslash [])
  rw [← utf8_append] at heven
  obtain ⟨n, hle, hn⟩ := exists_isLeast (mem_closingQuotes hq hv heven)
  have hlength : n < (utf8 (q.2 :: (inside ++ [q.2]))).length := by
    rw [← List.cons_append, utf8_append, List.length_append, utf8_quote hq [], List.length_cons]
    exact Nat.lt_succ_of_le hle
  refine ⟨n, hn, ?_, isUtf8_take hv hlength hascii havoid hn.1.2.1⟩
  refine fun hmem => hfeed ?_
  exact (List.prefix_of_prefix_length_le (List.take_prefix n s) hv
    ((List.length_take_le n s).trans hlength.le)).subset hmem

end Lexicon

/-! ## The tokens of a source -/

/-- The token that an opening mark of a comment starts is a comment up to the first closing mark, if
there is one and the bytes before it encode characters, and is otherwise the operator of one slash.
The token that a quote starts is a literal up to the first quote behind it with an even number of
backslashes before it, if there is one and the bytes before it encode characters of one line, and is
otherwise invalid. -/
theorem tokenize_ends_at_mark (source : Bytes) (t : Token) (ht : t ∈ tokenize source) :
    let rest := source.drop t.position.offset
    (ascii "/*" <+: rest →
        (∀ n, IsLeast (closingMarks rest) n → IsUtf8 (rest.take n) →
          t.kind = .comment ∧ t.text = rest.take (n + 2)) ∧
        ((∀ n, IsLeast (closingMarks rest) n → ¬ IsUtf8 (rest.take n)) →
          t.kind = .operator ∧ t.text = ascii "/")) ∧
      ∀ q ∈ quotes, rest.head? = some (byteOfChar q.2) →
        (∀ n, IsLeast (closingQuotes (byteOfChar q.2) rest) n →
          lineFeed ∉ rest.take n → IsUtf8 (rest.take n) →
          t.kind = q.1 ∧ t.text = rest.take (n + 1)) ∧
        ((∀ n, IsLeast (closingQuotes (byteOfChar q.2) rest) n →
          lineFeed ∈ rest.take n ∨ ¬ IsUtf8 (rest.take n)) →
          t.kind = .invalid) := by
  intro rest
  obtain ⟨front, tokens, hsplit, -, hdrop⟩ := exists_split_at_offset ht
  have hlexical : Lexical (t :: tokens) := (hsplit ▸ lexical_tokenize source).back
  have hrest : Token.concat (t :: tokens) = rest := hdrop.symm
  rw [← hrest]
  refine ⟨fun hopening => ⟨?_, ?_⟩, fun q hq hquote => ⟨?_, ?_⟩⟩
  · intro n hn hchars
    exact hlexical.eq_of_longestWord (longestWord_comment hopening hn hchars)
  · intro hopen
    exact hlexical.eq_of_longestWord (longestWord_lone_slash hopening hopen)
  · intro n hn hline hchars
    exact hlexical.eq_of_longestWord (longestWord_literal hq hquote hn hline hchars)
  · intro hopen
    refine hlexical.kind_of_unmatched fun v hv hne hword => ?_
    obtain ⟨n, hn, hline, hchars⟩ := isUtf8_of_literal hq hquote hv hne hword
    rcases hopen n hn with hfeed | hbroken
    · exact hline hfeed
    · exact hbroken hchars

/-- The star behind an opening mark closes nothing, two backslashes do not hide a quote, and a quote
alone closes no literal. -/
theorem tokenize_ends_at_mark_stars :
    ∃ comment literal broken,
      tokenize (ascii "/*/*/\x27\\\\\x27\x22a") = [comment, literal, broken] ∧
        (comment.kind = .comment ∧ comment.text = ascii "/*/*/") ∧
        (literal.kind = .charLiteral ∧ literal.text = ascii "\x27\\\\\x27") ∧
        broken.kind = .invalid := by
  have htokens : tokenize (ascii "/*/*/\x27\\\\\x27\x22a") =
      [⟨.comment, ascii "/*/*/", ⟨0, 1, 1⟩⟩, ⟨.charLiteral, ascii "\x27\\\\\x27", ⟨5, 1, 6⟩⟩,
        ⟨.invalid, ascii "\x22a", ⟨9, 1, 10⟩⟩] := by
    decide +kernel
  have hmem {t : Token} := fun ht => (htokens ▸ ht : t ∈ tokenize (ascii "/*/*/\x27\\\\\x27\x22a"))
  refine ⟨_, _, _, htokens, ?_, ?_, ?_⟩
  · have hleast : IsLeast (closingMarks (ascii "/*/*/\x27\\\\\x27\x22a")) 3 := by
      refine ⟨⟨by decide, by decide⟩, fun n hn => ?_⟩
      by_contra hlt
      obtain rfl : n = 2 := by
        have hlow := hn.1
        omega
      exact absurd hn.2 (by decide)
    exact ((tokenize_ends_at_mark _ _ (hmem (.head _))).1 (by decide)).1 3 hleast
      ⟨"/*/".toList, by decide⟩
  · have hleast : IsLeast (closingQuotes 0x27 (ascii "\x27\\\\\x27\x22a")) 3 := by
      refine ⟨⟨by decide, by decide, by decide⟩, fun n hn => ?_⟩
      by_contra hlt
      obtain rfl | rfl : n = 1 ∨ n = 2 := by
        have hlow := hn.1
        omega
      · exact absurd hn.2.1 (by decide)
      · exact absurd hn.2.1 (by decide)
    exact ((tokenize_ends_at_mark _ _ (hmem (.tail _ (.head _)))).2 (.charLiteral, '\x27')
      (by decide) (by decide)).1 3 hleast (by decide) ⟨"\x27\\\\".toList, by decide⟩
  · have hnone : ∀ n, n ∉ closingQuotes 0x22 (ascii "\x22a") := by
      rintro (_ | _ | n) ⟨hlow, hquote, -⟩
      · exact absurd hlow (by decide)
      · exact absurd hquote (by decide)
      · exact nomatch hquote
    exact ((tokenize_ends_at_mark _ _ (hmem (.tail _ (.tail _ (.head _))))).2
      (.stringLiteral, '\x22') (by decide) (by decide)).2 fun n hn => absurd hn.1 (hnone n)

end HeaderBinding
