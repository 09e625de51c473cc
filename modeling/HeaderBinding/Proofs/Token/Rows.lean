import HeaderBinding.Proofs.Token.Delimiters
import Mathlib.Data.List.Chain

/-!
# Rows of tokens

The lexer takes back the bytes it has read beyond a token, but it does not take back the rows they
have counted. What it reads beyond a token holds a line feed in one case only: behind a slash and a
star that open a comment without end. In a source without such a comment the row of every token is
the number of its line.
-/

namespace HeaderBinding

namespace Lexer

open Lexicon

variable {s u x : Bytes} {b : UInt8} {kind : TokenKind} {size : Nat}

/-! ## Counting rows -/

theorem Cursor.row_step (c : Cursor) (b : UInt8) :
    (c.step b).row = c.row + [b].count lineFeed := by
  rw [Cursor.step]
  split
  · rename_i hfeed
    simp [hfeed]
  · rename_i hfeed
    split <;> simp [hfeed]

/-- Each line feed starts a row. -/
theorem Cursor.row_past (c : Cursor) (s : Bytes) : (c.past s).row = c.row + s.count lineFeed := by
  induction s generalizing c with
  | nil => rfl
  | cons b s ih =>
      have hcount : (b :: s).count lineFeed = [b].count lineFeed + s.count lineFeed := by
        rw [← List.singleton_append, List.count_append]
      rw [hcount, ← Nat.add_assoc, ← c.row_step b]
      exact ih (c.step b)

theorem takeInvalid_cursor (c : Cursor) (s : Bytes) :
    (takeInvalid c s).2.1 = c.past (takeInvalid c s).1 := by
  fun_induction takeInvalid c s with
  | case1 c => rfl
  | case2 c b s kind h => rfl
  | case3 c b s h others ih =>
      rw [ih]
      simp [Cursor.past, others]

/-! ## Reading ahead -/

theorem scanRest_read_le (live : List LexicalRule) (count : Nat)
    (best : Option (TokenKind × Nat)) (s : Bytes) :
    (scanRest live count best s).read ≤ count + s.length := by
  induction s generalizing live count best with
  | nil => exact Nat.le_refl _
  | cons b s ih =>
      rw [scanRest]
      split
      · simp
      · refine (ih _ _ _).trans ?_
        simp only [List.length_cons]
        omega

theorem scan_read_le (b : UInt8) (s : Bytes) : (scan b s).read ≤ s.length := by
  rw [scan]
  split
  · exact Nat.zero_le _
  · simpa using scanRest_read_le (advance b LexicalRule.all) 0 _ s

/-- The bytes read but for the last one are the start of some text. -/
theorem viable_take_read (b : UInt8) (s : Bytes) :
    Viable entries ((b :: s).take (scan b s).read) := by
  have hread := scan_read_le b s
  rcases scan_read b s with hdead | ⟨hviable, -⟩
  · by_contra hnot
    have hlength := hdead.shortest _ (List.take_prefix _ _) hnot
    simp only [List.length_cons, List.length_take] at hlength
    omega
  · exact hviable _ (List.take_prefix _ _)

/-- A match lies within the bytes read but for the last one, unless it ends the text. -/
theorem size_lt_read (h : (scan b s).accepted = some (kind, size)) (hrest : s.drop size ≠ []) :
    size < (scan b s).read := by
  have hsize : size < s.length := by
    by_contra hle
    exact hrest (List.drop_eq_nil_of_le (by omega))
  have hread := scan_read_le b s
  rcases scan_accepted b s with ⟨u, kind', hlongest, hfound⟩ | ⟨-, hnone⟩
  · rw [h] at hfound
    obtain ⟨-, rfl⟩ : kind = kind' ∧ size = u.length := by simpa using hfound
    have hword : Word entries (b :: u) := word_iff_firstKind.mpr ⟨kind', hlongest.kind_eq⟩
    rcases scan_read b s with hdead | ⟨-, hall⟩
    · by_contra hle
      refine hdead.dead (hword.viable ?_)
      refine List.prefix_of_prefix_length_le hdead.starts hlongest.starts ?_
      simp only [List.length_cons, List.length_take]
      omega
    · have hlength := congrArg List.length hall
      simp only [List.length_cons, List.length_take] at hlength
      omega
  · rw [h] at hnone
    cases hnone

/-! ## What is read ahead -/

theorem rule_eq_of_openComment {rule : LexicalRule} (hrule : rule ∈ LexicalRule.all)
    (h : rule.pattern.Matches (ascii "/*" ++ s)) : rule = .blockComment :=
  rule_eq_of_front hrule (by decide +kernel) h

theorem rule_eq_of_star {rule : LexicalRule} (hrule : rule ∈ LexicalRule.all)
    (h : rule.pattern.Matches (ascii "*" ++ s)) : rule = .fixed .star "*" :=
  rule_eq_of_front hrule (by decide +kernel) h

/-- A word with a line feed read ahead is the slash of a comment without end. -/
theorem eq_slash_of_lookahead (hlongest : LongestWord entries s u kind) (hx : u ++ x <+: s)
    (hviable : Viable entries (u ++ x)) (hfeed : lineFeed ∈ x) :
    u = ascii "/" ∧ x.head? = some 0x2A := by
  have hu := List.length_pos_iff.mpr hlongest.ne_nil
  have hlength := List.length_pos_of_mem hfeed
  obtain ⟨t, ht, hstarts⟩ := hviable
  obtain ⟨kind', hkind⟩ := word_iff_firstKind.mp ht
  have hshorter : ¬ Word entries (u ++ x) := by
    intro hword
    have hle := hlongest.longest (u ++ x) hx hword
    rw [List.length_append] at hle
    omega
  rcases hkind.break_or_comment (hstarts.subset (by simp [hfeed])) with ⟨-, hbreak⟩ | ⟨-, hcomment⟩
  · -- A line break with all its bytes read is a longer word.
    have hall : u ++ x = t := by
      apply hstarts.eq_of_length_le
      rcases hbreak with rfl | rfl <;> simp <;> omega
    exact absurd (hall ▸ ht) hshorter
  · obtain ⟨tail, rfl, -⟩ := commentTail_of_matches hcomment
    obtain ⟨b, u, rfl⟩ := List.exists_cons_of_ne_nil hlongest.ne_nil
    obtain ⟨rfl, hopening⟩ := List.cons_prefix_cons.mp hstarts
    cases u with
    | nil =>
        obtain ⟨c, x, rfl⟩ := List.exists_cons_of_ne_nil (List.ne_nil_of_mem hfeed)
        obtain ⟨rfl, -⟩ := List.cons_prefix_cons.mp hopening
        exact ⟨rfl, rfl⟩
    | cons c u =>
        -- A closed comment does not go on to another closing mark.
        obtain ⟨rfl, -⟩ := List.cons_prefix_cons.mp hopening
        obtain ⟨rule, hrule, -, hmatch⟩ := hlongest.kind_eq.rule
        rw [rule_eq_of_openComment (s := u) hrule hmatch] at hmatch
        have hall := blockComment_eq_of_prefix hmatch hcomment
          ((List.prefix_append _ x).trans hstarts)
        have hle := hstarts.length_le
        rw [List.length_append, hall] at hle
        omega

/-- A star is a token of its own. -/
theorem next_star {l l' : State} {t : Token} (h : next l = (.token t, l'))
    (hstar : l.rest.head? = some 0x2A) : t.kind = .star := by
  obtain ⟨rest, hrest⟩ : ∃ rest, l.rest = ascii "*" ++ rest :=
    ⟨l.rest.tail, (List.cons_head?_tail hstar).symm⟩
  have hword : Word entries (ascii "*") :=
    word_iff_firstKind.mpr ⟨.star, firstKind_of_accepted? (by decide)⟩
  rcases next_munch h with hlongest | ⟨hunmatched, -⟩
  · have hstarts : ascii "*" <+: t.text := by
      rw [hrest] at hlongest
      exact List.prefix_of_prefix_length_le (List.prefix_append _ _) hlongest.starts
        (hlongest.longest _ (List.prefix_append _ _) hword)
    obtain ⟨more, hmore⟩ := hstarts
    obtain ⟨rule, hrule, hkind, hmatch⟩ := hlongest.kind_eq.rule
    rw [← hmore] at hmatch
    rw [← hkind, rule_eq_of_star hrule hmatch]
    rfl
  · exact absurd hword (hunmatched _ (hrest ▸ List.prefix_append _ _) (by decide))

/-- What a match has read ahead holds no line feed, unless the match is the slash of a comment without
end. -/
theorem count_take_read (h : (scan b s).accepted = some (kind, size)) (hrest : s.drop size ≠ []) :
    ((b :: s).take (scan b s).read).count lineFeed = (b :: s.take size).count lineFeed ∨
      kind = .operator ∧ b :: s.take size = ascii "/" ∧ (s.drop size).head? = some 0x2A := by
  have hlongest : LongestWord entries (b :: s) (b :: s.take size) kind := by
    rcases scan_accepted b s with ⟨u, kind', hlongest, hfound⟩ | ⟨-, hnone⟩
    · rw [h] at hfound
      obtain ⟨rfl, rfl⟩ : kind = kind' ∧ size = u.length := by simpa using hfound
      obtain ⟨-, hu⟩ := List.cons_prefix_cons.mp hlongest.starts
      rwa [← List.prefix_iff_eq_take.mp hu]
    · rw [h] at hnone
      cases hnone
  have hsize : (b :: s).take (size + 1) <+: (b :: s).take (scan b s).read :=
    List.take_prefix_take_left (size_lt_read h hrest)
  obtain ⟨x, hx⟩ := hsize
  rw [List.take_succ_cons] at hx
  have hahead : b :: s.take size ++ x <+: b :: s := hx ▸ List.take_prefix _ _
  by_cases hfeed : lineFeed ∈ x
  · right
    obtain ⟨htext, hstar⟩ :=
      eq_slash_of_lookahead hlongest hahead (hx ▸ viable_take_read b s) hfeed
    have hslash : FirstKind entries (ascii "/") .operator := firstKind_of_accepted? (by decide)
    refine ⟨(htext ▸ hlongest.kind_eq).unique hslash, htext, ?_⟩
    have hsplit : b :: s = (b :: s.take size) ++ s.drop size := by simp
    rw [hsplit] at hahead
    obtain ⟨more, hmore⟩ := (List.prefix_append_right_inj _).mp hahead
    rw [← hmore, List.head?_append, hstar]
    rfl
  · left
    rw [← hx, List.count_append, List.count_eq_zero_of_not_mem hfeed, Nat.add_zero]

/-- A call moves the row by the line feeds of its token, if more is to come and the token is not the
slash of a comment without end. -/
theorem next_row {l l' : State} {t : Token} (h : next l = (.token t, l')) (hrest : l'.rest ≠ []) :
    l'.cursor.row = l.cursor.row + t.text.count lineFeed ∨
      t.kind = .operator ∧ t.text = ascii "/" ∧ l'.rest.head? = some 0x2A := by
  rw [next] at h
  split at h
  · simp at h
  · split at h
    · rename_i kind size hsome
      obtain ⟨ht, hl⟩ := Prod.mk.inj h
      cases ht
      subst hl
      rw [Cursor.row_past, Nat.add_left_cancel_iff]
      exact count_take_read hsome hrest
    · obtain ⟨ht, hl⟩ := Prod.mk.inj h
      cases ht
      subst hl
      left
      rw [takeInvalid_cursor, Cursor.row_past]

theorem next_position {l l' : State} {t : Token} (h : next l = (.token t, l')) :
    t.position.row = l.cursor.row := by
  rw [next] at h
  split at h
  · simp at h
  · split at h <;> cases (Prod.mk.inj h).1 <;> rfl

end Lexer

/-! ## Closed comments -/

/-- No comment is left open: no slash is followed at once by a star. -/
def CommentsClosed (tokens : List Token) : Prop :=
  tokens.IsChain fun t u => ¬ (t.kind = .operator ∧ t.text = ascii "/" ∧ u.kind = .star)

instance (tokens : List Token) : Decidable (CommentsClosed tokens) :=
  inferInstanceAs (Decidable (List.IsChain _ _))

/-- By induction on the calls: the row of a token is that of the first one, and a line feed before
the token adds one. -/
theorem Lexer.Emits.row_eq {l : Lexer.State} {front back : List Token} {t : Token} {p : Position}
    (h : Lexer.Emits l (front ++ t :: back) p) (hclosed : CommentsClosed (front ++ t :: back)) :
    t.position.row = l.cursor.row + (Token.concat front).count lineFeed := by
  induction front generalizing l with
  | nil =>
      cases h with
      | token hnext => exact Lexer.next_position hnext
  | cons u front ih =>
      rw [List.cons_append] at h hclosed
      obtain ⟨hapart, hothers⟩ := List.isChain_cons.mp hclosed
      cases h with
      | @token _ l' _ _ _ hnext hrun =>
          have hrest : l'.rest ≠ [] := by
            rw [← hrun.concat_eq]
            simp [hrun.text_ne_nil t (by simp)]
          rcases Lexer.next_row hnext hrest with hmoved | ⟨hkind, htext, hstar⟩
          · rw [ih hrun hothers, hmoved, Token.concat_cons, List.count_append, Nat.add_assoc]
          · obtain ⟨v, others, hcons⟩ :=
              List.exists_cons_of_ne_nil (show front ++ t :: back ≠ [] by simp)
            rw [hcons] at hrun hapart
            cases hrun with
            | token hnext' =>
                exact absurd ⟨hkind, htext, Lexer.next_star hnext' hstar⟩ (hapart v rfl)

/-- A token stands at its offset, behind the texts of the tokens before it. -/
theorem exists_split_at_offset {source : Bytes} {t : Token} (ht : t ∈ tokenize source) :
    ∃ front back, tokenize source = front ++ t :: back ∧
      source.take t.position.offset = Token.concat front ∧
      source.drop t.position.offset = t.text ++ Token.concat back := by
  obtain ⟨front, back, hsplit⟩ := List.append_of_mem ht
  have hplaced := placed_tokenize source
  have hsource := concat_tokenize source
  rw [hsplit] at hplaced hsource
  obtain ⟨hoffset, -⟩ := (Token.placed_append.mp hplaced).2
  rw [Nat.zero_add] at hoffset
  rw [Token.concat_append, Token.concat_cons] at hsource
  refine ⟨front, back, hsplit, ?_, ?_⟩
  · rw [hoffset, ← hsource, List.take_left]
  · rw [hoffset, ← hsource, List.drop_left]

/-- The row of a token is one more than the line feeds before it. -/
theorem row_tokenize {source : Bytes} (hclosed : CommentsClosed (tokenize source)) {t : Token}
    (ht : t ∈ tokenize source) :
    t.position.row = 1 + (source.take t.position.offset).count lineFeed := by
  obtain ⟨front, back, hsplit, hbefore, -⟩ := exists_split_at_offset ht
  have hrun := Lexer.emits_tokenize source
  rw [hsplit] at hrun hclosed
  rw [hbefore]
  exact hrun.row_eq hclosed

end HeaderBinding
