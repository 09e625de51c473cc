import HeaderBinding.Proofs.Reading.Placement
import HeaderBinding.Proofs.Token.MaximalMunch

/-!
# A source that ends between two tokens

The tokens of a text are determined by the words of the lexicon: at each place stands the longest
word, or else the invalid bytes there. A text that ends where a token ends is therefore cut into the
tokens before that place, whatever stood behind it.
-/

namespace HeaderBinding

namespace Lexicon

variable {es : List LexicalEntry} {s s' u u' text text' : Bytes} {kind kind' : TokenKind}

/-! ## One token is determined by the bytes at its place -/

theorem LongestWord.unique (h : LongestWord es s u kind) (h' : LongestWord es s u' kind') :
    u = u' ∧ kind = kind' := by
  have hle := h'.longest u h.starts (word_iff_firstKind.mpr ⟨kind, h.kind_eq⟩)
  have hge := h.longest u' h'.starts (word_iff_firstKind.mpr ⟨kind', h'.kind_eq⟩)
  have hprefix : u <+: u' := List.prefix_of_prefix_length_le h.starts h'.starts hle
  have hu : u = u' := hprefix.eq_of_length_le hge
  subst hu
  exact ⟨rfl, h.kind_eq.unique h'.kind_eq⟩

theorem LongestWord.not_unmatched (h : LongestWord es s u kind) : ¬ Unmatched es s := by
  intro hunmatched
  exact hunmatched u h.starts h.ne_nil (word_iff_firstKind.mpr ⟨kind, h.kind_eq⟩)

theorem ShortestDead.unique (h : ShortestDead es s u) (h' : ShortestDead es s u') : u = u' := by
  have hle := h.shortest u' h'.starts h'.dead
  have hge := h'.shortest u h.starts h.dead
  have hprefix : u <+: u' := List.prefix_of_prefix_length_le h.starts h'.starts hle
  exact hprefix.eq_of_length_le hge

theorem InvalidPiece.unique (h : InvalidPiece es s u) (h' : InvalidPiece es s u') : u = u' := by
  rcases h with hdead | ⟨hviable, rfl⟩
  · rcases h' with hdead' | ⟨hviable', rfl⟩
    · exact hdead.unique hdead'
    · exact absurd (hviable' u hdead.starts) hdead.dead
  · rcases h' with hdead' | ⟨_, rfl⟩
    · exact absurd (hviable u' hdead'.starts) hdead'.dead
    · rfl

theorem InvalidRun.unique (h : InvalidRun es s text) (h' : InvalidRun es s text') :
    text = text' := by
  induction h generalizing text' with
  | finish =>
      generalize hs : ([] : Bytes) = whole at h'
      cases h' with
      | finish => rfl
      | word _ => exact hs.symm
      | piece _ hne _ _ => exact absurd (List.append_eq_nil_iff.mp hs.symm).1 hne
  | word hword =>
      cases h' with
      | finish => rfl
      | word _ => rfl
      | piece hunmatched _ _ _ => exact absurd hunmatched hword
  | @piece u s text hunmatched hne hpiece _ ih =>
      generalize hs : u ++ s = whole at h'
      cases h' with
      | finish => exact absurd (List.append_eq_nil_iff.mp hs).1 hne
      | word hword => exact absurd (hs ▸ hunmatched) hword
      | @piece u' s' text' _ _ hpiece' hrun' =>
          have hu : u = u' := hpiece.unique (hs ▸ hpiece')
          subst hu
          rw [List.append_cancel_left hs] at ih
          rw [ih hrun']

/-! ## Less behind a token -/

/-- A word that is the longest one stays so if less follows it. -/
theorem LongestWord.of_prefix (h : LongestWord es (u ++ s) u kind) (hs : s' <+: s) :
    LongestWord es (u ++ s') u kind where
  starts := List.prefix_append u s'
  ne_nil := h.ne_nil
  kind_eq := h.kind_eq
  longest := by
    intro v hv hword
    exact h.longest v (hv.trans ((List.prefix_append_right_inj u).mpr hs)) hword

theorem Unmatched.of_prefix (h : Unmatched es s) (hs : s' <+: s) : Unmatched es s' := by
  intro v hv hne
  exact h v (hv.trans hs) hne

theorem InvalidPiece.of_prefix (h : InvalidPiece es (u ++ s) u) (hs : s' <+: s) :
    InvalidPiece es (u ++ s') u := by
  have hshorter : u ++ s' <+: u ++ s := (List.prefix_append_right_inj u).mpr hs
  rcases h with hdead | ⟨hviable, hu⟩
  · refine .inl ⟨List.prefix_append u s', hdead.dead, ?_⟩
    intro v hv hnot
    exact hdead.shortest v (hv.trans hshorter) hnot
  · have hnil : s = [] := List.append_right_eq_self.mp hu.symm
    subst hnil
    rw [List.prefix_nil.mp hs]
    exact .inr ⟨hviable, hu⟩

/-- A run of invalid bytes ends with the text or before a word. -/
theorem InvalidRun.behind (h : InvalidRun es (text ++ s) text) : s = [] ∨ ¬ Unmatched es s := by
  generalize hwhole : text ++ s = whole at h
  induction h with
  | finish => exact .inl hwhole
  | word hword =>
      rw [List.nil_append] at hwhole
      exact .inr (hwhole ▸ hword)
  | piece _ _ _ _ ih =>
      rw [List.append_assoc] at hwhole
      exact ih (List.append_cancel_left hwhole)

theorem InvalidRun.of_prefix (h : InvalidRun es (text ++ s) text) (hs : s' <+: s)
    (hbehind : s' = [] ∨ ¬ Unmatched es s') : InvalidRun es (text ++ s') text := by
  generalize hwhole : text ++ s = whole at h
  induction h with
  | finish =>
      rcases hbehind with rfl | hword
      · exact .finish
      · exact .word hword
  | word _ =>
      rcases hbehind with rfl | hword
      · exact .finish
      · exact .word hword
  | @piece u tail text hunmatched hne hpiece _ ih =>
      rw [List.append_assoc] at hwhole
      obtain rfl : text ++ s = tail := List.append_cancel_left hwhole
      have hshorter : text ++ s' <+: text ++ s := (List.prefix_append_right_inj text).mpr hs
      rw [List.append_assoc]
      refine .piece ?_ hne (hpiece.of_prefix hshorter) (ih rfl)
      exact hunmatched.of_prefix ((List.prefix_append_right_inj u).mpr hshorter)

/-! ## All tokens of a text -/

/-- The kinds and texts that a text is cut into: at each place the longest word, or else the invalid
bytes there. -/
inductive Cut : Bytes → List (TokenKind × Bytes) → Prop where
  | nil : Cut [] []
  | word {u s : Bytes} {kind : TokenKind} {tokens : List (TokenKind × Bytes)} :
      LongestWord entries (u ++ s) u kind → Cut s tokens → Cut (u ++ s) ((kind, u) :: tokens)
  | invalid {u s : Bytes} {tokens : List (TokenKind × Bytes)} :
      Unmatched entries (u ++ s) → u ≠ [] → InvalidRun entries (u ++ s) u → Cut s tokens →
      Cut (u ++ s) ((.invalid, u) :: tokens)

variable {tokens others front back : List (TokenKind × Bytes)}

theorem Cut.flatten_eq (h : Cut s tokens) : (tokens.map Prod.snd).flatten = s := by
  induction h with
  | nil => rfl
  | word _ _ ih => rw [List.map_cons, List.flatten_cons, ih]
  | invalid _ _ _ _ ih => rw [List.map_cons, List.flatten_cons, ih]

theorem Cut.prefix_of_append (h : Cut s (front ++ back)) :
    (front.map Prod.snd).flatten <+: s := by
  rw [← h.flatten_eq, List.map_append, List.flatten_append]
  exact List.prefix_append _ _

theorem Cut.unique (h : Cut s tokens) (h' : Cut s others) : tokens = others := by
  induction h generalizing others with
  | nil =>
      generalize hs : ([] : Bytes) = s at h'
      cases h' with
      | nil => rfl
      | word hlongest _ => exact absurd (List.append_eq_nil_iff.mp hs.symm).1 hlongest.ne_nil
      | invalid _ hne _ _ => exact absurd (List.append_eq_nil_iff.mp hs.symm).1 hne
  | @word u s kind tokens hlongest _ ih =>
      generalize hs : u ++ s = whole at h'
      cases h' with
      | nil => exact absurd (List.append_eq_nil_iff.mp hs).1 hlongest.ne_nil
      | word hlongest' hrest' =>
          obtain ⟨rfl, rfl⟩ := hlongest.unique (hs ▸ hlongest')
          rw [ih (List.append_cancel_left hs ▸ hrest')]
      | invalid hunmatched _ _ _ => exact absurd (hs ▸ hunmatched) hlongest.not_unmatched
  | @invalid u s tokens hunmatched hne hrun _ ih =>
      generalize hs : u ++ s = whole at h'
      cases h' with
      | nil => exact absurd (List.append_eq_nil_iff.mp hs).1 hne
      | word hlongest _ => exact absurd (hs ▸ hunmatched) hlongest.not_unmatched
      | invalid _ _ hrun' hrest' =>
          obtain rfl := hrun.unique (hs ▸ hrun')
          rw [ih (List.append_cancel_left hs ▸ hrest')]

/-- Where a word stands, the first token is a word. -/
theorem Cut.not_unmatched {token : TokenKind × Bytes} (h : Cut s (token :: (front ++ back)))
    (hword : s = [] ∨ ¬ Unmatched entries s) :
    ¬ Unmatched entries ((token :: front).map Prod.snd).flatten := by
  cases h with
  | word hlongest hrest =>
      exact LongestWord.not_unmatched (hlongest.of_prefix hrest.prefix_of_append)
  | invalid hunmatched hne _ _ =>
      rcases hword with hnil | hword
      · exact absurd (List.append_eq_nil_iff.mp hnil).1 hne
      · exact absurd hunmatched hword

/-- The first tokens of a text are the tokens of what they spell. -/
theorem Cut.of_append (h : Cut s (front ++ back)) : Cut (front.map Prod.snd).flatten front := by
  induction front generalizing s with
  | nil => exact .nil
  | cons token front ih =>
      rw [List.cons_append] at h
      cases h with
      | word hlongest hrest => exact .word (hlongest.of_prefix hrest.prefix_of_append) (ih hrest)
      | @invalid u s _ hunmatched hne hrun hrest =>
          have hprefix := hrest.prefix_of_append
          refine .invalid ?_ hne (hrun.of_prefix hprefix ?_) (ih hrest)
          · exact hunmatched.of_prefix ((List.prefix_append_right_inj u).mpr hprefix)
          · cases front with
            | nil => exact .inl rfl
            | cons token front => exact .inr (hrest.not_unmatched hrun.behind)

end Lexicon

/-! ## The tokens of a source -/

open Lexicon

theorem Lexer.Emits.cut {l : Lexer.State} {tokens : List Token} {p : Position}
    (h : Lexer.Emits l tokens p) : Cut l.rest (tokens.map Token.spelling) := by
  induction h with
  | finish hnext =>
      rw [(Lexer.next_finish hnext).1]
      exact .nil
  | @token l l' t tokens p hnext _ ih =>
      obtain ⟨hrest, hne, _⟩ := Lexer.next_token hnext
      have hmunch := Lexer.next_munch hnext
      rw [hrest] at hmunch ⊢
      rcases hmunch with hlongest | ⟨hunmatched, hkind, hrun⟩
      · exact .word hlongest ih
      · rw [List.map_cons, Token.spelling, hkind]
        exact .invalid hunmatched hne hrun ih

theorem cut_tokenize (source : Bytes) : Cut source ((tokenize source).map Token.spelling) :=
  (Lexer.emits_tokenize source).cut

theorem spelling_tokenize {source : Bytes} {tokens : List (TokenKind × Bytes)}
    (h : Cut source tokens) : (tokenize source).map Token.spelling = tokens :=
  (cut_tokenize source).unique h

theorem flatten_map_spelling (tokens : List Token) :
    ((tokens.map Token.spelling).map Prod.snd).flatten = Token.concat tokens := by
  rw [List.map_map]
  rfl

/-- A source that ends between two tokens has the tokens before that place. -/
theorem spelling_tokenize_concat {source : Bytes} {front back : List Token}
    (h : tokenize source = front ++ back) :
    (tokenize (Token.concat front)).map Token.spelling = front.map Token.spelling := by
  have hcut := cut_tokenize source
  rw [h, List.map_append] at hcut
  rw [← flatten_map_spelling]
  exact spelling_tokenize hcut.of_append

end HeaderBinding
