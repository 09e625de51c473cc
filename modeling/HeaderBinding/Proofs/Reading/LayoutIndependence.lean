import HeaderBinding.Proofs.Reading.EnumeratorTexts

/-!
# Layout does not count

Blanks and comments separate tokens and mean nothing else. Every reader does with a list of tokens
what it does with the tokens that are not layout, up to the layout it leaves unread and to the
blanks in the texts of enumerators. A session therefore takes the same steps, through faults and
behind them, with or without layout.
-/

namespace HeaderBinding

/-! ## Texts without blanks -/

/-- The text without the blanks within a line. -/
def Bytes.blankless (s : Bytes) : Bytes :=
  s.filter fun b => !lineBlanks.contains b

@[simp] theorem blankless_append (s u : Bytes) :
    Bytes.blankless (s ++ u) = s.blankless ++ u.blankless := by
  simp [Bytes.blankless]

theorem blankless_eq_nil_iff {s : Bytes} : s.blankless = [] ↔ ∀ b ∈ s, b ∈ lineBlanks := by
  simp [Bytes.blankless]

theorem isByte_of_mem_lineBlanks {b : UInt8} (h : b ∈ lineBlanks) :
    b < 0x80 ∧ Blank.isByte b = true := by
  have hblanks : ∀ b ∈ lineBlanks, b < 0x80 ∧ Blank.isByte b = true := by decide +kernel
  exact hblanks b h

theorem trimLeft_append_blank {u : Bytes} (h : ∀ b ∈ u, b ∈ lineBlanks) (s : Bytes) :
    Bytes.trimLeft (u ++ s) = Bytes.trimLeft s := by
  induction u with
  | nil => rfl
  | cons b u ih =>
      obtain ⟨hb, hothers⟩ := List.forall_mem_cons.mp h
      obtain ⟨hascii, hblank⟩ := isByte_of_mem_lineBlanks hb
      rw [List.cons_append, trimLeft_cons hascii, if_pos hblank, ih hothers]

theorem trimRight_append_blank {u : Bytes} (h : ∀ b ∈ u, b ∈ lineBlanks) (s : Bytes) :
    Bytes.trimRight (s ++ u) = Bytes.trimRight s := by
  induction u using List.reverseRecOn with
  | nil => rw [List.append_nil]
  | append_singleton u b ih =>
      obtain ⟨hothers, hb⟩ := List.forall_mem_append.mp h
      obtain ⟨hascii, hblank⟩ := isByte_of_mem_lineBlanks (hb b (List.mem_singleton_self b))
      rw [← List.append_assoc, trimRight_concat hascii, if_pos hblank, ih hothers]

theorem trim_of_blank {s : Bytes} (h : ∀ b ∈ s, b ∈ lineBlanks) : s.trim = [] := by
  rw [Bytes.trim, ← List.append_nil s, trimLeft_append_blank h, trimLeft_nil, trimRight_nil]

/-- Blanks of a line are cut off around a text that starts and ends with none. -/
theorem trim_append_bounded {front core back : Bytes} (hfront : ∀ b ∈ front, b ∈ lineBlanks)
    (hcore : core.Bounded) (hback : ∀ b ∈ back, b ∈ lineBlanks) :
    Bytes.trim (front ++ (core ++ back)) = core := by
  rw [Bytes.trim, trimLeft_append_blank hfront, hcore.trimLeft_append,
    trimRight_append_blank hback, hcore.trimRight]

/-- Blanks of a line, or blanks of a line around a bounded text. -/
inductive Framed : Bytes → Prop where
  | blank {s : Bytes} (hs : ∀ b ∈ s, b ∈ lineBlanks) : Framed s
  | text {front core back : Bytes} (hfront : ∀ b ∈ front, b ∈ lineBlanks)
      (hcore : core.Bounded) (hback : ∀ b ∈ back, b ∈ lineBlanks) :
      Framed (front ++ (core ++ back))

namespace Framed

variable {s u : Bytes}

theorem append_blank (h : Framed s) (hu : ∀ b ∈ u, b ∈ lineBlanks) : Framed (s ++ u) := by
  cases h with
  | blank hs => exact .blank (List.forall_mem_append.mpr ⟨hs, hu⟩)
  | text hfront hcore hback =>
      rw [List.append_assoc, List.append_assoc]
      exact .text hfront hcore (List.forall_mem_append.mpr ⟨hback, hu⟩)

theorem append_bounded (h : Framed s) (hu : u.Bounded) : Framed (s ++ u) := by
  cases h with
  | blank hs =>
      have htext : Framed (s ++ (u ++ [])) := .text hs hu nofun
      rwa [List.append_nil] at htext
  | @text front core back hfront hcore hback =>
      have htext : Framed (front ++ (core ++ (back ++ u) ++ [])) :=
        .text hfront (hcore.append back hu) nofun
      simpa only [List.append_assoc, List.append_nil] using htext

/-- Only blanks of a line are cut off around such a text. -/
theorem blankless_trim (h : Framed s) : s.trim.blankless = s.blankless := by
  cases h with
  | blank hs =>
      rw [trim_of_blank hs, blankless_eq_nil_iff.mpr hs]
      rfl
  | @text front core back hfront hcore hback =>
      rw [trim_append_bounded hfront hcore hback, blankless_append, blankless_append,
        blankless_eq_nil_iff.mpr hfront, blankless_eq_nil_iff.mpr hback, List.nil_append,
        List.append_nil]

/-- Nothing is left of such a text exactly if it is blank. -/
theorem trim_eq_nil_iff (h : Framed s) : s.trim = [] ↔ s.blankless = [] := by
  constructor
  · intro hnil
    rw [← h.blankless_trim, hnil]
    rfl
  · intro hblank
    exact trim_of_blank (blankless_eq_nil_iff.mp hblank)

end Framed

/-! ## Tokens of a source without directives -/

/-- A token as the lexicon has it: blanks hold nothing else, and other texts of enumerators are
bounded. It starts no directive. -/
structure Token.Ordinary (t : Token) : Prop where
  noDirective : t.kind.isDirective = false
  blank : t.kind = .whiteSpace → ∀ b ∈ t.text, b ∈ lineBlanks
  bounded : isTextKind t.kind = true → t.kind ≠ .whiteSpace → t.text.Bounded

theorem Lexicon.FirstKind.mem_lineBlanks {u : Bytes} (h : FirstKind entries u .whiteSpace) :
    ∀ b ∈ u, b ∈ lineBlanks := by
  have hrules : ∀ rule ∈ LexicalRule.all, rule.kind = .whiteSpace →
      rule.pattern.within lineBlanks.contains = true := by
    decide +kernel
  obtain ⟨rule, hrule, hkind, hmatch⟩ := h.rule
  intro b hb
  simpa using Pattern.all_of_within (hrules rule hrule hkind) hmatch b hb

/-- The texts of enumerators start and end with quotes, or hold ASCII and no blanks at all. -/
theorem Lexicon.FirstKind.bounded {u : Bytes} {kind : TokenKind} (h : FirstKind entries u kind)
    (hne : u ≠ []) (hkind : isTextKind kind = true) (hblank : kind ≠ .whiteSpace) :
    u.Bounded := by
  have hrules : ∀ rule ∈ LexicalRule.all, isTextKind rule.kind = true →
      rule.kind ≠ .whiteSpace → rule.kind ∈ quotes.map Prod.fst ∨
        rule.pattern.within (fun b => b < 0x80 && !Blank.isByte b) = true := by
    decide +kernel
  obtain ⟨rule, hrule, rfl, hmatch⟩ := h.rule
  rcases hrules rule hrule hkind hblank with hquote | hwithin
  · obtain ⟨q, hq, hsame⟩ := List.mem_map.mp hquote
    rw [← hsame] at h
    have hliteral : IsLiteral q u := ⟨hq, h⟩
    refine ⟨hne, ?_, ?_⟩
    · obtain ⟨tail, rfl, -⟩ := hliteral.exists_tail
      rw [utf8_quote hq]
      intro b hb
      cases hb
      exact ascii_of_quote hq
    · rw [hliteral.getLast?]
      intro b hb
      cases hb
      exact ascii_of_quote hq
  · have hall : ∀ b ∈ u, b < 0x80 ∧ Blank.isByte b = false := by
      intro b hb
      simpa using Pattern.all_of_within hwithin hmatch b hb
    exact ⟨hne, fun b hb => hall b (List.mem_of_mem_head? hb),
      fun b hb => hall b (List.mem_of_getLast? hb)⟩

theorem ordinary_of_mem_tokenize {source : Bytes} {t : Token} (ht : t ∈ tokenize source)
    (hdirective : t.kind.isDirective = false) : t.Ordinary := by
  have hlexical := lexical_tokenize source
  have hne : t.text ≠ [] := (Lexer.emits_tokenize source).text_ne_nil t ht
  refine ⟨hdirective, ?_, ?_⟩
  · intro hkind
    have hfirst := hlexical.firstKind ht (by simp [hkind])
    rw [hkind] at hfirst
    exact hfirst.mem_lineBlanks
  · intro hkind hblank
    have hvalid : t.kind ≠ .invalid := by
      intro hinvalid
      rw [hinvalid] at hkind
      cases hkind
    exact (hlexical.firstKind ht hvalid).bounded hne hkind hblank

theorem Token.Ordinary.move {t : Token} (h : t.Ordinary) (f : Position → Position) :
    (t.move f).Ordinary :=
  ⟨h.noDirective, h.blank, h.bounded⟩

/-- Ordinary tokens that are the same but for layout. -/
inductive Alike : List Token → List Token → Prop where
  | nil : Alike [] []
  | left {t : Token} {tokens others : List Token} (ht : t.Ordinary)
      (hlayout : t.kind.isLayout = true) (h : Alike tokens others) : Alike (t :: tokens) others
  | right {t : Token} {tokens others : List Token} (ht : t.Ordinary)
      (hlayout : t.kind.isLayout = true) (h : Alike tokens others) : Alike tokens (t :: others)
  | both {t : Token} {tokens others : List Token} (ht : t.Ordinary)
      (hsolid : t.kind.isLayout = false) (h : Alike tokens others) :
      Alike (t :: tokens) (t :: others)

theorem significant_cons_of_layout {t : Token} (ht : t.kind.isLayout = true) (tokens : List Token) :
    significant (t :: tokens) = significant tokens := by
  simp [significant, ht]

theorem Alike.of_significant {tokens others : List Token} (htokens : ∀ t ∈ tokens, t.Ordinary)
    (hothers : ∀ t ∈ others, t.Ordinary) (h : significant tokens = significant others) :
    Alike tokens others := by
  induction tokens generalizing others with
  | nil =>
      induction others with
      | nil => exact .nil
      | cons t others ih =>
          obtain ⟨ht, hothers⟩ := List.forall_mem_cons.mp hothers
          by_cases hlayout : t.kind.isLayout = true
          · rw [significant_cons_of_layout hlayout] at h
            exact .right ht hlayout (ih hothers h)
          · rw [significant_cons (by simpa using hlayout)] at h
            cases h
  | cons t tokens ih =>
      obtain ⟨ht, htokens⟩ := List.forall_mem_cons.mp htokens
      by_cases hlayout : t.kind.isLayout = true
      · rw [significant_cons_of_layout hlayout] at h
        exact .left ht hlayout (ih htokens hothers h)
      · have hsolid : t.kind.isLayout = false := by simpa using hlayout
        rw [significant_cons hsolid] at h
        -- The same token stands in the other list, behind layout.
        induction others with
        | nil => cases h
        | cons u others ihothers =>
            obtain ⟨hu, hbehind⟩ := List.forall_mem_cons.mp hothers
            by_cases hother : u.kind.isLayout = true
            · rw [significant_cons_of_layout hother] at h
              exact .right hu hother (ihothers hbehind h)
            · rw [significant_cons (by simpa using hother)] at h
              obtain ⟨rfl, hrest⟩ := List.cons.inj h
              exact .both ht hsolid (ih htokens hbehind hrest)

theorem Alike.significant_eq {tokens others : List Token} (h : Alike tokens others) :
    significant tokens = significant others := by
  induction h with
  | nil => rfl
  | left _ hlayout _ ih => rw [significant_cons_of_layout hlayout, ih]
  | right _ hlayout _ ih => rw [significant_cons_of_layout hlayout, ih]
  | both _ hsolid _ ih => rw [significant_cons hsolid, significant_cons hsolid, ih]

theorem Alike.ordinary {tokens others : List Token} (h : Alike tokens others) :
    ∀ t ∈ tokens, t.Ordinary := by
  induction h with
  | nil => nofun
  | left ht _ _ ih => exact List.forall_mem_cons.mpr ⟨ht, ih⟩
  | right _ _ _ ih => exact ih
  | both ht _ _ ih => exact List.forall_mem_cons.mpr ⟨ht, ih⟩

/-- Lists that end together, or start with the same token and go on alike. -/
inductive SameFront : List Token → List Token → Prop where
  | nil : SameFront [] []
  | cons {t : Token} {rest behind : List Token} (hall : Alike (t :: rest) (t :: behind))
      (hrest : Alike rest behind) : SameFront (t :: rest) (t :: behind)

theorem SameFront.alike {tokens others : List Token} (h : SameFront tokens others) :
    Alike tokens others := by
  cases h with
  | nil => exact .nil
  | cons hall _ => exact hall

/-- Skipping what counts as layout, and perhaps more, leads to the same token. -/
theorem Alike.dropWhile {p : Token → Bool} (hp : ∀ t : Token, t.kind.isLayout = true → p t = true)
    {tokens others : List Token} (h : Alike tokens others) :
    SameFront (tokens.dropWhile p) (others.dropWhile p) := by
  induction h with
  | nil => exact .nil
  | left _ hlayout _ ih =>
      rw [List.dropWhile_cons_of_pos (hp _ hlayout)]
      exact ih
  | right _ hlayout _ ih =>
      rw [List.dropWhile_cons_of_pos (hp _ hlayout)]
      exact ih
  | @both t tokens others ht hsolid h ih =>
      by_cases hdrop : p t = true
      · rw [List.dropWhile_cons_of_pos hdrop, List.dropWhile_cons_of_pos hdrop]
        exact ih
      · rw [List.dropWhile_cons_of_neg hdrop, List.dropWhile_cons_of_neg hdrop]
        exact .cons (.both ht hsolid h) h

theorem Alike.skipLayout {tokens others : List Token} (h : Alike tokens others) :
    SameFront (skipLayout tokens) (skipLayout others) :=
  h.dropWhile fun _ => id

theorem Alike.skipLines {tokens others : List Token} (h : Alike tokens others) :
    SameFront (skipLines tokens) (skipLines others) :=
  h.dropWhile fun t ht => by simp [TokenKind.isLayoutOrNewline, ht]

/-! ## Outcomes that agree -/

/-- Outcomes of corresponding values, or of the same fault, that leave tokens unread which are
alike. -/
inductive Outcome.Agree {α : Type} (same : α → α → Prop) : Outcome α → Outcome α → Prop where
  | done {value other : α} {rest behind : List Token} (hvalue : same value other)
      (hrest : Alike rest behind) : Agree same (.done value rest) (.done other behind)
  | broken {fault : Fault} {rest behind : List Token} (hrest : Alike rest behind) :
      Agree same (.broken fault rest) (.broken fault behind)

namespace Outcome.Agree

variable {α β : Type} {same : α → α → Prop} {same' : β → β → Prop} {x y : Outcome α}

theorem andThen (h : Agree same x y) {next next' : α → List Token → Outcome β}
    (hnext : ∀ value other rest behind, same value other → Alike rest behind →
      Agree same' (next value rest) (next' other behind)) :
    Agree same' (x.andThen next) (y.andThen next') := by
  cases h with
  | done hvalue hrest => exact hnext _ _ _ _ hvalue hrest
  | broken hrest => exact .broken hrest

theorem map (h : Agree same x y) {g g' : α → β}
    (hg : ∀ value other, same value other → same' (g value) (g' other)) :
    Agree same' (x.map g) (y.map g') :=
  h.andThen fun value other _ _ hvalue hrest => .done (hg value other hvalue) hrest

end Outcome.Agree

open Outcome (Agree)

theorem Construct.agree_cut {α : Type} {same : α → α → Prop} (c : Construct) :
    Agree same c.cut c.cut :=
  .broken .nil

/-! ## Members and parameters -/

section

variable {o : ReadOptions} {c : Construct} {tokens others : List Token}

theorem TokenKind.isLayout_iff {k : TokenKind} :
    k.isLayout = true ↔ k = .whiteSpace ∨ k = .comment := by
  cases k <;> decide

theorem readMembers_layout {t : Token} (ht : t.kind.isLayout = true) (closer : Closer)
    (done : Array Argument) (current : Array Token) (rest : List Token) :
    readMembers o c closer done current (t :: rest) = readMembers o c closer done current rest := by
  rcases TokenKind.isLayout_iff.mp ht with hk | hk <;> simp only [readMembers, hk]

theorem readMembers_agree (closer : Closer) (done : Array Argument) (current : Array Token)
    (h : Alike tokens others) :
    Agree Eq (readMembers o c closer done current tokens)
      (readMembers o c closer done current others) := by
  induction h generalizing done current with
  | nil =>
      cases closer with
      | brace => exact c.agree_cut
      | endOfSource position =>
          simp only [readMembers]
          split
          · exact .done rfl .nil
          · exact .broken .nil
  | left _ hlayout _ ih =>
      rw [readMembers_layout hlayout]
      exact ih done current
  | right _ hlayout _ ih =>
      rw [readMembers_layout hlayout]
      exact ih done current
  | @both t tokens others ht hsolid h ih =>
      simp only [readMembers]
      split
      · exact ih done current
      · exact ih done current
      · exact ih done current
      · cases current.toList with
        | nil => exact ih done #[]
        | cons first members =>
            simp only
            cases Argument.ofTokens o .malformedMember first members with
            | ok a => exact ih (done.push a) #[]
            | error fault => exact .broken h
      · split
        · exact .done rfl h
        · exact .broken (.both ht hsolid h)
      · exact .broken (.both ht hsolid h)
      · exact ih done (current.push t)

theorem readParameters_layout {t : Token} (ht : t.kind.isLayout = true) (done : Array Argument)
    (current : Array Token) (rest : List Token) :
    readParameters o c done current (t :: rest) = readParameters o c done current rest := by
  rcases TokenKind.isLayout_iff.mp ht with hk | hk <;> simp only [readParameters, hk]

theorem readParameters_agree (done : Array Argument) (current : Array Token)
    (h : Alike tokens others) :
    Agree Eq (readParameters o c done current tokens)
      (readParameters o c done current others) := by
  induction h generalizing done current with
  | nil => exact c.agree_cut
  | left _ hlayout _ ih =>
      rw [readParameters_layout hlayout]
      exact ih done current
  | right _ hlayout _ ih =>
      rw [readParameters_layout hlayout]
      exact ih done current
  | @both t tokens others ht hsolid h ih =>
      have hall : Alike (t :: tokens) (t :: others) := .both ht hsolid h
      simp only [readParameters]
      split
      · exact ih done current
      · exact ih done current
      · exact ih done current
      · cases current.toList with
        | nil => exact .broken h
        | cons first members =>
            simp only
            cases Argument.ofTokens o .noParameterName first members with
            | ok a => exact ih (done.push a) #[]
            | error fault => exact .broken h
      · cases current.toList with
        | nil => exact .broken h
        | cons first members =>
            simp only
            cases Argument.ofTokens o .noParameterName first members with
            | ok a => exact .done rfl h
            | error fault => exact .broken h
      · exact .broken hall
      · exact .broken hall
      · exact .broken hall
      · exact .broken hall
      · exact ih done (current.push t)

theorem readParameterList_agree (h : Alike tokens others) :
    Agree Eq (readParameterList o c tokens) (readParameterList o c others) := by
  have hfront := h.skipLines
  rw [readParameterList, readParameterList]
  generalize skipLines tokens = front, skipLines others = front' at hfront ⊢
  cases hfront with
  | nil => exact c.agree_cut
  | @cons t rest behind hall hrest =>
      simp only
      split
      · exact .done rfl hrest
      · split
        · have hnext := hrest.skipLines
          generalize skipLines rest = next, skipLines behind = next' at hnext ⊢
          cases hnext with
          | nil => exact c.agree_cut
          | cons hlist hbehind =>
              simp only
              split
              · exact .done rfl hbehind
              · exact readParameters_agree #[] #[t] hlist
        · exact readParameters_agree #[] #[] hall

/-! ## Enumerators -/

/-- Texts of enumerators that are the same without blanks. -/
def SameTexts (texts others : List Bytes) : Prop :=
  texts.map Bytes.blankless = others.map Bytes.blankless

/-- What was gathered of the enumerators in two readings: the texts read so far and the current
ones are the same but for blanks. -/
structure Gathered (done done' : Array Bytes) (current current' : Array UInt8) : Prop where
  done : SameTexts done.toList done'.toList
  left : Framed current.toList
  right : Framed current'.toList
  current : Bytes.blankless current.toList = Bytes.blankless current'.toList

namespace Gathered

variable {done done' : Array Bytes} {current current' : Array UInt8} {added : Bytes}

theorem start : Gathered #[] #[] #[] #[] :=
  ⟨rfl, .blank nofun, .blank nofun, rfl⟩

theorem symm (h : Gathered done done' current current') : Gathered done' done current' current :=
  ⟨h.done.symm, h.right, h.left, h.current.symm⟩

theorem blank (h : Gathered done done' current current') (hadded : ∀ b ∈ added, b ∈ lineBlanks) :
    Gathered done done' (current ++ added) current' where
  done := h.done
  left := by
    rw [Array.toList_appendList]
    exact h.left.append_blank hadded
  right := h.right
  current := by
    rw [Array.toList_appendList, blankless_append, blankless_eq_nil_iff.mpr hadded, List.append_nil,
      h.current]

theorem text (h : Gathered done done' current current') (hadded : added.Bounded) :
    Gathered done done' (current ++ added) (current' ++ added) where
  done := h.done
  left := by
    rw [Array.toList_appendList]
    exact h.left.append_bounded hadded
  right := by
    rw [Array.toList_appendList]
    exact h.right.append_bounded hadded
  current := by
    rw [Array.toList_appendList, Array.toList_appendList, blankless_append, blankless_append,
      h.current]

/-- Both of the current enumerators are empty, or neither. -/
theorem isEmpty_eq (h : Gathered done done' current current') :
    (Bytes.trim current.toList).isEmpty = (Bytes.trim current'.toList).isEmpty := by
  rw [Bool.eq_iff_iff, List.isEmpty_iff, List.isEmpty_iff, h.left.trim_eq_nil_iff,
    h.right.trim_eq_nil_iff, h.current]

theorem push (h : Gathered done done' current current') :
    Gathered (done.push (Bytes.trim current.toList)) (done'.push (Bytes.trim current'.toList))
      #[] #[] where
  done := by
    have hdone : done.toList.map Bytes.blankless = done'.toList.map Bytes.blankless := h.done
    simp only [SameTexts, Array.toList_push, List.map_append, List.map_cons, List.map_nil, hdone,
      h.left.blankless_trim, h.right.blankless_trim, h.current]
  left := .blank nofun
  right := .blank nofun
  current := rfl

end Gathered

/-- Layout adds blanks to the current enumerator, or nothing. -/
theorem readEnumerators_layout {t : Token} (ht : t.Ordinary) (hlayout : t.kind.isLayout = true)
    (done : Array Bytes) (current : Array UInt8) (multiline : Bool) (rest : List Token) :
    ∃ blanks : Bytes, (∀ b ∈ blanks, b ∈ lineBlanks) ∧
      readEnumerators o c done current multiline (t :: rest) =
        readEnumerators o c done (current ++ blanks) multiline rest := by
  rcases TokenKind.isLayout_iff.mp hlayout with hk | hk
  · exact ⟨t.text, ht.blank hk, by simp only [readEnumerators, hk]⟩
  · exact ⟨[], by simp, by simp only [readEnumerators, hk, Array.appendList_nil]⟩

theorem readEnumerators_agree {done done' : Array Bytes} {current current' : Array UInt8}
    (multiline : Bool) (h : Alike tokens others) (hsame : Gathered done done' current current') :
    Agree SameTexts (readEnumerators o c done current multiline tokens)
      (readEnumerators o c done' current' multiline others) := by
  induction h generalizing done done' current current' multiline with
  | nil => exact c.agree_cut
  | left ht hlayout _ ih =>
      obtain ⟨blanks, hblanks, hread⟩ := readEnumerators_layout ht hlayout done current multiline _
      rw [hread]
      exact ih multiline (hsame.blank hblanks)
  | right ht hlayout _ ih =>
      obtain ⟨blanks, hblanks, hread⟩ := readEnumerators_layout ht hlayout done' current' multiline _
      rw [hread]
      exact ih multiline (hsame.symm.blank hblanks).symm
  | @both t tokens others ht hsolid h ih =>
      simp only [readEnumerators, hsame.isEmpty_eq]
      split
      · exact ih multiline hsame
      · exact ih true hsame
      · split
        · exact .broken h
        · exact ih multiline hsame.push
      · split
        · exact .broken h
        · split
          · exact .done hsame.done h
          · exact .done hsame.push.done h
      · exact .broken h
      · exact .broken h
      · exact .broken h
      · rename_i hcomment hnewline hcomma hright hleft hsemicolon hinvalid
        refine ih multiline (hsame.text (ht.bounded ?_ ?_))
        · simp only [isTextKind, List.mem_cons, List.not_mem_nil, or_false, not_or, decide_eq_true_eq]
          exact ⟨hcomment, hnewline, hcomma, hleft, hright, hsemicolon, hinvalid⟩
        · intro hk
          simp [hk, TokenKind.isLayout] at hsolid

/-! ## Constructs -/

/-- The declaration without the blanks in the texts of enumerators. -/
def Declaration.blankless : Declaration → Declaration
  | .enum e => .enum ⟨e.name, e.attributes.map Bytes.blankless⟩
  | d => d

/-- Declarations that are the same but for blanks in the texts of enumerators. -/
def SameSense (d other : Declaration) : Prop := d.blankless = other.blankless

theorem sameSense_enum {name : Bytes} {texts texts' : List Bytes} (h : SameTexts texts texts') :
    SameSense (.enum ⟨name, texts⟩) (.enum ⟨name, texts'⟩) :=
  congrArg (fun attributes => Declaration.enum ⟨name, attributes⟩) h

theorem readBody_agree {α : Type} {same : α → α → Prop} {inside : List Token → Outcome α}
    (hinside : ∀ rest behind, Alike rest behind → Agree same (inside rest) (inside behind))
    (h : Alike tokens others) :
    Agree same (readBody c inside tokens) (readBody c inside others) := by
  have hfront := h.skipLines
  rw [readBody, readBody]
  generalize skipLines tokens = front, skipLines others = front' at hfront ⊢
  cases hfront with
  | nil => exact c.agree_cut
  | cons hall hrest =>
      simp only
      split
      · exact hinside _ _ hrest
      · exact .broken hall

theorem readEnumBody_agree (h : Alike tokens others) :
    Agree SameTexts (readEnumBody o c tokens) (readEnumBody o c others) :=
  readBody_agree (fun _ _ hrest => readEnumerators_agree false hrest .start) h

theorem readStructBody_agree (h : Alike tokens others) :
    Agree Eq (readStructBody o c tokens) (readStructBody o c others) :=
  readBody_agree (fun _ _ hrest => readMembers_agree .brace #[] #[] hrest) h

theorem readEnd_agree (h : Alike tokens others) : Agree Eq (readEnd c tokens) (readEnd c others) := by
  have hfront := h.skipLines
  rw [readEnd, readEnd]
  generalize skipLines tokens = front, skipLines others = front' at hfront ⊢
  cases hfront with
  | nil => exact c.agree_cut
  | cons hall hrest =>
      simp only
      split
      · exact .done rfl hrest
      · exact .broken hall

/-- Enums of one name whose texts are the same without blanks. -/
def SameEnum (e other : Enum) : Prop := e.name = other.name ∧ SameTexts e.attributes other.attributes

variable (start : Position)

theorem readEnum_agree (h : Alike tokens others) :
    Agree SameEnum (readEnum o start tokens) (readEnum o start others) := by
  have hfront := h.skipLayout
  rw [readEnum, readEnum]
  generalize skipLayout tokens = front, skipLayout others = front' at hfront ⊢
  cases hfront with
  | nil => exact .broken .nil
  | cons hall hrest =>
      simp only
      split
      · exact (readEnumBody_agree hrest).map fun _ _ htexts => ⟨rfl, htexts⟩
      · exact .broken hall

theorem readEnumDeclaration_agree (h : Alike tokens others) :
    Agree SameSense (readEnumDeclaration o start tokens) (readEnumDeclaration o start others) := by
  refine (readEnum_agree start h).andThen fun e other rest behind hsame hrest => ?_
  obtain ⟨name, attributes⟩ := e
  obtain ⟨rfl, htexts⟩ := hsame
  exact (readEnd_agree hrest).map fun _ _ _ => sameSense_enum htexts

theorem readStructDeclaration_agree (h : Alike tokens others) :
    Agree SameSense (readStructDeclaration o start tokens)
      (readStructDeclaration o start others) := by
  have hfront := h.skipLayout
  rw [readStructDeclaration, readStructDeclaration]
  generalize skipLayout tokens = front, skipLayout others = front' at hfront ⊢
  cases hfront with
  | nil => exact .broken .nil
  | cons hall hrest =>
      simp only
      split
      · refine (readStructBody_agree hrest).andThen fun members other _ _ hmembers hbehind => ?_
        cases hmembers
        exact (readEnd_agree hbehind).map fun _ _ _ => rfl
      · exact .broken hall

theorem takeTag_alike (h : Alike tokens others) :
    (takeTag tokens).1 = (takeTag others).1 ∧ Alike (takeTag tokens).2 (takeTag others).2 := by
  have hfront := h.skipLayout
  rw [takeTag, takeTag]
  generalize skipLayout tokens = front, skipLayout others = front' at hfront ⊢
  cases hfront with
  | nil => exact ⟨rfl, .nil⟩
  | cons hall hrest =>
      simp only
      split
      · exact ⟨rfl, hrest⟩
      · exact ⟨rfl, hall⟩

theorem readTypedefName_agree {tag : Option Bytes} {noName : SyntaxError}
    (h : Alike tokens others) :
    Agree Eq (readTypedefName c tag noName tokens) (readTypedefName c tag noName others) := by
  have hfront := h.skipLines
  rw [readTypedefName, readTypedefName]
  generalize skipLines tokens = front, skipLines others = front' at hfront ⊢
  cases hfront with
  | nil => exact c.agree_cut
  | cons hall hrest =>
      simp only
      split
      · exact (readEnd_agree hrest).map fun _ _ _ => rfl
      · cases tag with
        | some tag => exact (readEnd_agree hall).map fun _ _ _ => rfl
        | none => exact .broken hall

theorem readTypedefStruct_agree (h : Alike tokens others) :
    Agree SameSense (readTypedefStruct o start tokens) (readTypedefStruct o start others) := by
  obtain ⟨htag, hbody⟩ := takeTag_alike h
  rw [readTypedefStruct, readTypedefStruct, htag]
  refine (readStructBody_agree hbody).andThen fun members other _ _ hmembers hbehind => ?_
  cases hmembers
  exact (readTypedefName_agree hbehind).map fun _ _ hname => hname ▸ rfl

theorem readTypedefEnum_agree (h : Alike tokens others) :
    Agree SameSense (readTypedefEnum o start tokens) (readTypedefEnum o start others) := by
  obtain ⟨htag, hbody⟩ := takeTag_alike h
  rw [readTypedefEnum, readTypedefEnum, htag]
  refine (readEnumBody_agree hbody).andThen fun texts other _ _ htexts hbehind => ?_
  exact (readTypedefName_agree hbehind).map fun _ _ hname => hname ▸ sameSense_enum htexts

theorem readTypedef_agree (h : Alike tokens others) :
    Agree SameSense (readTypedef o start tokens) (readTypedef o start others) := by
  have hfront := h.skipLayout
  rw [readTypedef, readTypedef]
  generalize skipLayout tokens = front, skipLayout others = front' at hfront ⊢
  cases hfront with
  | nil => exact .broken .nil
  | cons hall hrest =>
      simp only
      split
      · exact readTypedefStruct_agree start hrest
      · split
        · exact readTypedefEnum_agree start hrest
        · exact .broken hall

theorem takeReturnType_alike (type : Scalar) (h : Alike tokens others) :
    (takeReturnType type tokens).1 = (takeReturnType type others).1 ∧
      Alike (takeReturnType type tokens).2 (takeReturnType type others).2 := by
  have hfront := h.skipLayout
  rw [takeReturnType, takeReturnType]
  generalize skipLayout tokens = front, skipLayout others = front' at hfront ⊢
  cases hfront with
  | nil => exact ⟨rfl, .nil⟩
  | cons hall hrest =>
      simp only
      split
      · exact ⟨rfl, hrest⟩
      · exact ⟨rfl, hall⟩

theorem readSignature_agree (h : Alike tokens others) :
    Agree Eq (readSignature o c tokens) (readSignature o c others) := by
  have hfront := h.skipLayout
  rw [readSignature, readSignature]
  generalize skipLayout tokens = front, skipLayout others = front' at hfront ⊢
  cases hfront with
  | nil => exact c.agree_cut
  | cons hall hrest =>
      simp only
      split
      · exact readParameterList_agree hrest
      · exact .broken hall

theorem readPrototype_agree (keyword : Scalar) (h : Alike tokens others) :
    Agree Eq (readPrototype o start keyword tokens) (readPrototype o start keyword others) := by
  obtain ⟨htype, hname⟩ := takeReturnType_alike keyword h
  have hfront := hname.skipLayout
  rw [readPrototype, readPrototype, htype]
  generalize skipLayout (takeReturnType keyword tokens).2 = front,
    skipLayout (takeReturnType keyword others).2 = front' at hfront ⊢
  cases hfront with
  | nil => exact .broken .nil
  | cons hall hrest =>
      simp only
      split
      · exact (readSignature_agree hrest).map fun _ _ hparameters => hparameters ▸ rfl
      · split
        · exact .broken hall
        · exact .broken hall

theorem readPrototypeEnd_agree (p : Prototype) (h : Alike tokens others) :
    Agree Eq (readPrototypeEnd start p tokens) (readPrototypeEnd start p others) := by
  have hfront := h.skipLines
  rw [readPrototypeEnd, readPrototypeEnd]
  generalize skipLines tokens = front, skipLines others = front' at hfront ⊢
  cases hfront with
  | nil => exact .broken .nil
  | cons hall hrest =>
      simp only
      split
      · exact .done rfl hrest
      · split
        · exact .broken hall
        · exact .broken hall

theorem readPrototypeDeclaration_agree (keyword : Scalar) (h : Alike tokens others) :
    Agree SameSense (readPrototypeDeclaration o start keyword tokens)
      (readPrototypeDeclaration o start keyword others) := by
  refine (readPrototype_agree start keyword h).andThen fun p other _ _ hsame hbehind => ?_
  cases hsame
  exact (readPrototypeEnd_agree start p hbehind).map fun _ _ _ => rfl

theorem readLinkage_agree {α : Type} {same : α → α → Prop} (first : Token)
    (h : Alike tokens others) :
    Agree same (readLinkage first tokens) (readLinkage first others) := by
  have hfront := h.skipLayout
  rw [readLinkage, readLinkage]
  generalize skipLayout tokens = front, skipLayout others = front' at hfront ⊢
  cases hfront with
  | nil => exact .broken .nil
  | @cons language rest behind hall hrest =>
      simp only
      split
      · have hbrace := hrest.skipLines
        generalize skipLines rest = next, skipLines behind = next' at hbrace ⊢
        cases hbrace with
        | nil => exact .broken .nil
        | cons hlist hinside =>
            simp only
            split
            · exact .broken hinside
            · exact .broken hlist
      · exact .broken hall

/-- What constructs declare, if anything, is the same but for blanks. -/
def SameFound (d other : Option Declaration) : Prop :=
  d.map Declaration.blankless = other.map Declaration.blankless

/-- A construct means the same with or without layout. -/
theorem readConstruct_agree {first : Token} (hfirst : first.kind.isDirective = false)
    (h : Alike tokens others) :
    Agree SameFound (readConstruct o first tokens) (readConstruct o first others) := by
  have hsome : ∀ d other, SameSense d other → SameFound (some d) (some other) :=
    fun _ _ hsame => congrArg some hsame
  simp only [readConstruct, hfirst, Bool.false_eq_true, if_false]
  split
  · exact (readEnumDeclaration_agree first.position h).map hsome
  · exact (readStructDeclaration_agree first.position h).map hsome
  · exact (readTypedef_agree first.position h).map hsome
  · exact .broken h
  · exact .broken h
  · split
    · exact (readPrototypeDeclaration_agree first.position _ h).map hsome
    · split
      · exact readLinkage_agree first h
      · exact .broken h

end

/-! ## Behind a broken construct -/

theorem braceDepth_layout {t : Token} (ht : t.kind.isLayout = true) (depth : Nat) :
    braceDepth depth t = depth := by
  rcases TokenKind.isLayout_iff.mp ht with hk | hk <;> simp only [braceDepth, hk]

theorem foldl_braceDepth_significant (tokens : List Token) (depth : Nat) :
    (significant tokens).foldl braceDepth depth = tokens.foldl braceDepth depth := by
  induction tokens generalizing depth with
  | nil => rfl
  | cons t tokens ih =>
      by_cases ht : t.kind.isLayout = true
      · rw [significant_cons_of_layout ht, List.foldl_cons, braceDepth_layout ht, ih]
      · rw [significant_cons (by simpa using ht), List.foldl_cons, List.foldl_cons, ih]

theorem skipBroken_layout {t : Token} (ht : t.kind.isLayout = true) (linkage depth : Nat)
    (rest : List Token) :
    skipBroken linkage depth (t :: rest) = skipBroken linkage depth rest := by
  have hright : t.kind ≠ .rightBrace := by
    intro hk
    simp [hk, TokenKind.isLayout] at ht
  have hsemicolon : t.kind ≠ .semicolon := by
    intro hk
    simp [hk, TokenKind.isLayout] at ht
  rw [skipBroken, braceDepth_layout ht]
  simp only [hright, hsemicolon, false_and, if_false]
  split
  · rfl
  · rename_i hdepth
    rw [Nat.eq_zero_of_not_pos hdepth]

theorem continuesBehindBrace_eq {tokens others : List Token} (h : Alike tokens others) :
    continuesBehindBrace tokens = continuesBehindBrace others := by
  have hfront := h.skipLines
  rw [continuesBehindBrace, continuesBehindBrace]
  generalize skipLines tokens = front, skipLines others = front' at hfront ⊢
  cases hfront with
  | nil => rfl
  | cons _ _ => rfl

theorem skipBroken_alike {tokens others : List Token} (linkage depth : Nat)
    (h : Alike tokens others) :
    Alike (skipBroken linkage depth tokens) (skipBroken linkage depth others) := by
  induction h generalizing depth with
  | nil => exact .nil
  | left _ hlayout _ ih =>
      rw [skipBroken_layout hlayout]
      exact ih depth
  | right _ hlayout _ ih =>
      rw [skipBroken_layout hlayout]
      exact ih depth
  | @both t tokens others ht hsolid h ih =>
      simp only [skipBroken, continuesBehindBrace_eq h]
      split
      · exact .both ht hsolid h
      · split
        · exact ih _
        · split
          · exact h
          · split
            · exact h.skipLines.alike
            · exact ih 0

/-- The tokens that were taken leave braces open as the significant ones among them do. -/
theorem foldl_braceDepth_taken {tokens others rest behind : List Token}
    (htokens : significant tokens = significant others)
    (hrest : significant rest = significant behind) (htaken : rest <:+ tokens)
    (htaken' : behind <:+ others) (depth : Nat) :
    (tokens.take (tokens.length - rest.length)).foldl braceDepth depth =
      (others.take (others.length - behind.length)).foldl braceDepth depth := by
  obtain ⟨taken, rfl⟩ := htaken
  obtain ⟨taken', rfl⟩ := htaken'
  rw [significant_append, significant_append, hrest] at htokens
  have hsame : significant taken = significant taken' := List.append_cancel_right htokens
  simp only [List.length_append, Nat.add_sub_cancel, List.take_left]
  rw [← foldl_braceDepth_significant taken, hsame, foldl_braceDepth_significant]

theorem resume_alike {tokens others rest behind : List Token} (linkage : Nat) (first : Token)
    (fault : Fault) (h : Alike tokens others) (hrest : Alike rest behind) (htaken : rest <:+ tokens)
    (htaken' : behind <:+ others) :
    Alike (resume linkage first tokens rest fault) (resume linkage first others behind fault) := by
  simp only [resume, List.foldl_cons]
  split
  · rw [foldl_braceDepth_taken h.significant_eq hrest.significant_eq htaken htaken']
    exact skipBroken_alike _ _ hrest
  · exact hrest

/-! ## Sessions -/

namespace Session

/-- Sessions that have found the same, with the same still to read but for layout. -/
structure Agree (s other : Session) : Prop where
  rest : Alike s.rest other.rest
  linkage : s.linkage = other.linkage
  declarations :
    s.declarations.toList.map Declaration.blankless =
      other.declarations.toList.map Declaration.blankless
  diagnostics : s.diagnostics = other.diagnostics

/-- Steps to sessions that agree. -/
inductive Step.Agree : Step → Step → Prop where
  | go {next next' : Session} (h : next.Agree next') : Agree (.go next) (.go next')
  | stop {final final' : Session} {fault : Option Fault} (h : final.Agree final') :
      Agree (.stop final fault) (.stop final' fault)

variable {o : ReadOptions}

theorem step_agree {s other : Session} (h : s.Agree other) :
    Step.Agree (s.step o) (other.step o) := by
  obtain ⟨tokens, linkage, declarations, diagnostics⟩ := s
  obtain ⟨tokens', linkage', declarations', diagnostics'⟩ := other
  obtain ⟨hrest, hlinkage, hdeclarations, hdiagnostics⟩ := h
  cases hlinkage
  cases hdiagnostics
  have hfront := hrest.skipLayout
  simp only [step]
  generalize skipLayout tokens = front, skipLayout tokens' = front' at hfront ⊢
  cases hfront with
  | nil => exact .stop ⟨.nil, rfl, hdeclarations, rfl⟩
  | @cons t rest behind hall hrest =>
      have hfirst := (hall.ordinary t List.mem_cons_self).noDirective
      have hread := readConstruct_agree (o := o) hfirst hrest
      have htaken := readConstruct_rest_suffix o t rest
      have htaken' := readConstruct_rest_suffix o t behind
      simp only
      split
      · exact .go ⟨hrest, rfl, hdeclarations, rfl⟩
      · split
        · exact .go ⟨hrest, rfl, hdeclarations, rfl⟩
        · generalize readConstruct o t rest = x, readConstruct o t behind = y
            at hread htaken htaken' ⊢
          cases hread with
          | @done d other _ _ hfound hbehind =>
              refine .go ⟨hbehind, rfl, ?_, rfl⟩
              have hlist : d.toList.map Declaration.blankless =
                  other.toList.map Declaration.blankless := by
                rw [← Option.toList_map, ← Option.toList_map, hfound]
              simp only [Array.toList_appendList, List.map_append, hdeclarations, hlist]
          | broken hbehind =>
              simp only
              split
              · exact .stop ⟨hbehind, rfl, hdeclarations, rfl⟩
              · exact .go ⟨resume_alike _ t _ hrest hbehind htaken htaken', rfl, hdeclarations, rfl⟩

/-- Runs from sessions that agree come to sessions that agree, with the same fault. -/
theorem run_agree {s other : Session} (h : s.Agree other) :
    (s.run o).1.Agree (other.run o).1 ∧ (s.run o).2 = (other.run o).2 := by
  induction s using run_induction (o := o) generalizing other with
  | stop s final fault hstep =>
      have hsteps := step_agree (o := o) h
      rw [step_eq_of_advance hstep] at hsteps
      generalize hother : other.step o = next at hsteps
      cases hsteps with
      | stop hfinal =>
          rw [run_of_stop hstep, run_of_stop (step_eq_iff.mp hother)]
          exact ⟨hfinal, rfl⟩
  | go s next hstep ih =>
      have hsteps := step_agree (o := o) h
      rw [step_eq_of_advance hstep] at hsteps
      generalize hother : other.step o = next' at hsteps
      cases hsteps with
      | go hnext =>
          rw [run_of_go hstep, run_of_go (step_eq_iff.mp hother)]
          exact ih hnext

end Session

/-- Tokens that are the same but for layout are read alike. -/
theorem readTokens_alike (o : ReadOptions) {tokens others : List Token} (h : Alike tokens others) :
    (readTokens o tokens).declarations.map Declaration.blankless =
        (readTokens o others).declarations.map Declaration.blankless ∧
      (readTokens o tokens).diagnostics = (readTokens o others).diagnostics ∧
      (readTokens o tokens).fault = (readTokens o others).fault := by
  have hstart : (Session.ofTokens tokens).Agree (Session.ofTokens others) := ⟨h, rfl, rfl, rfl⟩
  obtain ⟨hsame, hfault⟩ := Session.run_agree (o := o) hstart
  simp only [readTokens_eq, Reading.ofRun]
  exact ⟨hsame.declarations, congrArg Array.toList hsame.diagnostics, hfault⟩

/-! ## Sources -/

/-- What a fault is about, wherever it stands. -/
def Fault.about (e : Fault) : SyntaxError × Bytes := (e.cause, e.detail)

theorem significant_map_move (f : Position → Position) (tokens : List Token) :
    significant (tokens.map (Token.move f)) = (significant tokens).map (Token.move f) := by
  simp [significant, List.filter_map, Function.comp_def]

/-- Directives are no layout, so the significant tokens say whether there are any. -/
theorem noDirective_of_spelling {tokens others : List Token}
    (hdirective : ∀ t ∈ tokens, t.kind.isDirective = false)
    (h : (significant tokens).map Token.spelling = (significant others).map Token.spelling) :
    ∀ t ∈ others, t.kind.isDirective = false := by
  intro t ht
  by_cases hlayout : t.kind.isLayout = true
  · rcases TokenKind.isLayout_iff.mp hlayout with hk | hk <;> rw [hk] <;> rfl
  · have hsignificant : t ∈ significant others := by simp [significant, ht, hlayout]
    have hspelling : t.spelling ∈ (significant tokens).map Token.spelling := by
      rw [h]
      exact List.mem_map_of_mem hsignificant
    obtain ⟨u, hu, hsame⟩ := List.mem_map.mp hspelling
    have hkind : u.kind = t.kind := congrArg Prod.fst hsame
    rw [← hkind]
    exact hdirective u (List.mem_of_mem_filter hu)

theorem ordinary_of_mem_map_move {source : Bytes} {f : Position → Position}
    (hdirective : ∀ t ∈ tokenize source, t.kind.isDirective = false) :
    ∀ t ∈ (tokenize source).map (Token.move f), t.Ordinary := by
  intro t ht
  obtain ⟨u, hu, rfl⟩ := List.mem_map.mp ht
  exact (ordinary_of_mem_tokenize hu (hdirective u hu)).move f

/-- Put in one place, tokens of two sources that are spelled the same but for layout are alike. -/
theorem alike_of_spelling {a b : Bytes} (p : Position)
    (hdirective : ∀ t ∈ tokenize a, t.kind.isDirective = false)
    (h : (significant (tokenize a)).map Token.spelling =
      (significant (tokenize b)).map Token.spelling) :
    Alike ((tokenize a).map (Token.move fun _ => p)) ((tokenize b).map (Token.move fun _ => p)) := by
  apply Alike.of_significant
  · exact ordinary_of_mem_map_move hdirective
  · exact ordinary_of_mem_map_move (noDirective_of_spelling hdirective h)
  · rw [significant_map_move, significant_map_move, map_move_const_of_spelling p h]

/-- Layout has no meaning. Of two sources without directives whose tokens are the same apart from
blanks and comments, every set of options gives the same declarations up to blanks in the texts of
enumerators, the same fault and the same diagnostics, wherever these stand. -/
theorem readHeader_layout_irrelevant (o : ReadOptions) {a b : Bytes}
    (hdirective : ∀ t ∈ tokenize a, t.kind.isDirective = false)
    (h : (significant (tokenize a)).map Token.spelling =
      (significant (tokenize b)).map Token.spelling) :
    (readHeader o a).declarations.map Declaration.blankless =
        (readHeader o b).declarations.map Declaration.blankless ∧
      (readHeader o a).fault.map Fault.about = (readHeader o b).fault.map Fault.about ∧
      (readHeader o a).diagnostics.map Fault.about =
        (readHeader o b).diagnostics.map Fault.about := by
  have habout : (Fault.about ∘ Fault.move fun _ => Position.start) = Fault.about := rfl
  simp only [readHeader]
  have hread := readTokens_alike o (alike_of_spelling Position.start hdirective h)
  rw [readTokens_move, readTokens_move] at hread
  obtain ⟨hdeclarations, hdiagnostics, hfault⟩ := hread
  refine ⟨hdeclarations, ?_, ?_⟩
  · simpa [habout] using congrArg (Option.map Fault.about) hfault
  · simpa [habout] using congrArg (List.map Fault.about) hdiagnostics

/-- Comments hold a brace and a `;`, a struct is broken and passed over, and the text of an
enumerator is written with and without blanks. -/
theorem readHeader_layout_irrelevant_recovered :
    let a := ascii "struct S \x7b int *p; /* \x7d */ \x7d;\nenum E \x7b A /*;*/ = 1 \x7d;"
    let b := ascii "struct S\x7bint*p;\x7d;\nenum/**/E\x7bA=1\x7d;"
    let o : ReadOptions := ⟨true, false, false⟩
    (∀ t ∈ tokenize a, t.kind.isDirective = false) ∧
      (significant (tokenize a)).map Token.spelling =
        (significant (tokenize b)).map Token.spelling ∧
      (readHeader o b).declarations = [.enum ⟨ascii "E", [ascii "A=1"]⟩] ∧
      (readHeader o a).declarations.map Declaration.blankless =
        (readHeader o b).declarations.map Declaration.blankless ∧
      (readHeader o a).fault.map Fault.about = (readHeader o b).fault.map Fault.about ∧
      (readHeader o a).diagnostics.map Fault.about =
        (readHeader o b).diagnostics.map Fault.about := by
  intro a b o
  have hdirective : ∀ t ∈ tokenize a, t.kind.isDirective = false := by decide +kernel
  have hspelling : (significant (tokenize a)).map Token.spelling =
      (significant (tokenize b)).map Token.spelling := by
    decide +kernel
  exact ⟨hdirective, hspelling, by decide +kernel,
    readHeader_layout_irrelevant o hdirective hspelling⟩

end HeaderBinding
