import HeaderBinding.Proofs.Reading.Passage
import HeaderBinding.Reading.Session

/-!
# Reading inside a closed sequence of tokens

A sequence of tokens is closed if its braces match and the first `;` outside braces is its last
token. A construct that is read from a closed sequence is read in the same way whatever follows the
sequence: it ends with the last token, or breaks before it.
-/

namespace HeaderBinding

/-! ## Closed sequences -/

/-- At the given depth of braces, the tokens go on to a `;` outside braces, which is the last one.
No brace closes more than was opened, and one that closes the outermost level does not end the
construct. -/
def Closes : Nat → List Token → Prop
  | _, [] => False
  | depth, t :: rest =>
    if t.kind = .semicolon ∧ depth = 0 then rest = []
    else
      (t.kind = .rightBrace → 0 < depth ∧ (depth = 1 → continuesBehindBrace rest = true)) ∧
        Closes (braceDepth depth t) rest

namespace Closes

variable {depth : Nat} {t : Token} {tokens rest : List Token}

theorem ne_nil (h : Closes depth tokens) : tokens ≠ [] := by
  intro hnil
  rw [hnil] at h
  exact h

theorem rest_eq_nil (h : Closes 0 (t :: rest)) (ht : t.kind = .semicolon) : rest = [] := by
  rw [Closes, if_pos ⟨ht, rfl⟩] at h
  exact h

theorem tail (h : Closes depth (t :: rest)) (ht : ¬ (t.kind = .semicolon ∧ depth = 0)) :
    Closes (braceDepth depth t) rest := by
  rw [Closes, if_neg ht] at h
  exact h.2

theorem of_rightBrace (h : Closes depth (t :: rest)) (ht : t.kind = .rightBrace) :
    0 < depth ∧ (depth = 1 → continuesBehindBrace rest = true) := by
  rw [Closes, if_neg (by simp [ht])] at h
  exact h.1 ht

/-- Behind a token that is neither a brace nor a `;` the depth is the same. -/
theorem tail_of_ne (h : Closes depth (t :: rest)) (hsemicolon : t.kind ≠ .semicolon)
    (hleft : t.kind ≠ .leftBrace) (hright : t.kind ≠ .rightBrace) : Closes depth rest := by
  have hdepth : braceDepth depth t = depth := by
    rw [braceDepth]
    split <;> first | contradiction | rfl
  have htail := h.tail fun hends => hsemicolon hends.1
  rwa [hdepth] at htail

theorem tail_of_kind {k : TokenKind} (h : Closes depth (t :: rest)) (hk : t.kind = k)
    (hplain : k ≠ .semicolon ∧ k ≠ .leftBrace ∧ k ≠ .rightBrace) : Closes depth rest := by
  subst hk
  exact h.tail_of_ne hplain.1 hplain.2.1 hplain.2.2

theorem tail_of_leftBrace (h : Closes depth (t :: rest)) (ht : t.kind = .leftBrace) :
    Closes (depth + 1) rest := by
  have htail := h.tail (by simp [ht])
  rwa [braceDepth, ht] at htail

theorem tail_of_rightBrace (h : Closes (depth + 1) (t :: rest)) (ht : t.kind = .rightBrace) :
    Closes depth rest := by
  have htail := h.tail (by simp [ht])
  rwa [braceDepth, ht] at htail

theorem tail_of_inside (h : Closes (depth + 1) (t :: rest)) (ht : t.kind = .semicolon) :
    Closes (depth + 1) rest := by
  have htail := h.tail (by simp)
  rwa [braceDepth, ht] at htail

theorem dropWhile {p : Token → Bool} (hp : ∀ t, p t = true → t.kind.isLayoutOrNewline = true)
    (h : Closes depth tokens) : Closes depth (tokens.dropWhile p) := by
  induction tokens with
  | nil => exact h
  | cons t rest ih =>
      rw [List.dropWhile_cons]
      by_cases ht : p t = true
      · rw [if_pos ht]
        have hblank := hp t ht
        apply ih
        apply h.tail_of_kind rfl
        revert hblank
        cases t.kind <;> decide
      · rw [if_neg ht]
        exact h

/-- The first token behind layout belongs to the closed sequence. -/
theorem exists_dropWhile {p : Token → Bool}
    (hp : ∀ t, p t = true → t.kind.isLayoutOrNewline = true) (h : Closes depth tokens)
    (more : List Token) :
    ∃ t rest, tokens.dropWhile p = t :: rest ∧ (tokens ++ more).dropWhile p = t :: (rest ++ more) ∧
      Closes depth (t :: rest) := by
  have hdrop := h.dropWhile hp
  obtain ⟨t, rest, hcons⟩ := List.exists_cons_of_ne_nil hdrop.ne_nil
  refine ⟨t, rest, hcons, ?_, hcons ▸ hdrop⟩
  rw [List.dropWhile_append, hcons]
  rfl

theorem skipLayout (h : Closes depth tokens) (more : List Token) :
    ∃ t rest, skipLayout tokens = t :: rest ∧ skipLayout (tokens ++ more) = t :: (rest ++ more) ∧
      Closes depth (t :: rest) := by
  refine h.exists_dropWhile ?_ more
  intro t ht
  simp [TokenKind.isLayoutOrNewline, ht]

theorem skipLines (h : Closes depth tokens) (more : List Token) :
    ∃ t rest, skipLines tokens = t :: rest ∧ skipLines (tokens ++ more) = t :: (rest ++ more) ∧
      Closes depth (t :: rest) :=
  h.exists_dropWhile (fun _ ht => ht) more

theorem append {front : List Token} (h : Closes depth (front ++ rest)) (hrest : rest ≠ []) :
    Closes (front.foldl braceDepth depth) rest := by
  induction front generalizing depth with
  | nil => exact h
  | cons t front ih =>
      apply ih
      apply h.tail
      intro hends
      rw [List.cons_append, Closes, if_pos hends] at h
      exact hrest (List.append_eq_nil_iff.mp h).2

end Closes

/-! ## Outcomes that do not depend on what follows -/

/-- The causes behind which a collecting session goes on to the end of the broken construct. -/
def SyntaxError.isPassable (cause : SyntaxError) : Bool :=
  cause.category != .unterminated && cause != .linkageBlock

/-- Two outcomes of reading, without and with more tokens behind. Either the same was read up to a
rest with a property, or the same is broken before the end. -/
inductive Stays {α : Type} (more : List Token) (p : List Token → Prop) :
    Outcome α → Outcome α → Prop where
  | done {value : α} {rest : List Token} :
      p rest → Stays more p (.done value rest) (.done value (rest ++ more))
  | broken {fault : Fault} {rest : List Token} :
      fault.cause.isPassable = true → rest ≠ [] →
      Stays more p (.broken fault rest) (.broken fault (rest ++ more))

namespace Stays

variable {α β : Type} {more : List Token} {p q : List Token → Prop} {x y : Outcome α}

theorem andThen (h : Stays more p x y) {next : α → List Token → Outcome β}
    (hnext : ∀ value rest, p rest → Stays more q (next value rest) (next value (rest ++ more))) :
    Stays more q (x.andThen next) (y.andThen next) := by
  cases h with
  | done hrest => exact hnext _ _ hrest
  | broken hcause hrest => exact .broken hcause hrest

theorem map (h : Stays more p x y) (g : α → β) : Stays more p (x.map g) (y.map g) :=
  h.andThen fun _ _ hrest => .done hrest

end Stays

/-! ## Members, parameters and enumerators -/

theorem ofTokens_error_isPassable {o : ReadOptions} {malformed : SyntaxError} {first : Token}
    {others : List Token} {fault : Fault} (hmalformed : malformed.isPassable = true)
    (h : Argument.ofTokens o malformed first others = .error fault) :
    fault.cause.isPassable = true := by
  unfold Argument.ofTokens at h
  dsimp only at h
  split at h
  · cases h
    rfl
  · split at h
    · split at h
      · cases h
        rfl
      · split at h
        · cases h
        · cases h
          exact hmalformed
    · split at h
      · split at h
        · cases h
        · cases h
          exact hmalformed
      · split at h
        · cases h
          rfl
        · cases h
          exact hmalformed

section

variable {o : ReadOptions} {c : Construct} {tokens : List Token} (more : List Token)

theorem readMembers_stays {done : Array Argument} {current : Array Token} (h : Closes 1 tokens) :
    Stays more (Closes 0) (readMembers o c .brace done current tokens)
      (readMembers o c .brace done current (tokens ++ more)) := by
  induction tokens generalizing done current with
  | nil => exact h.elim
  | cons t rest ih =>
      rw [List.cons_append]
      simp only [readMembers]
      split
      · rename_i hk
        exact ih (h.tail_of_kind hk (by decide))
      · rename_i hk
        exact ih (h.tail_of_kind hk (by decide))
      · rename_i hk
        exact ih (h.tail_of_kind hk (by decide))
      · rename_i hk
        have hrest := h.tail_of_inside hk
        cases current.toList with
        | nil => exact ih hrest
        | cons first others =>
            simp only
            cases hmember : Argument.ofTokens o .malformedMember first others with
            | ok a => exact ih hrest
            | error fault => exact .broken (ofTokens_error_isPassable rfl hmember) hrest.ne_nil
      · rename_i hk
        by_cases hdone : current.isEmpty = true ∧ True
        · rw [if_pos hdone, if_pos hdone]
          exact .done (h.tail_of_rightBrace hk)
        · rw [if_neg hdone, if_neg hdone]
          exact .broken rfl (List.cons_ne_nil t rest)
      · exact .broken rfl (List.cons_ne_nil t rest)
      · rename_i hsemicolon hright hleft
        exact ih (h.tail_of_ne hsemicolon hleft hright)

theorem readParameters_stays {done : Array Argument} {current : Array Token}
    (h : Closes 0 tokens) :
    Stays more (Closes 0) (readParameters o c done current tokens)
      (readParameters o c done current (tokens ++ more)) := by
  induction tokens generalizing done current with
  | nil => exact h.elim
  | cons t rest ih =>
      rw [List.cons_append]
      simp only [readParameters]
      split
      · rename_i hk
        exact ih (h.tail_of_kind hk (by decide))
      · rename_i hk
        exact ih (h.tail_of_kind hk (by decide))
      · rename_i hk
        exact ih (h.tail_of_kind hk (by decide))
      · rename_i hk
        have hrest := h.tail_of_kind hk (by decide)
        cases current.toList with
        | nil => exact .broken rfl hrest.ne_nil
        | cons first others =>
            simp only
            cases hparameter : Argument.ofTokens o .noParameterName first others with
            | ok a => exact ih hrest
            | error fault => exact .broken (ofTokens_error_isPassable rfl hparameter) hrest.ne_nil
      · rename_i hk
        have hrest := h.tail_of_kind hk (by decide)
        cases current.toList with
        | nil => exact .broken rfl hrest.ne_nil
        | cons first others =>
            simp only
            cases hparameter : Argument.ofTokens o .noParameterName first others with
            | ok a => exact .done hrest
            | error fault => exact .broken (ofTokens_error_isPassable rfl hparameter) hrest.ne_nil
      · exact .broken rfl (List.cons_ne_nil t rest)
      · exact .broken rfl (List.cons_ne_nil t rest)
      · exact .broken rfl (List.cons_ne_nil t rest)
      · exact .broken rfl (List.cons_ne_nil t rest)
      · rename_i hleft hright hsemicolon
        exact ih (h.tail_of_ne hsemicolon hleft hright)

theorem readParameterList_stays (h : Closes 0 tokens) :
    Stays more (Closes 0) (readParameterList o c tokens)
      (readParameterList o c (tokens ++ more)) := by
  obtain ⟨t, rest, hskip, hskip', hclosed⟩ := h.skipLines more
  simp only [readParameterList, hskip, hskip']
  by_cases hright : t.kind = .rightParen
  · rw [if_pos hright, if_pos hright]
    exact .done (hclosed.tail_of_kind hright (by decide))
  · rw [if_neg hright, if_neg hright]
    by_cases hvoid : t.kind = .voidKeyword
    · rw [if_pos hvoid, if_pos hvoid]
      have hrest := hclosed.tail_of_kind hvoid (by decide)
      obtain ⟨u, behind, hskip, hskip', hclosed⟩ := hrest.skipLines more
      simp only [hskip, hskip']
      by_cases hu : u.kind = .rightParen
      · rw [if_pos hu, if_pos hu]
        exact .done (hclosed.tail_of_kind hu (by decide))
      · rw [if_neg hu, if_neg hu]
        exact readParameters_stays more hclosed
    · rw [if_neg hvoid, if_neg hvoid]
      exact readParameters_stays more hclosed

theorem readEnumerators_stays {done : Array Bytes} {current : Array UInt8} {multiline : Bool}
    (h : Closes 1 tokens) :
    Stays more (Closes 0) (readEnumerators o c done current multiline tokens)
      (readEnumerators o c done current multiline (tokens ++ more)) := by
  induction tokens generalizing done current multiline with
  | nil => exact h.elim
  | cons t rest ih =>
      rw [List.cons_append]
      simp only [readEnumerators]
      split
      · rename_i hk
        exact ih (h.tail_of_kind hk (by decide))
      · rename_i hk
        exact ih (h.tail_of_kind hk (by decide))
      · rename_i hk
        have hrest := h.tail_of_kind hk (by decide)
        by_cases hempty : (Bytes.trim current.toList).isEmpty = true
        · rw [if_pos hempty, if_pos hempty]
          exact .broken rfl hrest.ne_nil
        · rw [if_neg hempty, if_neg hempty]
          exact ih hrest
      · rename_i hk
        have hrest := h.tail_of_rightBrace hk
        by_cases hlines : multiline = true ∧ ¬ o.multilineEnum = true
        · rw [if_pos hlines, if_pos hlines]
          exact .broken rfl hrest.ne_nil
        · rw [if_neg hlines, if_neg hlines]
          by_cases hempty : (Bytes.trim current.toList).isEmpty = true
          · rw [if_pos hempty, if_pos hempty]
            exact .done hrest
          · rw [if_neg hempty, if_neg hempty]
            exact .done hrest
      · rename_i hk
        exact .broken rfl (h.tail_of_leftBrace hk).ne_nil
      · rename_i hk
        exact .broken rfl (h.tail_of_inside hk).ne_nil
      · rename_i hk
        exact .broken rfl (h.tail_of_kind hk (by decide)).ne_nil
      · rename_i hright hleft hsemicolon _
        exact ih (h.tail_of_ne hsemicolon hleft hright)

/-! ## Constructs -/

theorem readBody_stays {α : Type} {inside : List Token → Outcome α}
    (hinside : ∀ {rest}, Closes 1 rest →
      Stays more (Closes 0) (inside rest) (inside (rest ++ more)))
    (h : Closes 0 tokens) :
    Stays more (Closes 0) (readBody c inside tokens) (readBody c inside (tokens ++ more)) := by
  obtain ⟨t, rest, hskip, hskip', hclosed⟩ := h.skipLines more
  simp only [readBody, hskip, hskip']
  by_cases ht : t.kind = .leftBrace
  · rw [if_pos ht, if_pos ht]
    exact hinside (hclosed.tail_of_leftBrace ht)
  · rw [if_neg ht, if_neg ht]
    exact .broken rfl (List.cons_ne_nil t rest)

theorem readEnumBody_stays (h : Closes 0 tokens) :
    Stays more (Closes 0) (readEnumBody o c tokens) (readEnumBody o c (tokens ++ more)) :=
  readBody_stays more (readEnumerators_stays more) h

theorem readStructBody_stays (h : Closes 0 tokens) :
    Stays more (Closes 0) (readStructBody o c tokens) (readStructBody o c (tokens ++ more)) :=
  readBody_stays more (readMembers_stays more) h

theorem readEnd_stays (h : Closes 0 tokens) :
    Stays more (· = []) (readEnd c tokens) (readEnd c (tokens ++ more)) := by
  obtain ⟨t, rest, hskip, hskip', hclosed⟩ := h.skipLines more
  simp only [readEnd, hskip, hskip']
  by_cases ht : t.kind = .semicolon
  · rw [if_pos ht, if_pos ht]
    exact .done (hclosed.rest_eq_nil ht)
  · rw [if_neg ht, if_neg ht]
    exact .broken rfl (List.cons_ne_nil t rest)

theorem readEnumDeclaration_stays {start : Position} (h : Closes 0 tokens) :
    Stays more (· = []) (readEnumDeclaration o start tokens)
      (readEnumDeclaration o start (tokens ++ more)) := by
  have henum : Stays more (Closes 0) (readEnum o start tokens)
      (readEnum o start (tokens ++ more)) := by
    obtain ⟨t, rest, hskip, hskip', hclosed⟩ := h.skipLayout more
    simp only [readEnum, hskip, hskip']
    by_cases ht : t.kind = .identifier
    · rw [if_pos ht, if_pos ht]
      exact (readEnumBody_stays more (hclosed.tail_of_kind ht (by decide))).map _
    · rw [if_neg ht, if_neg ht]
      exact .broken rfl (List.cons_ne_nil t rest)
  exact henum.andThen fun _ _ hrest => (readEnd_stays more hrest).map _

theorem readStructDeclaration_stays {start : Position} (h : Closes 0 tokens) :
    Stays more (· = []) (readStructDeclaration o start tokens)
      (readStructDeclaration o start (tokens ++ more)) := by
  obtain ⟨t, rest, hskip, hskip', hclosed⟩ := h.skipLayout more
  simp only [readStructDeclaration, hskip, hskip']
  by_cases ht : t.kind = .identifier
  · rw [if_pos ht, if_pos ht]
    have hbody := readStructBody_stays (o := o)
      (c := ⟨ascii "struct " ++ t.text, start, .unclosedStruct⟩) more
      (hclosed.tail_of_kind ht (by decide))
    exact hbody.andThen fun _ _ hrest => (readEnd_stays more hrest).map _
  · rw [if_neg ht, if_neg ht]
    exact .broken rfl (List.cons_ne_nil t rest)

/-- A tag and what follows it, with more tokens behind. -/
theorem takeTag_closes (h : Closes 0 tokens) :
    (takeTag (tokens ++ more)).1 = (takeTag tokens).1 ∧
      (takeTag (tokens ++ more)).2 = (takeTag tokens).2 ++ more ∧
      Closes 0 (takeTag tokens).2 := by
  obtain ⟨t, rest, hskip, hskip', hclosed⟩ := h.skipLayout more
  simp only [takeTag, hskip, hskip']
  by_cases ht : t.kind = .identifier
  · rw [if_pos ht, if_pos ht]
    exact ⟨rfl, rfl, hclosed.tail_of_kind ht (by decide)⟩
  · rw [if_neg ht, if_neg ht]
    exact ⟨rfl, rfl, hclosed⟩

theorem readTypedefName_stays {tag : Option Bytes} {noName : SyntaxError}
    (hname : noName.isPassable = true) (h : Closes 0 tokens) :
    Stays more (· = []) (readTypedefName c tag noName tokens)
      (readTypedefName c tag noName (tokens ++ more)) := by
  obtain ⟨t, rest, hskip, hskip', hclosed⟩ := h.skipLines more
  simp only [readTypedefName, hskip, hskip']
  by_cases ht : t.kind = .identifier
  · rw [if_pos ht, if_pos ht]
    exact (readEnd_stays more (hclosed.tail_of_kind ht (by decide))).map _
  · rw [if_neg ht, if_neg ht]
    cases tag with
    | some tag => exact (readEnd_stays more hclosed).map _
    | none => exact .broken hname (List.cons_ne_nil t rest)

theorem readTypedef_stays {start : Position} (h : Closes 0 tokens) :
    Stays more (· = []) (readTypedef o start tokens) (readTypedef o start (tokens ++ more)) := by
  obtain ⟨t, rest, hskip, hskip', hclosed⟩ := h.skipLayout more
  simp only [readTypedef, hskip, hskip']
  by_cases hstruct : t.kind = .structKeyword
  · rw [if_pos hstruct, if_pos hstruct]
    obtain ⟨htag, hbehind, hrest⟩ := takeTag_closes more (hclosed.tail_of_kind hstruct (by decide))
    simp only [readTypedefStruct, htag, hbehind]
    exact (readStructBody_stays more hrest).andThen fun _ _ hrest =>
      (readTypedefName_stays more rfl hrest).map _
  · rw [if_neg hstruct, if_neg hstruct]
    by_cases henum : t.kind = .enumKeyword
    · rw [if_pos henum, if_pos henum]
      obtain ⟨htag, hbehind, hrest⟩ := takeTag_closes more (hclosed.tail_of_kind henum (by decide))
      simp only [readTypedefEnum, htag, hbehind]
      exact (readEnumBody_stays more hrest).andThen fun _ _ hrest =>
        (readTypedefName_stays more rfl hrest).map _
    · rw [if_neg henum, if_neg henum]
      exact .broken rfl (List.cons_ne_nil t rest)

theorem takeReturnType_closes (type : Scalar) (h : Closes 0 tokens) :
    (takeReturnType type (tokens ++ more)).1 = (takeReturnType type tokens).1 ∧
      (takeReturnType type (tokens ++ more)).2 = (takeReturnType type tokens).2 ++ more ∧
      Closes 0 (takeReturnType type tokens).2 := by
  obtain ⟨t, rest, hskip, hskip', hclosed⟩ := h.skipLayout more
  simp only [takeReturnType, hskip, hskip']
  by_cases ht : type = .long ∧ t.kind = .longKeyword
  · rw [if_pos ht, if_pos ht]
    exact ⟨rfl, rfl, hclosed.tail_of_kind ht.2 (by decide)⟩
  · rw [if_neg ht, if_neg ht]
    exact ⟨rfl, rfl, hclosed⟩

theorem readSignature_stays (h : Closes 0 tokens) :
    Stays more (Closes 0) (readSignature o c tokens) (readSignature o c (tokens ++ more)) := by
  obtain ⟨t, rest, hskip, hskip', hclosed⟩ := h.skipLayout more
  simp only [readSignature, hskip, hskip']
  by_cases ht : t.kind = .leftParen
  · rw [if_pos ht, if_pos ht]
    exact readParameterList_stays more (hclosed.tail_of_kind ht (by decide))
  · rw [if_neg ht, if_neg ht]
    exact .broken rfl (List.cons_ne_nil t rest)

theorem readPrototype_stays {start : Position} {keyword : Scalar} (h : Closes 0 tokens) :
    Stays more (Closes 0) (readPrototype o start keyword tokens)
      (readPrototype o start keyword (tokens ++ more)) := by
  obtain ⟨htype, hbehind, hrest⟩ := takeReturnType_closes more keyword h
  obtain ⟨t, rest, hskip, hskip', hclosed⟩ := hrest.skipLayout more
  simp only [readPrototype, htype, hbehind, hskip, hskip']
  by_cases hname : t.kind = .identifier
  · rw [if_pos hname, if_pos hname]
    exact (readSignature_stays more (hclosed.tail_of_kind hname (by decide))).map _
  · rw [if_neg hname, if_neg hname]
    by_cases hstar : t.kind = .star
    · rw [if_pos hstar, if_pos hstar]
      exact .broken rfl (List.cons_ne_nil t rest)
    · rw [if_neg hstar, if_neg hstar]
      exact .broken rfl (List.cons_ne_nil t rest)

theorem readPrototypeEnd_stays {start : Position} {p : Prototype} (h : Closes 0 tokens) :
    Stays more (· = []) (readPrototypeEnd start p tokens)
      (readPrototypeEnd start p (tokens ++ more)) := by
  obtain ⟨t, rest, hskip, hskip', hclosed⟩ := h.skipLines more
  simp only [readPrototypeEnd, hskip, hskip']
  by_cases hend : t.kind = .semicolon
  · rw [if_pos hend, if_pos hend]
    exact .done (hclosed.rest_eq_nil hend)
  · rw [if_neg hend, if_neg hend]
    by_cases hbrace : t.kind = .leftBrace
    · rw [if_pos hbrace, if_pos hbrace]
      exact .broken rfl (List.cons_ne_nil t rest)
    · rw [if_neg hbrace, if_neg hbrace]
      exact .broken rfl (List.cons_ne_nil t rest)

theorem readPrototypeDeclaration_stays {start : Position} {keyword : Scalar}
    (h : Closes 0 tokens) :
    Stays more (· = []) (readPrototypeDeclaration o start keyword tokens)
      (readPrototypeDeclaration o start keyword (tokens ++ more)) :=
  (readPrototype_stays more h).andThen fun _ _ hrest => (readPrototypeEnd_stays more hrest).map _

end

/-- The opening of a linkage block: `extern`, a literal and a brace. Layout may stand between them,
and line breaks before the brace. -/
inductive OpensLinkage : List Token → Prop where
  | mk {first language brace : Token} {gap lines rest : List Token} :
      first.kind = .identifier → first.text = ascii "extern" → significant gap = [] →
      language.kind = .stringLiteral → solid lines = [] → brace.kind = .leftBrace →
      OpensLinkage (first :: (gap ++ language :: (lines ++ brace :: rest)))

theorem OpensLinkage.head?_kind {tokens : List Token} (h : OpensLinkage tokens) :
    ∃ t ∈ tokens.head?, t.kind = .identifier := by
  cases h with
  | mk hkind _ _ _ _ _ => exact ⟨_, rfl, hkind⟩

theorem readLinkage_stays {α : Type} {start : Token} {tokens : List Token} (more : List Token)
    (hstart : start.kind = .identifier ∧ start.text = ascii "extern") (h : Closes 0 tokens)
    (hlinkage : ¬ OpensLinkage (start :: tokens)) :
    Stays more (· = []) (readLinkage start tokens : Outcome α)
      (readLinkage start (tokens ++ more)) := by
  obtain ⟨language, rest, hskip, hskip', hclosed⟩ := h.skipLayout more
  simp only [readLinkage, hskip, hskip']
  by_cases hlanguage : language.kind = .stringLiteral
  · rw [if_pos hlanguage, if_pos hlanguage]
    have hrest := hclosed.tail_of_kind hlanguage (by decide)
    obtain ⟨t, inside, hlines, hlines', _⟩ := hrest.skipLines more
    simp only [hlines, hlines']
    by_cases ht : t.kind = .leftBrace
    · obtain ⟨gap, rfl, hgap, _⟩ := skipLayout_eq_cons_iff.mp hskip
      obtain ⟨lines, rfl, hsolid, _⟩ := skipLines_eq_cons_iff.mp hlines
      exact absurd (.mk hstart.1 hstart.2 hgap hlanguage hsolid ht) hlinkage
    · rw [if_neg ht, if_neg ht]
      exact .broken rfl (List.cons_ne_nil t inside)
  · rw [if_neg hlanguage, if_neg hlanguage]
    exact .broken rfl (List.cons_ne_nil language rest)

/-- A closed construct is read to its last token or broken before it, whatever follows. -/
theorem readConstruct_stays {o : ReadOptions} {start : Token} {tokens : List Token}
    (more : List Token) (h : Closes 0 (start :: tokens))
    (hdirective : start.kind.isDirective = false)
    (hmark : start.kind ≠ .semicolon ∧ start.kind ≠ .rightBrace)
    (hlinkage : ¬ OpensLinkage (start :: tokens)) :
    Stays more (· = []) (readConstruct o start tokens)
      (readConstruct o start (tokens ++ more)) := by
  have htokens : tokens ≠ [] := (h.tail fun hends => hmark.1 hends.1).ne_nil
  have hdirective' : ¬ start.kind.isDirective = true := by simp [hdirective]
  simp only [readConstruct, if_neg hdirective']
  split
  · rename_i hk
    exact (readEnumDeclaration_stays more (h.tail_of_kind hk (by decide))).map _
  · rename_i hk
    exact (readStructDeclaration_stays more (h.tail_of_kind hk (by decide))).map _
  · rename_i hk
    exact (readTypedef_stays more (h.tail_of_kind hk (by decide))).map _
  · exact .broken rfl htokens
  · exact .broken rfl htokens
  · cases hkeyword : Scalar.ofKeyword? start.kind with
    | some keyword =>
        have hrest : Closes 0 tokens := by
          apply h.tail_of_kind rfl
          revert hkeyword
          cases start.kind <;> simp [Scalar.ofKeyword?]
        exact (readPrototypeDeclaration_stays more hrest).map _
    | none =>
        simp only
        by_cases hextern : start.kind = .identifier ∧ start.text = ascii "extern"
        · rw [if_pos hextern, if_pos hextern]
          exact readLinkage_stays more hextern (h.tail_of_kind hextern.1 (by decide)) hlinkage
        · rw [if_neg hextern, if_neg hextern]
          exact .broken rfl htokens

end HeaderBinding
