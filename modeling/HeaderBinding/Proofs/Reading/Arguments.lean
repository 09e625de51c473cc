import HeaderBinding.Proofs.Reading.Passage
import HeaderBinding.Reading.Member

/-!
# Members and parameters are read as the grammar has them

Each loop gathers tokens up to the mark that closes it. The statements speak of the tokens gathered
so far together with those up to the closing mark, so they hold at every turn of the loop.
-/

namespace HeaderBinding

namespace Grammar

/-! ## One member -/

/-- A scalar type is one keyword, or `long` twice. -/
theorem scalarType_iff {kinds : List TokenKind} {s : Scalar} :
    ScalarType kinds s ↔
      (∃ k, kinds = [k] ∧ Scalar.ofKeyword? k = some s) ∨
        (kinds = [.longKeyword, .longKeyword] ∧ s = .longLong) := by
  constructor
  · intro h
    cases h <;> simp [Scalar.ofKeyword?]
  · intro h
    rcases h with ⟨k, rfl, hk⟩ | ⟨rfl, rfl⟩
    · cases k <;> simp only [Scalar.ofKeyword?, reduceCtorEq, Option.some.injEq] at hk <;> subst hk
      · exact .int
      · exact .float
      · exact .long
      · exact .void
      · exact .char
    · exact .longLong

/-- The kinds of tokens that make up members and parameters. -/
def argumentKinds : List TokenKind :=
  [.intKeyword, .floatKeyword, .longKeyword, .voidKeyword, .charKeyword, .enumKeyword, .identifier]

theorem ScalarType.mem_argumentKinds {kinds : List TokenKind} {s : Scalar}
    (h : ScalarType kinds s) : ∀ k ∈ kinds, k ∈ argumentKinds := by
  cases h <;> decide

theorem ArgumentForm.mem_argumentKinds {o : ReadOptions} {form : List Token} {a : Argument}
    (h : ArgumentForm o form a) : ∀ t ∈ form, t.kind ∈ argumentKinds := by
  intro t ht
  cases h with
  | scalar htype hname =>
      rcases List.mem_append.mp ht with ht | ht
      · exact htype.mem_argumentKinds t.kind (List.mem_map_of_mem ht)
      · rw [List.mem_singleton.mp ht, hname]
        decide
  | enum _ hkeyword htag hname =>
      simp only [List.mem_cons, List.not_mem_nil, or_false] at ht
      rcases ht with rfl | rfl | rfl
      · rw [hkeyword]; decide
      · rw [htag]; decide
      · rw [hname]; decide

theorem ArgumentForm.ne_nil {o : ReadOptions} {form : List Token} {a : Argument}
    (h : ArgumentForm o form a) : form ≠ [] := by
  cases h <;> simp

theorem scalarAt?_scalarType {first : Token} {others rest : List Token} {s : Scalar}
    (h : scalarAt? first others = some (s, rest)) :
    ∃ type, first :: others = type ++ rest ∧ ScalarType (type.map Token.kind) s := by
  unfold scalarAt? at h
  split at h
  · rename_i second tokens
    split at h
    · rename_i hlong
      cases h
      refine ⟨[first, second], rfl, ?_⟩
      simpa [hlong] using ScalarType.longLong
    · obtain ⟨k, hk, heq⟩ := Option.map_eq_some_iff.mp h
      cases heq
      exact ⟨[first], rfl, scalarType_iff.mpr (.inl ⟨_, rfl, hk⟩)⟩
  · obtain ⟨k, hk, heq⟩ := Option.map_eq_some_iff.mp h
    cases heq
    exact ⟨[first], rfl, scalarType_iff.mpr (.inl ⟨_, rfl, hk⟩)⟩

theorem ofNameTokens?_eq_some_iff {type : CType} {tokens : List Token} {a : Argument} :
    Argument.ofNameTokens? type tokens = some a ↔
      ∃ name, tokens = [name] ∧ name.kind = .identifier ∧ a = ⟨name.text, type⟩ := by
  unfold Argument.ofNameTokens?
  split
  · simp [eq_comm]
  · rename_i h
    simp only [reduceCtorEq, false_iff]
    intro h
    rcases h with ⟨name, rfl, _⟩
    exact h name rfl

theorem ofEnumTokens?_eq_some_iff {tokens : List Token} {a : Argument} :
    Argument.ofEnumTokens? tokens = some a ↔
      ∃ tag name, tokens = [tag, name] ∧ tag.kind = .identifier ∧ name.kind = .identifier ∧
        a = ⟨name.text, .enum tag.text⟩ := by
  unfold Argument.ofEnumTokens?
  split
  · simp [eq_comm, and_assoc]
  · rename_i h
    simp only [reduceCtorEq, false_iff]
    intro h
    rcases h with ⟨tag, name, rfl, _⟩
    exact h tag name rfl

theorem find?_isDeclaratorMark {o : ReadOptions} {form : List Token} {a : Argument}
    (h : ArgumentForm o form a) : form.find? Token.isDeclaratorMark = none := by
  rw [List.find?_eq_none]
  intro t ht hmark
  have hkind := h.mem_argumentKinds t ht
  simp only [Token.isDeclaratorMark, Bool.or_eq_true, beq_iff_eq] at hmark
  rcases hmark with (hk | hk) | hk <;> rw [hk] at hkind <;> exact absurd hkind (by decide)

/-- A member or parameter is read exactly from the forms that the grammar has for it. -/
theorem ofTokens_eq_ok_iff {o : ReadOptions} {malformed : SyntaxError} {first : Token}
    {others : List Token} {a : Argument} :
    Argument.ofTokens o malformed first others = .ok a ↔ ArgumentForm o (first :: others) a := by
  constructor
  · intro h
    rw [Argument.ofTokens] at h
    split at h
    · cases h
    · split at h
      · rename_i hkeyword
        split at h
        · cases h
        · rename_i hinline
          split at h
          · rename_i b hb
            cases h
            obtain ⟨tag, name, rfl, htag, hname, rfl⟩ := ofEnumTokens?_eq_some_iff.mp hb
            exact .enum (by simpa using hinline) hkeyword htag hname
          · cases h
      · split at h
        · rename_i s rest hs
          split at h
          · rename_i b hb
            cases h
            obtain ⟨name, rfl, hname, rfl⟩ := ofNameTokens?_eq_some_iff.mp hb
            obtain ⟨type, heq, htype⟩ := scalarAt?_scalarType hs
            exact heq ▸ .scalar htype hname
          · cases h
        · split at h <;> cases h
  · intro h
    have hmark := find?_isDeclaratorMark h
    generalize hform : first :: others = form at h hmark
    rw [Argument.ofTokens]
    rw [hform, hmark]
    cases h with
    | enum hinline hkeyword htag hname =>
        cases hform
        simp [hkeyword, hinline, Argument.ofEnumTokens?, htag, hname]
    | @scalar type name s htype hname =>
        rcases scalarType_iff.mp htype with ⟨k, hkinds, hk⟩ | ⟨hkinds, rfl⟩
        · obtain ⟨t, rfl, rfl⟩ := List.map_eq_singleton_iff.mp hkinds
          cases hform
          have hne : first.kind ≠ .enumKeyword := by
            intro he
            simp [he, Scalar.ofKeyword?] at hk
          simp [hne, scalarAt?, hname, hk, Argument.ofNameTokens?]
        · obtain ⟨t, others, rfl, ht, hothers⟩ := List.map_eq_cons_iff.mp hkinds
          obtain ⟨u, rfl, hu⟩ := List.map_eq_singleton_iff.mp hothers
          cases hform
          simp [ht, hu, scalarAt?, hname, Argument.ofNameTokens?]

theorem argumentForm_iff_of_ok {o : ReadOptions} {malformed : SyntaxError} {first : Token}
    {others : List Token} {a : Argument} (h : Argument.ofTokens o malformed first others = .ok a)
    (b : Argument) : ArgumentForm o (first :: others) b ↔ b = a := by
  rw [← ofTokens_eq_ok_iff, h]
  simp [eq_comm]

theorem not_argumentForm_nil {o : ReadOptions} (a : Argument) : ¬ ArgumentForm o [] a := by
  intro h
  exact h.ne_nil rfl

theorem not_argumentForm_of_error {o : ReadOptions} {malformed : SyntaxError} {first : Token}
    {others : List Token} {fault : Fault}
    (h : Argument.ofTokens o malformed first others = .error fault) (b : Argument) :
    ¬ ArgumentForm o (first :: others) b := by
  rw [← ofTokens_eq_ok_iff, h]
  simp

/-! ## Struct members -/

theorem ArgumentForm.kind_ne {o : ReadOptions} {form : List Token} {a : Argument}
    (h : ArgumentForm o form a) {k : TokenKind} (hk : k ∉ argumentKinds) :
    ∀ t ∈ form, ¬ t.kind = k := by
  intro t ht heq
  exact hk (heq ▸ h.mem_argumentKinds t ht)

theorem Members.kind_ne {o : ReadOptions} {tokens : List Token} {members : List Argument}
    (h : Members o tokens members) {k : TokenKind} (hk : k ∉ .semicolon :: argumentKinds) :
    ∀ t ∈ tokens, ¬ t.kind = k := by
  obtain ⟨hsemicolon, hkinds⟩ := not_or.mp (mt List.mem_cons.mpr hk)
  induction h with
  | nil => simp
  | semicolon ht _ ih =>
      intro u hu
      rcases List.mem_cons.mp hu with rfl | hu
      · rw [ht]
        exact Ne.symm hsemicolon
      · exact ih u hu
  | member hform ht _ ih =>
      intro u hu
      rcases List.mem_append.mp hu with hu | hu
      · exact hform.kind_ne hkinds u hu
      · rcases List.mem_cons.mp hu with rfl | hu
        · rw [ht]
          exact Ne.symm hsemicolon
        · exact ih u hu

theorem members_of_no_semicolon {o : ReadOptions} {tokens : List Token} {members : List Argument}
    (hnone : ∀ t ∈ tokens, ¬ t.kind = .semicolon) :
    Members o tokens members ↔ tokens = [] ∧ members = [] := by
  constructor
  · intro h
    cases h with
    | nil => exact ⟨rfl, rfl⟩
    | semicolon ht _ => exact absurd ht (hnone _ (by simp))
    | member _ ht _ => exact absurd ht (hnone _ (by simp))
  · intro h
    rcases h with ⟨rfl, rfl⟩
    exact .nil

/-- The first `;` ends the first member, if there is a token before it. -/
theorem members_append_semicolon {o : ReadOptions} {form tokens : List Token} {t : Token}
    {members : List Argument} (hform : ∀ u ∈ form, ¬ u.kind = .semicolon)
    (ht : t.kind = .semicolon) :
    Members o (form ++ t :: tokens) members ↔
      (form = [] ∧ Members o tokens members) ∨
        ∃ a others, ArgumentForm o form a ∧ members = a :: others ∧ Members o tokens others := by
  constructor
  · intro h
    generalize hall : form ++ t :: tokens = all at h
    cases h with
    | nil => simp at hall
    | semicolon hu hrest =>
        obtain ⟨rfl, rfl, rfl⟩ := append_cons_inj (x := form) (y := []) hform (by simp) ht hu hall
        exact .inl ⟨rfl, hrest⟩
    | member ha hu hrest =>
        have hfront := ha.kind_ne (k := .semicolon) (by decide)
        obtain ⟨rfl, rfl, rfl⟩ := append_cons_inj hform hfront ht hu hall
        exact .inr ⟨_, _, ha, rfl, hrest⟩
  · intro h
    rcases h with ⟨rfl, h⟩ | ⟨a, others, ha, rfl, h⟩
    · exact .semicolon ht h
    · exact .member ha ht h

/-- Members are read up to the brace that closes them, and only if they have the form of members
together with the tokens gathered before. -/
theorem readMembers_eq_done_iff {o : ReadOptions} {c : Construct} {done : Array Argument}
    {current : Array Token} {tokens rest : List Token} {members : List Argument}
    (hcurrent : ∀ t ∈ current.toList, ¬ t.kind = .semicolon) :
    readMembers o c .brace done current tokens = .done members rest ↔
      Encloses .rightBrace
        (fun body => ∃ others, members = done.toList ++ others ∧
          Members o (current.toList ++ solid body) others) tokens rest := by
  induction tokens generalizing done current with
  | nil => simp [readMembers, Construct.cut, encloses_nil]
  | cons t tokens ih =>
      have hblank := encloses_cons_of_blank (t := t)
        (show TokenKind.rightBrace.isLayoutOrNewline = false from rfl)
        (fun body => ∃ others, members = done.toList ++ others ∧
          Members o (current.toList ++ body) others) tokens rest
      have hbrace (hsolid : t.kind.isLayoutOrNewline = false)
          (hkind : t.kind ∉ .semicolon :: argumentKinds) (body : List Token)
          (others : List Argument) : ¬ Members o (current.toList ++ solid (t :: body)) others := by
        intro h
        rw [solid_cons_of_solid hsolid] at h
        exact h.kind_ne hkind t (by simp) rfl
      rw [readMembers]
      split
      · rename_i hk
        exact (ih hcurrent).trans (hblank (by rw [hk]; rfl)).symm
      · rename_i hk
        exact (ih hcurrent).trans (hblank (by rw [hk]; rfl)).symm
      · rename_i hk
        exact (ih hcurrent).trans (hblank (by rw [hk]; rfl)).symm
      · rename_i hk
        rw [encloses_cons_of_ne (by simp [hk])]
        simp only [solid_cons_of_solid (t := t) (by rw [hk]; rfl),
          members_append_semicolon hcurrent hk]
        split
        · rename_i hnil
          rw [ih (by simp)]
          simp [hnil, not_argumentForm_nil]
        · rename_i first others hcons
          split
          · rename_i a ha
            rw [ih (by simp)]
            simp only [exists_push_append_iff]
            simp [hcons, argumentForm_iff_of_ok ha]
          · rename_i fault hfault
            simp [hcons, not_argumentForm_of_error hfault, Encloses]
      · rename_i hk
        have hinside := hbrace (by rw [hk]; rfl) (by rw [hk]; decide)
        rw [encloses_cons_of_eq hk (by simp [hinside])]
        simp only [solid, List.filter_nil, List.append_nil, members_of_no_semicolon hcurrent]
        split
        · rename_i hclosed
          simp [Array.isEmpty_iff.mp hclosed.1, eq_comm, and_comm]
        · rename_i hopen
          have hne : current ≠ #[] := by simpa using hopen
          simp [hne]
      · rename_i hk
        rw [encloses_cons_of_ne (by simp [hk])]
        simp [hbrace (by rw [hk]; rfl) (by rw [hk]; decide), Encloses]
      · rename_i hwhite hcomment hnewline hsemicolon hright hleft
        exact (ih (forall_mem_push hcurrent hsemicolon)).trans
          (encloses_cons_push (isLayoutOrNewline_eq_false hwhite hcomment hnewline) hright
            (p := fun body => ∃ others, members = done.toList ++ others ∧
              Members o body others)).symm

/-! ## Parameters -/

theorem Parameters.kind_ne {o : ReadOptions} {tokens : List Token} {parameters : List Argument}
    (h : Parameters o tokens parameters) {k : TokenKind} (hk : k ∉ .comma :: argumentKinds) :
    ∀ t ∈ tokens, ¬ t.kind = k := by
  obtain ⟨hcomma, hkinds⟩ := not_or.mp (mt List.mem_cons.mpr hk)
  induction h with
  | last hform => exact hform.kind_ne hkinds
  | cons hform ht _ ih =>
      intro u hu
      rcases List.mem_append.mp hu with hu | hu
      · exact hform.kind_ne hkinds u hu
      · rcases List.mem_cons.mp hu with rfl | hu
        · rw [ht]
          exact Ne.symm hcomma
        · exact ih u hu

theorem parameters_of_no_comma {o : ReadOptions} {form : List Token} {parameters : List Argument}
    (hnone : ∀ t ∈ form, ¬ t.kind = .comma) :
    Parameters o form parameters ↔ ∃ a, ArgumentForm o form a ∧ parameters = [a] := by
  constructor
  · intro h
    cases h with
    | last hform => exact ⟨_, hform, rfl⟩
    | cons _ ht _ => exact absurd ht (hnone _ (by simp))
  · intro h
    rcases h with ⟨a, hform, rfl⟩
    exact .last hform

/-- The first comma ends the first parameter. -/
theorem parameters_append_comma {o : ReadOptions} {form tokens : List Token} {t : Token}
    {parameters : List Argument} (hform : ∀ u ∈ form, ¬ u.kind = .comma) (ht : t.kind = .comma) :
    Parameters o (form ++ t :: tokens) parameters ↔
      ∃ a others, ArgumentForm o form a ∧ parameters = a :: others ∧
        Parameters o tokens others := by
  constructor
  · intro h
    generalize hall : form ++ t :: tokens = all at h
    cases h with
    | last ha => exact absurd ht (ha.kind_ne (by decide) t (hall ▸ by simp))
    | cons ha hu hrest =>
        have hfront := ha.kind_ne (k := .comma) (by decide)
        obtain ⟨rfl, rfl, rfl⟩ := append_cons_inj hform hfront ht hu hall
        exact ⟨_, _, ha, rfl, hrest⟩
  · intro h
    rcases h with ⟨a, others, ha, rfl, h⟩
    exact .cons ha ht h

/-- Parameters are read up to the parenthesis that closes them, and only if they have the form of
parameters together with the tokens gathered before. -/
theorem readParameters_eq_done_iff {o : ReadOptions} {c : Construct} {done : Array Argument}
    {current : Array Token} {tokens rest : List Token} {parameters : List Argument}
    (hcurrent : ∀ t ∈ current.toList, ¬ t.kind = .comma) :
    readParameters o c done current tokens = .done parameters rest ↔
      Encloses .rightParen
        (fun body => ∃ others, parameters = done.toList ++ others ∧
          Parameters o (current.toList ++ solid body) others) tokens rest := by
  induction tokens generalizing done current with
  | nil => simp [readParameters, Construct.cut, encloses_nil]
  | cons t tokens ih =>
      have hblank := encloses_cons_of_blank (t := t)
        (show TokenKind.rightParen.isLayoutOrNewline = false from rfl)
        (fun body => ∃ others, parameters = done.toList ++ others ∧
          Parameters o (current.toList ++ body) others) tokens rest
      have hmark (hsolid : t.kind.isLayoutOrNewline = false)
          (hkind : t.kind ∉ .comma :: argumentKinds) (body : List Token) (others : List Argument) :
          ¬ Parameters o (current.toList ++ solid (t :: body)) others := by
        intro h
        rw [solid_cons_of_solid hsolid] at h
        exact h.kind_ne hkind t (by simp) rfl
      rw [readParameters]
      split
      · rename_i hk
        exact (ih hcurrent).trans (hblank (by rw [hk]; rfl)).symm
      · rename_i hk
        exact (ih hcurrent).trans (hblank (by rw [hk]; rfl)).symm
      · rename_i hk
        exact (ih hcurrent).trans (hblank (by rw [hk]; rfl)).symm
      · rename_i hk
        rw [encloses_cons_of_ne (by simp [hk])]
        simp only [solid_cons_of_solid (t := t) (by rw [hk]; rfl),
          parameters_append_comma hcurrent hk]
        split
        · rename_i hnil
          simp [hnil, not_argumentForm_nil, Encloses]
        · rename_i first others hcons
          split
          · rename_i a ha
            rw [ih (by simp)]
            simp only [exists_push_append_iff]
            simp [hcons, argumentForm_iff_of_ok ha]
          · rename_i fault hfault
            simp [hcons, not_argumentForm_of_error hfault, Encloses]
      · rename_i hk
        have hinside := hmark (by rw [hk]; rfl) (by rw [hk]; decide)
        rw [encloses_cons_of_eq hk (by simp [hinside])]
        simp only [solid, List.filter_nil, List.append_nil, parameters_of_no_comma hcurrent]
        split
        · rename_i hnil
          simp [hnil, not_argumentForm_nil]
        · rename_i first others hcons
          split
          · rename_i a ha
            simp [hcons, argumentForm_iff_of_ok ha, eq_comm, and_comm]
          · rename_i fault hfault
            simp [hcons, not_argumentForm_of_error hfault]
      iterate 4
        rename_i hk
        rw [encloses_cons_of_ne (by simp [hk])]
        simp [hmark (by rw [hk]; rfl) (by rw [hk]; decide), Encloses]
      · rename_i hwhite hcomment hnewline hcomma hright _ _ _ _
        exact (ih (forall_mem_push hcurrent hcomma)).trans
          (encloses_cons_push (isLayoutOrNewline_eq_false hwhite hcomment hnewline) hright
            (p := fun body => ∃ others, parameters = done.toList ++ others ∧
              Parameters o body others)).symm

theorem not_argumentForm_singleton {o : ReadOptions} (t : Token) (a : Argument) :
    ¬ ArgumentForm o [t] a := by
  intro h
  generalize hform : [t] = form at h
  cases h with
  | enum => cases hform
  | @scalar type name s htype _ =>
      cases type with
      | nil => cases htype
      | cons u type => simp at hform

theorem parameterList_nil_iff {o : ReadOptions} {parameters : List Argument} :
    ParameterList o [] parameters ↔ parameters = [] := by
  constructor
  · intro h
    cases h with
    | empty => rfl
    | parameters h =>
        obtain ⟨a, ha, _⟩ := (parameters_of_no_comma (by simp)).mp h
        exact absurd ha (not_argumentForm_nil a)
  · rintro rfl
    exact .empty

theorem parameterList_void_iff {o : ReadOptions} {t : Token} {parameters : List Argument}
    (ht : t.kind = .voidKeyword) : ParameterList o [t] parameters ↔ parameters = [] := by
  constructor
  · intro h
    cases h with
    | void _ => rfl
    | parameters h =>
        obtain ⟨a, ha, _⟩ := (parameters_of_no_comma (by simp [ht])).mp h
        exact absurd ha (not_argumentForm_singleton t a)
  · rintro rfl
    exact .void ht

theorem parameterList_cons_iff {o : ReadOptions} {t : Token} {tokens : List Token}
    {parameters : List Argument} (h : t.kind = .voidKeyword → tokens ≠ []) :
    ParameterList o (t :: tokens) parameters ↔ Parameters o (t :: tokens) parameters := by
  constructor
  · intro hlist
    cases hlist with
    | void ht => exact absurd rfl (h ht)
    | parameters hlist => exact hlist
  · exact .parameters

theorem not_parameterList_of_mem {o : ReadOptions} {tokens : List Token}
    {parameters : List Argument} {t : Token} (hmem : t ∈ tokens) (ht : t.kind = .rightParen) :
    ¬ ParameterList o tokens parameters := by
  intro h
  cases h with
  | empty => simp at hmem
  | void hvoid =>
      rw [List.mem_singleton.mp hmem, hvoid] at ht
      cases ht
  | parameters h => exact h.kind_ne (by decide) t hmem ht

/-- What follows an opening parenthesis is read as a parameter list. -/
theorem readParameterList_eq_done_iff {o : ReadOptions} {c : Construct} {tokens rest : List Token}
    {parameters : List Argument} :
    readParameterList o c tokens = .done parameters rest ↔
      Encloses .rightParen (fun body => ParameterList o (solid body) parameters) tokens rest := by
  rw [encloses_skipLines rfl fun body => ParameterList o body parameters]
  rw [readParameterList]
  split
  · rename_i hskip
    simp [hskip, Construct.cut, encloses_nil]
  · rename_i t tokens' hskip
    obtain ⟨_, _, _, ht⟩ := skipLines_eq_cons_iff.mp hskip
    rw [hskip]
    split
    · rename_i hk
      have hinside : ∀ body, ¬ ParameterList o (solid (t :: body)) parameters := by
        intro body
        exact not_parameterList_of_mem (by simp [solid_cons_of_solid ht]) hk
      rw [encloses_cons_of_eq hk hinside]
      simp [solid, parameterList_nil_iff, eq_comm, and_comm]
    · rename_i hne
      rw [encloses_cons_of_ne hne]
      simp only [solid_cons_of_solid ht]
      split
      · rename_i hvoid
        rw [encloses_skipLines rfl fun body => ParameterList o (t :: body) parameters]
        split
        · rename_i hskip'
          simp [hskip', Construct.cut, encloses_nil]
        · rename_i u behind hskip'
          obtain ⟨_, _, _, hu⟩ := skipLines_eq_cons_iff.mp hskip'
          rw [hskip']
          split
          · rename_i huk
            have hinside : ∀ body, ¬ ParameterList o (t :: solid (u :: body)) parameters := by
              intro body
              exact not_parameterList_of_mem (by simp [solid_cons_of_solid hu]) huk
            rw [encloses_cons_of_eq huk hinside]
            simp [solid, parameterList_void_iff hvoid, eq_comm, and_comm]
          · rename_i hune
            rw [readParameters_eq_done_iff (by simp [hvoid]), encloses_cons_of_ne hune,
              encloses_cons_of_ne hune]
            apply encloses_congr
            intro body
            simp [solid_cons_of_solid hu, parameterList_cons_iff]
      · rename_i hnovoid
        rw [readParameters_eq_done_iff (by simp), encloses_cons_of_ne hne]
        apply encloses_congr
        intro body
        simp [solid_cons_of_solid ht, parameterList_cons_iff, hnovoid]

end Grammar

end HeaderBinding
