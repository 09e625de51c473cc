import HeaderBinding.Reading.Construct

/-!
# Readers only take tokens away

The tokens that a reader leaves unread are a suffix of the tokens it was given, so reading makes
progress with every first token that is taken.
-/

namespace HeaderBinding

theorem skipLayout_suffix (tokens : List Token) : skipLayout tokens <:+ tokens :=
  List.dropWhile_suffix _

theorem skipLines_suffix (tokens : List Token) : skipLines tokens <:+ tokens :=
  List.dropWhile_suffix _

theorem suffix_of_skipLayout {tokens rest : List Token} {t : Token}
    (h : skipLayout tokens = t :: rest) : rest <:+ tokens :=
  (List.suffix_cons t rest).trans (h ▸ skipLayout_suffix tokens)

theorem suffix_of_skipLines {tokens rest : List Token} {t : Token}
    (h : skipLines tokens = t :: rest) : rest <:+ tokens :=
  (List.suffix_cons t rest).trans (h ▸ skipLines_suffix tokens)

namespace Outcome

theorem andThen_rest_suffix {α β : Type} {o : Outcome α} {next : α → List Token → Outcome β}
    {tokens : List Token} (ho : o.rest <:+ tokens)
    (hnext : ∀ value rest, (next value rest).rest <:+ rest) : (o.andThen next).rest <:+ tokens := by
  cases o with
  | done value rest => exact (hnext value rest).trans ho
  | broken fault rest => exact ho

theorem map_rest_suffix {α β : Type} {o : Outcome α} (f : α → β) {tokens : List Token}
    (ho : o.rest <:+ tokens) : (o.map f).rest <:+ tokens :=
  andThen_rest_suffix ho fun _ _ => List.suffix_rfl

end Outcome

/-! ## Members, parameters, enumerators -/

theorem readMembers_rest_suffix (o : ReadOptions) (c : Construct) (closer : Closer)
    (done : Array Argument) (current : Array Token) (tokens : List Token) :
    (readMembers o c closer done current tokens).rest <:+ tokens := by
  induction tokens generalizing done current with
  | nil =>
    unfold readMembers
    split
    · exact List.suffix_rfl
    · split <;> exact List.suffix_rfl
  | cons t rest ih =>
    have hrest : rest <:+ t :: rest := List.suffix_cons t rest
    unfold readMembers
    split
    · exact (ih _ _).trans hrest
    · exact (ih _ _).trans hrest
    · exact (ih _ _).trans hrest
    · split
      · exact (ih _ _).trans hrest
      · split
        · exact (ih _ _).trans hrest
        · exact hrest
    · split
      · exact hrest
      · exact List.suffix_rfl
    · exact List.suffix_rfl
    · exact (ih _ _).trans hrest

theorem readParameters_rest_suffix (o : ReadOptions) (c : Construct) (done : Array Argument)
    (current : Array Token) (tokens : List Token) :
    (readParameters o c done current tokens).rest <:+ tokens := by
  induction tokens generalizing done current with
  | nil => exact List.suffix_rfl
  | cons t rest ih =>
    have hrest : rest <:+ t :: rest := List.suffix_cons t rest
    unfold readParameters
    split
    · exact (ih _ _).trans hrest
    · exact (ih _ _).trans hrest
    · exact (ih _ _).trans hrest
    · split
      · exact hrest
      · split
        · exact (ih _ _).trans hrest
        · exact hrest
    · split
      · exact hrest
      · split <;> exact hrest
    · exact List.suffix_rfl
    · exact List.suffix_rfl
    · exact List.suffix_rfl
    · exact List.suffix_rfl
    · exact (ih _ _).trans hrest

theorem readParameterList_rest_suffix (o : ReadOptions) (c : Construct) (tokens : List Token) :
    (readParameterList o c tokens).rest <:+ tokens := by
  unfold readParameterList
  split
  · exact List.nil_suffix
  · rename_i t rest h
    have hrest := suffix_of_skipLines h
    split
    · exact hrest
    · split
      · split
        · exact List.nil_suffix
        · rename_i u behind hu
          have hbehind := suffix_of_skipLines hu
          split
          · exact hbehind.trans hrest
          · exact ((readParameters_rest_suffix ..).trans (hu ▸ skipLines_suffix rest)).trans hrest
      · exact (readParameters_rest_suffix ..).trans (h ▸ skipLines_suffix tokens)

theorem readEnumerators_rest_suffix (o : ReadOptions) (c : Construct) (done : Array Bytes)
    (current : Array UInt8) (multiline : Bool) (tokens : List Token) :
    (readEnumerators o c done current multiline tokens).rest <:+ tokens := by
  induction tokens generalizing done current multiline with
  | nil => exact List.suffix_rfl
  | cons t rest ih =>
    have hrest : rest <:+ t :: rest := List.suffix_cons t rest
    unfold readEnumerators
    split
    · exact (ih _ _ _).trans hrest
    · exact (ih _ _ _).trans hrest
    · split
      · exact hrest
      · exact (ih _ _ _).trans hrest
    · split
      · exact hrest
      · split <;> exact hrest
    · exact hrest
    · exact hrest
    · exact hrest
    · exact (ih _ _ _).trans hrest

/-! ## Constructs -/

theorem readBody_rest_suffix {α : Type} (c : Construct) {inside : List Token → Outcome α}
    (hinside : ∀ tokens, (inside tokens).rest <:+ tokens) (tokens : List Token) :
    (readBody c inside tokens).rest <:+ tokens := by
  unfold readBody
  split
  · exact List.nil_suffix
  · rename_i t rest h
    split
    · exact (hinside rest).trans (suffix_of_skipLines h)
    · exact h ▸ skipLines_suffix tokens

theorem readEnumBody_rest_suffix (o : ReadOptions) (c : Construct) (tokens : List Token) :
    (readEnumBody o c tokens).rest <:+ tokens :=
  readBody_rest_suffix c (readEnumerators_rest_suffix o c #[] #[] false) tokens

theorem readStructBody_rest_suffix (o : ReadOptions) (c : Construct) (tokens : List Token) :
    (readStructBody o c tokens).rest <:+ tokens :=
  readBody_rest_suffix c (readMembers_rest_suffix o c .brace #[] #[]) tokens

theorem readEnd_rest_suffix (c : Construct) (tokens : List Token) :
    (readEnd c tokens).rest <:+ tokens := by
  unfold readEnd
  split
  · exact List.nil_suffix
  · rename_i t rest h
    split
    · exact suffix_of_skipLines h
    · exact h ▸ skipLines_suffix tokens

theorem readEnum_rest_suffix (o : ReadOptions) (start : Position) (tokens : List Token) :
    (readEnum o start tokens).rest <:+ tokens := by
  unfold readEnum
  split
  · exact List.nil_suffix
  · rename_i t rest h
    split
    · exact Outcome.map_rest_suffix _ ((readEnumBody_rest_suffix ..).trans (suffix_of_skipLayout h))
    · exact h ▸ skipLayout_suffix tokens

theorem readEnumDeclaration_rest_suffix (o : ReadOptions) (start : Position) (tokens : List Token) :
    (readEnumDeclaration o start tokens).rest <:+ tokens :=
  Outcome.andThen_rest_suffix (readEnum_rest_suffix o start tokens) fun _ rest =>
    Outcome.map_rest_suffix _ (readEnd_rest_suffix _ rest)

theorem readStructDeclaration_rest_suffix (o : ReadOptions) (start : Position)
    (tokens : List Token) : (readStructDeclaration o start tokens).rest <:+ tokens := by
  unfold readStructDeclaration
  split
  · exact List.nil_suffix
  · rename_i t rest h
    split
    · exact Outcome.andThen_rest_suffix
        ((readStructBody_rest_suffix ..).trans (suffix_of_skipLayout h)) fun _ rest =>
          Outcome.map_rest_suffix _ (readEnd_rest_suffix _ rest)
    · exact h ▸ skipLayout_suffix tokens

theorem takeTag_suffix (tokens : List Token) : (takeTag tokens).2 <:+ tokens := by
  unfold takeTag
  split
  · exact List.nil_suffix
  · rename_i t rest h
    split
    · exact suffix_of_skipLayout h
    · exact h ▸ skipLayout_suffix tokens

theorem readTypedefName_rest_suffix (c : Construct) (tag : Option Bytes) (noName : SyntaxError)
    (tokens : List Token) : (readTypedefName c tag noName tokens).rest <:+ tokens := by
  unfold readTypedefName
  split
  · exact List.nil_suffix
  · rename_i t rest h
    have htokens : t :: rest <:+ tokens := h ▸ skipLines_suffix tokens
    split
    · exact Outcome.map_rest_suffix _ ((readEnd_rest_suffix c rest).trans (suffix_of_skipLines h))
    · split
      · exact Outcome.map_rest_suffix _ ((readEnd_rest_suffix c _).trans htokens)
      · exact htokens

theorem readTypedefStruct_rest_suffix (o : ReadOptions) (start : Position) (tokens : List Token) :
    (readTypedefStruct o start tokens).rest <:+ tokens :=
  Outcome.andThen_rest_suffix
    ((readStructBody_rest_suffix ..).trans (takeTag_suffix tokens)) fun _ rest =>
      Outcome.map_rest_suffix _ (readTypedefName_rest_suffix _ _ _ rest)

theorem readTypedefEnum_rest_suffix (o : ReadOptions) (start : Position) (tokens : List Token) :
    (readTypedefEnum o start tokens).rest <:+ tokens :=
  Outcome.andThen_rest_suffix
    ((readEnumBody_rest_suffix ..).trans (takeTag_suffix tokens)) fun _ rest =>
      Outcome.map_rest_suffix _ (readTypedefName_rest_suffix _ _ _ rest)

theorem readTypedef_rest_suffix (o : ReadOptions) (start : Position) (tokens : List Token) :
    (readTypedef o start tokens).rest <:+ tokens := by
  unfold readTypedef
  split
  · exact List.nil_suffix
  · rename_i t rest h
    have hrest := suffix_of_skipLayout h
    split
    · exact (readTypedefStruct_rest_suffix o start rest).trans hrest
    · split
      · exact (readTypedefEnum_rest_suffix o start rest).trans hrest
      · exact h ▸ skipLayout_suffix tokens

theorem takeReturnType_suffix (type : Scalar) (tokens : List Token) :
    (takeReturnType type tokens).2 <:+ tokens := by
  unfold takeReturnType
  split
  · exact List.nil_suffix
  · rename_i t rest h
    split
    · exact suffix_of_skipLayout h
    · exact h ▸ skipLayout_suffix tokens

theorem readSignature_rest_suffix (o : ReadOptions) (c : Construct) (tokens : List Token) :
    (readSignature o c tokens).rest <:+ tokens := by
  unfold readSignature
  split
  · exact List.nil_suffix
  · rename_i t rest h
    split
    · exact (readParameterList_rest_suffix o c rest).trans (suffix_of_skipLayout h)
    · exact h ▸ skipLayout_suffix tokens

theorem readPrototype_rest_suffix (o : ReadOptions) (start : Position) (keyword : Scalar)
    (tokens : List Token) : (readPrototype o start keyword tokens).rest <:+ tokens := by
  have hbehind := takeReturnType_suffix keyword tokens
  unfold readPrototype
  dsimp only
  split
  · exact List.nil_suffix
  · rename_i t rest h
    have htokens : t :: rest <:+ tokens := (h ▸ skipLayout_suffix _).trans hbehind
    split
    · exact Outcome.map_rest_suffix _
        ((readSignature_rest_suffix ..).trans ((List.suffix_cons t rest).trans htokens))
    · split <;> exact htokens

theorem readPrototypeEnd_rest_suffix (start : Position) (p : Prototype) (tokens : List Token) :
    (readPrototypeEnd start p tokens).rest <:+ tokens := by
  unfold readPrototypeEnd
  split
  · exact List.nil_suffix
  · rename_i t rest h
    split
    · exact suffix_of_skipLines h
    · split <;> exact h ▸ skipLines_suffix tokens

theorem readPrototypeDeclaration_rest_suffix (o : ReadOptions) (start : Position)
    (keyword : Scalar) (tokens : List Token) :
    (readPrototypeDeclaration o start keyword tokens).rest <:+ tokens :=
  Outcome.andThen_rest_suffix (readPrototype_rest_suffix o start keyword tokens) fun p rest =>
    Outcome.map_rest_suffix _ (readPrototypeEnd_rest_suffix start p rest)

theorem readDirective_rest_suffix (start : Token) (tokens : List Token) :
    (readDirective start tokens).rest <:+ tokens := by
  unfold readDirective
  dsimp only
  split <;> exact List.dropWhile_suffix _

theorem readLinkage_rest_suffix {α : Type} (start : Token) (tokens : List Token) :
    (readLinkage start tokens : Outcome α).rest <:+ tokens := by
  unfold readLinkage
  split
  · exact List.nil_suffix
  · rename_i language rest h
    have hrest := suffix_of_skipLayout h
    split
    · split
      · exact List.nil_suffix
      · rename_i t inside ht
        split
        · exact (suffix_of_skipLines ht).trans hrest
        · exact (ht ▸ skipLines_suffix rest).trans hrest
    · exact h ▸ skipLayout_suffix tokens

theorem readConstruct_rest_suffix (o : ReadOptions) (start : Token) (tokens : List Token) :
    (readConstruct o start tokens).rest <:+ tokens := by
  unfold readConstruct
  split
  · exact readDirective_rest_suffix start tokens
  · split
    · exact Outcome.map_rest_suffix _ (readEnumDeclaration_rest_suffix ..)
    · exact Outcome.map_rest_suffix _ (readStructDeclaration_rest_suffix ..)
    · exact Outcome.map_rest_suffix _ (readTypedef_rest_suffix ..)
    · exact List.suffix_rfl
    · exact List.suffix_rfl
    · split
      · exact Outcome.map_rest_suffix _ (readPrototypeDeclaration_rest_suffix ..)
      · split
        · exact readLinkage_rest_suffix start tokens
        · exact List.suffix_rfl

end HeaderBinding
