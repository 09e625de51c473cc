import HeaderBinding.Reading.Session

/-!
# Where faults are

A reader reports a fault at the start of its construct, at a token it has taken, or at the token it
stops before. So a fault is at a token of the source whatever the reader was doing, and all that is
left unread behind it is that token at most, and what follows it.
-/

namespace HeaderBinding

namespace Outcome

/-- The place of a fault in a construct that starts at a position and goes on with the given tokens.
A fault at the token that is next leaves it unread; the opening of a linkage block is not reported
in this way. -/
inductive Blames {α : Type} (start : Position) (tokens : List Token) : Outcome α → Prop where
  | done {value : α} {rest : List Token} : rest <:+ tokens → Blames start tokens (.done value rest)
  | atStart {fault : Fault} {rest : List Token} :
      fault.position = start → rest <:+ tokens → Blames start tokens (.broken fault rest)
  | atTaken {fault : Fault} {t : Token} {back rest : List Token} :
      t :: back <:+ tokens → fault.position = t.position → rest <:+ back →
      Blames start tokens (.broken fault rest)
  | atNext {fault : Fault} {t : Token} {back : List Token} :
      t :: back <:+ tokens → fault.position = t.position → fault.cause ≠ .linkageBlock →
      Blames start tokens (.broken fault (t :: back))

namespace Blames

variable {α β : Type} {start : Position} {tokens input : List Token} {x : Outcome α}

theorem mono (h : Blames start tokens x) (hinput : tokens <:+ input) : Blames start input x := by
  cases h with
  | done hrest => exact .done (hrest.trans hinput)
  | atStart hposition hrest => exact .atStart hposition (hrest.trans hinput)
  | atTaken hback hposition hrest => exact .atTaken (hback.trans hinput) hposition hrest
  | atNext hback hposition hcause => exact .atNext (hback.trans hinput) hposition hcause

theorem andThen {next : α → List Token → Outcome β} (h : Blames start tokens x)
    (hnext : ∀ value rest, Blames start rest (next value rest)) :
    Blames start tokens (x.andThen next) := by
  cases h with
  | done hrest => exact (hnext _ _).mono hrest
  | atStart hposition hrest => exact .atStart hposition hrest
  | atTaken hback hposition hrest => exact .atTaken hback hposition hrest
  | atNext hback hposition hcause => exact .atNext hback hposition hcause

theorem map (f : α → β) (h : Blames start tokens x) : Blames start tokens (x.map f) :=
  h.andThen fun _ _ => .done List.suffix_rfl

end Blames

end Outcome

open Outcome

theorem Construct.blames_cut {α : Type} (c : Construct) (tokens : List Token) :
    Blames c.start tokens (c.cut : Outcome α) :=
  .atStart rfl List.nil_suffix

/-! ## Members, parameters, enumerators -/

/-- A member is refused at one of its tokens. -/
theorem Argument.ofTokens_error {o : ReadOptions} {malformed : SyntaxError} {first : Token}
    {others : List Token} {fault : Fault}
    (h : Argument.ofTokens o malformed first others = .error fault) :
    ∃ t ∈ first :: others, fault.position = t.position := by
  have hfirst : ∃ t ∈ first :: others, first.position = t.position :=
    ⟨first, List.mem_cons_self, rfl⟩
  unfold Argument.ofTokens at h
  dsimp only at h
  split at h
  · rename_i mark hmark
    cases h
    exact ⟨mark, List.mem_of_find?_eq_some hmark, rfl⟩
  · split at h
    · split at h
      · cases h
        exact hfirst
      · split at h
        · cases h
        · cases h
          exact hfirst
    · split at h
      · split at h
        · cases h
        · cases h
          exact hfirst
      · split at h
        · cases h
          exact hfirst
        · cases h
          exact hfirst

/-- The tokens of the current member are among those of the input that were taken. -/
def MemberTaken (input current tokens : List Token) : Prop :=
  ∃ taken, input = taken ++ tokens ∧ current ⊆ taken

namespace MemberTaken

variable {input current tokens : List Token} {t : Token} {start : Position} {α : Type}

theorem nil (tokens : List Token) : MemberTaken tokens [] tokens :=
  ⟨[], rfl, List.nil_subset _⟩

theorem suffix (h : MemberTaken input current tokens) : tokens <:+ input := by
  obtain ⟨taken, rfl, -⟩ := h
  exact List.suffix_append taken tokens

theorem push (h : MemberTaken input current (t :: tokens)) :
    MemberTaken input (current ++ [t]) tokens := by
  obtain ⟨taken, rfl, hcurrent⟩ := h
  refine ⟨taken ++ [t], by simp, ?_⟩
  exact List.append_subset.mpr
    ⟨List.Subset.trans hcurrent (List.subset_append_left _ _), List.subset_append_right _ _⟩

theorem skip (h : MemberTaken input current (t :: tokens)) : MemberTaken input current tokens := by
  obtain ⟨taken, rfl, hcurrent⟩ := h
  exact ⟨taken ++ [t], by simp, fun u hu => List.mem_append_left _ (hcurrent hu)⟩

theorem restart (h : MemberTaken input current (t :: tokens)) : MemberTaken input [] tokens := by
  obtain ⟨taken, rfl, -⟩ := h
  exact ⟨taken ++ [t], by simp, List.nil_subset _⟩

/-- A fault of the current member is at a token that was taken. -/
theorem blames (h : MemberTaken input current tokens) {fault : Fault}
    (hfault : ∃ u ∈ current, fault.position = u.position) :
    Blames start input (.broken fault tokens : Outcome α) := by
  obtain ⟨taken, rfl, hcurrent⟩ := h
  obtain ⟨u, hu, hposition⟩ := hfault
  obtain ⟨front, back, rfl⟩ := List.append_of_mem (hcurrent hu)
  refine .atTaken ?_ hposition (List.suffix_append back tokens)
  rw [List.append_assoc]
  exact List.suffix_append front _

end MemberTaken

theorem readMembers_blames (o : ReadOptions) (c : Construct) {input tokens : List Token}
    {done : Array Argument} {current : Array Token} (h : MemberTaken input current.toList tokens) :
    Blames c.start input (readMembers o c .brace done current tokens) := by
  induction tokens generalizing done current with
  | nil => exact c.blames_cut input
  | cons t rest ih =>
      have hpush : MemberTaken input (current.push t).toList rest := by
        rw [Array.toList_push]
        exact h.push
      have hrest : rest <:+ input := h.skip.suffix
      unfold readMembers
      split
      · exact ih h.skip
      · exact ih h.skip
      · exact ih h.skip
      · split
        · exact ih h.restart
        · rename_i first others hcurrent
          split
          · exact ih h.restart
          · rename_i fault herror
            exact h.skip.blames (hcurrent ▸ Argument.ofTokens_error herror)
      · split
        · exact .done hrest
        · exact .atNext h.suffix rfl (by simp)
      · exact .atNext h.suffix rfl (by simp)
      · exact ih hpush

theorem readParameters_blames (o : ReadOptions) (c : Construct) {input tokens : List Token}
    {done : Array Argument} {current : Array Token} (h : MemberTaken input current.toList tokens) :
    Blames c.start input (readParameters o c done current tokens) := by
  induction tokens generalizing done current with
  | nil => exact c.blames_cut input
  | cons t rest ih =>
      have hpush : MemberTaken input (current.push t).toList rest := by
        rw [Array.toList_push]
        exact h.push
      have hrest : rest <:+ input := h.skip.suffix
      unfold readParameters
      split
      · exact ih h.skip
      · exact ih h.skip
      · exact ih h.skip
      · split
        · exact .atTaken h.suffix rfl List.suffix_rfl
        · rename_i first others hcurrent
          split
          · exact ih h.restart
          · rename_i fault herror
            exact h.skip.blames (hcurrent ▸ Argument.ofTokens_error herror)
      · split
        · exact .atTaken h.suffix rfl List.suffix_rfl
        · rename_i first others hcurrent
          split
          · exact .done hrest
          · rename_i fault herror
            exact h.skip.blames (hcurrent ▸ Argument.ofTokens_error herror)
      · exact .atNext h.suffix rfl (by simp)
      · exact .atNext h.suffix rfl (by simp)
      · exact .atNext h.suffix rfl (by simp)
      · exact .atNext h.suffix rfl (by simp)
      · exact ih hpush

theorem readParameterList_blames (o : ReadOptions) (c : Construct) (tokens : List Token) :
    Blames c.start tokens (readParameterList o c tokens) := by
  unfold readParameterList
  split
  · exact c.blames_cut tokens
  · rename_i t rest h
    have htokens : t :: rest <:+ tokens := h ▸ skipLines_suffix tokens
    have hrest := suffix_of_skipLines h
    split
    · exact .done hrest
    · split
      · split
        · exact c.blames_cut tokens
        · rename_i u behind hu
          split
          · exact .done ((suffix_of_skipLines hu).trans hrest)
          · obtain ⟨blank, hblank⟩ := hu ▸ skipLines_suffix rest
            -- `void` is the first token of a parameter that is still open.
            have hvoid : MemberTaken (t :: rest) #[t].toList (u :: behind) :=
              ⟨t :: blank, by rw [← hblank, List.cons_append], by simp⟩
            exact (readParameters_blames o c hvoid).mono htokens
      · exact (readParameters_blames o c (.nil (t :: rest))).mono htokens

theorem readEnumerators_blames (o : ReadOptions) (c : Construct) (done : Array Bytes)
    (current : Array UInt8) (multiline : Bool) (tokens : List Token) :
    Blames c.start tokens (readEnumerators o c done current multiline tokens) := by
  induction tokens generalizing done current multiline with
  | nil => exact c.blames_cut []
  | cons t rest ih =>
      have hrest : rest <:+ t :: rest := List.suffix_cons t rest
      unfold readEnumerators
      split
      · exact (ih _ _ _).mono hrest
      · exact (ih _ _ _).mono hrest
      · split
        · exact .atTaken List.suffix_rfl rfl List.suffix_rfl
        · exact (ih _ _ _).mono hrest
      · split
        · exact .atStart rfl hrest
        · split <;> exact .done hrest
      · exact .atTaken List.suffix_rfl rfl List.suffix_rfl
      · exact .atTaken List.suffix_rfl rfl List.suffix_rfl
      · exact .atTaken List.suffix_rfl rfl List.suffix_rfl
      · exact (ih _ _ _).mono hrest

/-! ## Constructs -/

section

variable (o : ReadOptions) (c : Construct) (start : Position) (tokens : List Token)

theorem readBody_blames {α : Type} {inside : List Token → Outcome α}
    (hinside : ∀ tokens, Blames c.start tokens (inside tokens)) :
    Blames c.start tokens (readBody c inside tokens) := by
  unfold readBody
  split
  · exact c.blames_cut tokens
  · rename_i t rest h
    split
    · exact (hinside rest).mono (suffix_of_skipLines h)
    · exact .atNext (h ▸ skipLines_suffix tokens) rfl nofun

theorem readEnumBody_blames : Blames c.start tokens (readEnumBody o c tokens) :=
  readBody_blames c tokens (readEnumerators_blames o c #[] #[] false)

theorem readStructBody_blames : Blames c.start tokens (readStructBody o c tokens) :=
  readBody_blames c tokens fun tokens => readMembers_blames o c (.nil tokens)

theorem readEnd_blames : Blames c.start tokens (readEnd c tokens) := by
  unfold readEnd
  split
  · exact c.blames_cut tokens
  · rename_i t rest h
    split
    · exact .done (suffix_of_skipLines h)
    · exact .atNext (h ▸ skipLines_suffix tokens) rfl nofun

theorem readEnum_blames : Blames start tokens (readEnum o start tokens) := by
  unfold readEnum
  split
  · exact .atStart rfl List.nil_suffix
  · rename_i t rest h
    split
    · have hbody := readEnumBody_blames o ⟨ascii "enum " ++ t.text, start, .unclosedEnum⟩ rest
      exact (hbody.map _).mono (suffix_of_skipLayout h)
    · exact .atNext (h ▸ skipLayout_suffix tokens) rfl nofun

theorem readEnumDeclaration_blames : Blames start tokens (readEnumDeclaration o start tokens) :=
  (readEnum_blames o start tokens).andThen fun e rest =>
    (readEnd_blames ⟨ascii "enum " ++ e.name, start, .unclosedEnum⟩ rest).map _

theorem readStructDeclaration_blames :
    Blames start tokens (readStructDeclaration o start tokens) := by
  unfold readStructDeclaration
  split
  · exact .atStart rfl List.nil_suffix
  · rename_i t rest h
    split
    · have hbody := readStructBody_blames o
        ⟨ascii "struct " ++ t.text, start, .unclosedStruct⟩ rest
      have hread := hbody.andThen fun members rest =>
        (readEnd_blames ⟨ascii "struct " ++ t.text, start, .unclosedStruct⟩ rest).map
          fun _ => Declaration.struct ⟨t.text, members⟩
      exact hread.mono (suffix_of_skipLayout h)
    · exact .atNext (h ▸ skipLayout_suffix tokens) rfl nofun

theorem readTypedefName_blames (tag : Option Bytes) (noName : SyntaxError)
    (hcause : noName ≠ .linkageBlock) :
    Blames c.start tokens (readTypedefName c tag noName tokens) := by
  unfold readTypedefName
  split
  · exact c.blames_cut tokens
  · rename_i t rest h
    have htokens : t :: rest <:+ tokens := h ▸ skipLines_suffix tokens
    split
    · exact ((readEnd_blames c rest).map _).mono (suffix_of_skipLines h)
    · split
      · exact ((readEnd_blames c (t :: rest)).map _).mono htokens
      · exact .atNext htokens rfl hcause

theorem start_typedefConstruct (words : String) (tag : Option Bytes) :
    (typedefConstruct words tag start).start = start := by
  cases tag <;> rfl

theorem readTypedefStruct_blames : Blames start tokens (readTypedefStruct o start tokens) := by
  have hbody := readStructBody_blames o
    (typedefConstruct "typedef struct" (takeTag tokens).1 start) (takeTag tokens).2
  have hread := hbody.andThen fun members rest =>
    (readTypedefName_blames _ rest (takeTag tokens).1 .noStructName nofun).map
      fun name => Declaration.struct ⟨name, members⟩
  rw [start_typedefConstruct] at hread
  exact hread.mono (takeTag_suffix tokens)

theorem readTypedefEnum_blames : Blames start tokens (readTypedefEnum o start tokens) := by
  have hbody := readEnumBody_blames o
    (typedefConstruct "typedef enum" (takeTag tokens).1 start) (takeTag tokens).2
  have hread := hbody.andThen fun attributes rest =>
    (readTypedefName_blames _ rest (takeTag tokens).1 .noEnumName nofun).map
      fun name => Declaration.enum ⟨name, attributes⟩
  rw [start_typedefConstruct] at hread
  exact hread.mono (takeTag_suffix tokens)

theorem readTypedef_blames : Blames start tokens (readTypedef o start tokens) := by
  unfold readTypedef
  split
  · exact .atStart rfl List.nil_suffix
  · rename_i t rest h
    have hrest := suffix_of_skipLayout h
    split
    · exact (readTypedefStruct_blames o start rest).mono hrest
    · split
      · exact (readTypedefEnum_blames o start rest).mono hrest
      · exact .atNext (h ▸ skipLayout_suffix tokens) rfl nofun

theorem readSignature_blames : Blames c.start tokens (readSignature o c tokens) := by
  unfold readSignature
  split
  · exact c.blames_cut tokens
  · rename_i t rest h
    split
    · exact (readParameterList_blames o c rest).mono (suffix_of_skipLayout h)
    · exact .atStart rfl (h ▸ skipLayout_suffix tokens)

theorem readPrototype_blames (keyword : Scalar) :
    Blames start tokens (readPrototype o start keyword tokens) := by
  have hbehind := takeReturnType_suffix keyword tokens
  unfold readPrototype
  dsimp only
  split
  · exact .atStart rfl List.nil_suffix
  · rename_i t rest h
    have htokens : t :: rest <:+ tokens := (h ▸ skipLayout_suffix _).trans hbehind
    split
    · have hsignature := readSignature_blames o
        (functionConstruct (takeReturnType keyword tokens).1 t.text start) rest
      exact (hsignature.map _).mono ((List.suffix_cons t rest).trans htokens)
    · split <;> exact .atNext htokens rfl nofun

theorem readPrototypeEnd_blames (p : Prototype) :
    Blames start tokens (readPrototypeEnd start p tokens) := by
  unfold readPrototypeEnd
  dsimp only
  split
  · exact .atStart rfl List.nil_suffix
  · rename_i t rest h
    split
    · exact .done (suffix_of_skipLines h)
    · split <;> exact .atNext (h ▸ skipLines_suffix tokens) rfl nofun

theorem readPrototypeDeclaration_blames (keyword : Scalar) :
    Blames start tokens (readPrototypeDeclaration o start keyword tokens) :=
  (readPrototype_blames o start tokens keyword).andThen fun p rest =>
    (readPrototypeEnd_blames start rest p).map _

end

theorem readDirective_broken {start : Token} {tokens rest : List Token} {fault : Fault}
    (h : readDirective start tokens = .broken fault rest) : fault.position = start.position := by
  unfold readDirective at h
  dsimp only at h
  split at h
  · cases h
  · cases h
    rfl

theorem readDirective_blames (start : Token) (tokens : List Token) :
    Blames start.position tokens (readDirective start tokens) := by
  have hrest := readDirective_rest_suffix start tokens
  cases hread : readDirective start tokens with
  | done value rest =>
      rw [hread] at hrest
      exact .done hrest
  | broken fault rest =>
      rw [hread] at hrest
      exact .atStart (readDirective_broken hread) hrest

theorem readLinkage_blames {α : Type} (start : Token) (tokens : List Token) :
    Blames start.position tokens (readLinkage start tokens : Outcome α) := by
  unfold readLinkage
  split
  · exact .atStart rfl List.nil_suffix
  · rename_i language rest h
    have hrest := suffix_of_skipLayout h
    split
    · split
      · exact .atStart rfl List.nil_suffix
      · rename_i t inside ht
        split
        · exact .atStart rfl ((suffix_of_skipLines ht).trans hrest)
        · exact .atStart rfl ((ht ▸ skipLines_suffix rest).trans hrest)
    · exact .atStart rfl (h ▸ skipLayout_suffix tokens)

theorem readConstruct_blames (o : ReadOptions) (start : Token) (tokens : List Token) :
    Blames start.position tokens (readConstruct o start tokens) := by
  unfold readConstruct
  split
  · exact readDirective_blames start tokens
  · split
    · exact (readEnumDeclaration_blames o start.position tokens).map _
    · exact (readStructDeclaration_blames o start.position tokens).map _
    · exact (readTypedef_blames o start.position tokens).map _
    · exact .atStart rfl List.suffix_rfl
    · exact .atStart rfl List.suffix_rfl
    · split
      · exact (readPrototypeDeclaration_blames o start.position tokens _).map _
      · split
        · exact readLinkage_blames start tokens
        · exact .atStart rfl List.suffix_rfl

/-- A directive and a stray brace are refused at their first token. -/
theorem readConstruct_broken_at_start {o : ReadOptions} {start : Token} {tokens rest : List Token}
    {fault : Fault} (h : readConstruct o start tokens = .broken fault rest)
    (hkind : start.kind.isDirective = true ∨ start.kind = .rightBrace) :
    fault.position = start.position := by
  unfold readConstruct at h
  rcases hkind with hkind | hkind
  · rw [if_pos hkind] at h
    exact readDirective_broken h
  · rw [if_neg (by simp [hkind, TokenKind.isDirective]), hkind] at h
    cases h
    rfl

/-- A fault is at a token of its construct. That token was taken with those before it, unless it is
the one that the reader has stopped before; the session then skips on from it. -/
theorem readConstruct_broken {o : ReadOptions} {start : Token} {tokens rest : List Token}
    {fault : Fault} (h : readConstruct o start tokens = .broken fault rest) :
    ∃ t back, t :: back <:+ start :: tokens ∧ fault.position = t.position ∧
      (rest <:+ back ∨ leavesRest start fault = true ∧ rest = t :: back) := by
  have hrest : rest <:+ tokens := by
    have hsuffix := readConstruct_rest_suffix o start tokens
    rwa [h] at hsuffix
  by_cases hkind : start.kind.isDirective = true ∨ start.kind = .rightBrace
  · exact ⟨start, tokens, List.suffix_rfl, readConstruct_broken_at_start h hkind, .inl hrest⟩
  · have hcons := List.suffix_cons start tokens
    have hblames := readConstruct_blames o start tokens
    rw [h] at hblames
    cases hblames with
    | atStart hposition => exact ⟨start, tokens, List.suffix_rfl, hposition, .inl hrest⟩
    | atTaken hback hposition htaken =>
        exact ⟨_, _, hback.trans hcons, hposition, .inl htaken⟩
    | atNext hback hposition hcause =>
        refine ⟨_, _, hback.trans hcons, hposition, .inr ⟨?_, rfl⟩⟩
        simp only [not_or, Bool.not_eq_true] at hkind
        simp [leavesRest, hkind, hcause]

/-! ## Behind a fault -/

/-- Skipping takes the next token, unless it is a brace that closes an enclosing linkage block. -/
theorem skipBroken_cons (linkage depth : Nat) (t : Token) (rest : List Token) :
    skipBroken linkage depth (t :: rest) <:+ rest ∨
      skipBroken linkage depth (t :: rest) = t :: rest ∧ t.kind = .rightBrace ∧ 0 < linkage := by
  unfold skipBroken
  split
  · rename_i hclosing
    exact .inr ⟨rfl, hclosing.1, hclosing.2.2⟩
  · left
    split
    · exact skipBroken_suffix ..
    · split
      · exact List.suffix_rfl
      · split
        · exact skipLines_suffix rest
        · exact skipBroken_suffix ..

/-- The session goes on behind the token that a fault is at, or at that token if it closes a linkage
block. -/
theorem exists_resume_suffix {o : ReadOptions} {start : Token} {tokens rest : List Token}
    {fault : Fault} (h : readConstruct o start tokens = .broken fault rest) (linkage : Nat) :
    ∃ t back, t :: back <:+ start :: tokens ∧ fault.position = t.position ∧
      (resume linkage start tokens rest fault <:+ back ∨
        resume linkage start tokens rest fault = t :: back ∧ t.kind = .rightBrace ∧
          0 < linkage) := by
  obtain ⟨t, back, hback, hposition, hrest⟩ := readConstruct_broken h
  refine ⟨t, back, hback, hposition, ?_⟩
  rcases hrest with hrest | ⟨hleaves, rfl⟩
  · exact .inl ((resume_suffix ..).trans hrest)
  · rw [resume, if_pos hleaves]
    exact skipBroken_cons ..

end HeaderBinding
