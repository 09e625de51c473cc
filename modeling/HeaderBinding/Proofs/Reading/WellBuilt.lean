import HeaderBinding.Declaration.Construction
import HeaderBinding.Proofs.Reading.Arguments
import HeaderBinding.Proofs.Reading.Closing
import HeaderBinding.Proofs.Token.LineFeeds
import HeaderBinding.Reading.Single

/-!
# What readers build

Readers put declarations together from the texts of tokens without checking them. The names are
those of identifier tokens, so they pass the checks for parts that come from elsewhere. Where a
reader finds the source unterminated instead, it has read all of it.
-/

namespace HeaderBinding

/-! ## Names -/

/-- A text that the lexicon takes for a name: an identifier that is no keyword. -/
def Bytes.IsName (s : Bytes) : Prop :=
  Lexicon.FirstKind Lexicon.entries s .identifier

theorem Bytes.IsName.matches_identifier {s : Bytes} (h : s.IsName) :
    LexicalRule.identifier.pattern.Matches s := by
  have honly : ∀ rule ∈ LexicalRule.all, rule.kind = .identifier →
      rule = LexicalRule.identifier := by
    decide
  obtain ⟨rule, hrule, hkind, hmatches⟩ := h.rule
  rwa [honly rule hrule hkind] at hmatches

theorem Bytes.IsName.isIdentifier {s : Bytes} (h : s.IsName) : s.isIdentifier = true :=
  Lexicon.matches_identifier_iff.mp h.matches_identifier

/-- The names among tokens have a property. -/
def Names (P : Bytes → Prop) (tokens : List Token) : Prop :=
  ∀ t ∈ tokens, t.kind = .identifier → P t.text

theorem names_nil {P : Bytes → Prop} : Names P [] := by
  intro t ht
  cases ht

theorem Names.suffix {P : Bytes → Prop} {tokens rest : List Token} (h : Names P tokens)
    (hrest : rest <:+ tokens) : Names P rest :=
  fun t ht => h t (hrest.subset ht)

theorem names_tokenize (source : Bytes) : Names Bytes.IsName (tokenize source) := by
  intro t ht hkind
  have hmem : (t.kind, t.text) ∈ (tokenize source).map Token.spelling := List.mem_map_of_mem ht
  rcases (cut_tokenize source).mem_cases hmem with hfirst | ⟨hinvalid, -⟩
  · rwa [hkind] at hfirst
  · rw [hkind] at hinvalid
    cases hinvalid

/-- The tag of an enum type has a property. -/
def CType.Named (P : Bytes → Prop) : CType → Prop
  | .scalar _ => True
  | .enum tag => P tag

structure Argument.Named (P : Bytes → Prop) (a : Argument) : Prop where
  name : P a.name
  type : a.type.Named P

/-- The names that a declaration takes from tokens have a property. What a directive names has none
of its own, but is not empty or is an identifier. -/
def Declaration.Named (P : Bytes → Prop) : Declaration → Prop
  | .inclusion i => i.name ≠ []
  | .macroName m => m.name.isIdentifier = true
  | .enum e => P e.name ∧ ∀ text ∈ e.attributes, text ≠ []
  | .struct s => P s.name ∧ ∀ a ∈ s.attributes, a.Named P
  | .prototype p =>
    P p.name ∧ (∃ s, p.returnType = .scalar s) ∧ ∀ a ∈ p.arguments, a.Named P

/-! ## Outcomes -/

/-- What was read has a property, and a source that was found unterminated was read to its end. -/
def Outcome.Sound {α : Type} (p : α → Prop) : Outcome α → Prop
  | .done value _ => p value
  | .broken fault rest => fault.cause.category = .unterminated → rest = []

namespace Outcome

variable {α β : Type} {p : α → Prop} {q : β → Prop} {x : Outcome α}

theorem sound_broken {fault : Fault} {rest : List Token}
    (h : (fault.cause.category != .unterminated) = true) :
    (broken fault rest : Outcome α).Sound p := by
  intro hcategory
  rw [hcategory] at h
  cases h

theorem sound_of_passable {fault : Fault} {rest : List Token}
    (h : fault.cause.isPassable = true) : (broken fault rest : Outcome α).Sound p := by
  rw [SyntaxError.isPassable, Bool.and_eq_true] at h
  exact sound_broken h.1

theorem sound_cut (c : Construct) : (c.cut : Outcome α).Sound p :=
  fun _ => rfl

theorem Sound.andThen (h : x.Sound p) {next : α → List Token → Outcome β}
    (hnext : ∀ value rest, x.rest = rest → p value → (next value rest).Sound q) :
    (x.andThen next).Sound q := by
  cases x with
  | done value rest => exact hnext value rest rfl h
  | broken fault rest => exact h

theorem Sound.map (h : x.Sound p) {f : α → β} (hf : ∀ value, p value → q (f value)) :
    (x.map f).Sound q :=
  h.andThen fun value _ _ hvalue => hf value hvalue

end Outcome

open Outcome

/-! ## Members, parameters and enumerators -/

section

variable {P : Bytes → Prop} {o : ReadOptions} {c : Construct} {tokens : List Token}

theorem Grammar.ArgumentForm.named {a : Argument} (h : Grammar.ArgumentForm o tokens a)
    (hnames : Names P tokens) : a.Named P := by
  cases h with
  | scalar _ hname => exact ⟨hnames _ (by simp) hname, trivial⟩
  | enum _ _ htag hname => exact ⟨hnames _ (by simp) hname, hnames _ (by simp) htag⟩

theorem ofTokens_named {malformed : SyntaxError} {first : Token} {others : List Token}
    {a : Argument} (h : Argument.ofTokens o malformed first others = .ok a)
    (hnames : Names P (first :: others)) : a.Named P :=
  (Grammar.ofTokens_eq_ok_iff.mp h).named hnames

theorem Names.push {current : Array Token} {t : Token} (hcurrent : Names P current.toList)
    (h : Names P (t :: tokens)) : Names P (current.push t).toList :=
  forall_mem_push hcurrent (h t List.mem_cons_self)

theorem readMembers_sound {closer : Closer} {done : Array Argument} {current : Array Token}
    (hdone : ∀ a ∈ done.toList, a.Named P) (hcurrent : Names P current.toList)
    (h : Names P tokens) :
    (readMembers o c closer done current tokens).Sound (∀ a ∈ ·, a.Named P) := by
  induction tokens generalizing done current with
  | nil =>
      unfold readMembers
      split
      · exact sound_cut c
      · split
        · exact hdone
        · exact sound_broken rfl
  | cons t rest ih =>
      have hrest : Names P rest := h.suffix (List.suffix_cons t rest)
      unfold readMembers
      split
      · exact ih hdone hcurrent hrest
      · exact ih hdone hcurrent hrest
      · exact ih hdone hcurrent hrest
      · split
        · exact ih hdone names_nil hrest
        · rename_i first others hmember
          split
          · rename_i a ha
            rw [hmember] at hcurrent
            exact ih (forall_mem_push hdone (ofTokens_named ha hcurrent)) names_nil hrest
          · rename_i fault hfault
            exact sound_of_passable (ofTokens_error_isPassable rfl hfault)
      · split
        · exact hdone
        · exact sound_broken rfl
      · exact sound_broken rfl
      · exact ih hdone (hcurrent.push h) hrest

theorem readParameters_sound {done : Array Argument} {current : Array Token}
    (hdone : ∀ a ∈ done.toList, a.Named P) (hcurrent : Names P current.toList)
    (h : Names P tokens) :
    (readParameters o c done current tokens).Sound (∀ a ∈ ·, a.Named P) := by
  induction tokens generalizing done current with
  | nil => exact sound_cut c
  | cons t rest ih =>
      have hrest : Names P rest := h.suffix (List.suffix_cons t rest)
      unfold readParameters
      split
      · exact ih hdone hcurrent hrest
      · exact ih hdone hcurrent hrest
      · exact ih hdone hcurrent hrest
      · split
        · exact sound_broken rfl
        · rename_i first others hparameter
          split
          · rename_i a ha
            rw [hparameter] at hcurrent
            exact ih (forall_mem_push hdone (ofTokens_named ha hcurrent)) names_nil hrest
          · rename_i fault hfault
            exact sound_of_passable (ofTokens_error_isPassable rfl hfault)
      · split
        · exact sound_broken rfl
        · rename_i first others hparameter
          split
          · rename_i a ha
            rw [hparameter] at hcurrent
            exact forall_mem_push hdone (ofTokens_named ha hcurrent)
          · rename_i fault hfault
            exact sound_of_passable (ofTokens_error_isPassable rfl hfault)
      · exact sound_broken rfl
      · exact sound_broken rfl
      · exact sound_broken rfl
      · exact sound_broken rfl
      · exact ih hdone (hcurrent.push h) hrest

theorem readParameterList_sound (h : Names P tokens) :
    (readParameterList o c tokens).Sound (∀ a ∈ ·, a.Named P) := by
  unfold readParameterList
  split
  · exact sound_cut c
  · rename_i t rest hskip
    have hnames : Names P (t :: rest) := h.suffix (hskip ▸ skipLines_suffix tokens)
    split
    · exact nofun
    · split
      · split
        · exact sound_cut c
        · rename_i u behind hskip'
          have hnames' : Names P (u :: behind) :=
            (hnames.suffix (List.suffix_cons t rest)).suffix (hskip' ▸ skipLines_suffix rest)
          split
          · exact nofun
          · refine readParameters_sound nofun (fun v hv => ?_) hnames'
            rw [List.mem_singleton.mp hv]
            exact hnames t List.mem_cons_self
      · exact readParameters_sound nofun names_nil hnames

/-- No enumerator that is read is empty. -/
theorem readEnumerators_sound {done : Array Bytes} {current : Array UInt8} {multiline : Bool}
    (hdone : ∀ text ∈ done.toList, text ≠ []) :
    (readEnumerators o c done current multiline tokens).Sound (∀ text ∈ ·, text ≠ []) := by
  induction tokens generalizing done current multiline with
  | nil => exact sound_cut c
  | cons t rest ih =>
      unfold readEnumerators
      split
      · exact ih hdone
      · exact ih hdone
      · split
        · exact sound_broken rfl
        · rename_i hempty
          exact ih (forall_mem_push hdone (by simpa using hempty))
      · split
        · exact sound_broken rfl
        · split
          · exact hdone
          · rename_i hempty
            exact forall_mem_push hdone (by simpa using hempty)
      · exact sound_broken rfl
      · exact sound_broken rfl
      · exact sound_broken rfl
      · exact ih hdone

/-! ## Constructs -/

theorem readBody_sound {α : Type} {p : α → Prop} {inside : List Token → Outcome α}
    (hinside : ∀ rest, rest <:+ tokens → (inside rest).Sound p) :
    (readBody c inside tokens).Sound p := by
  unfold readBody
  split
  · exact sound_cut c
  · rename_i t rest hskip
    split
    · exact hinside rest (suffix_of_skipLines hskip)
    · exact sound_broken rfl

theorem readEnumBody_sound : (readEnumBody o c tokens).Sound (∀ text ∈ ·, text ≠ []) :=
  readBody_sound fun _ _ => readEnumerators_sound nofun

theorem readStructBody_sound (h : Names P tokens) :
    (readStructBody o c tokens).Sound (∀ a ∈ ·, a.Named P) :=
  readBody_sound fun _ hrest => readMembers_sound nofun names_nil (h.suffix hrest)

theorem readEnd_sound : (readEnd c tokens).Sound fun _ => True := by
  unfold readEnd
  split
  · exact sound_cut c
  · split
    · trivial
    · exact sound_broken rfl

variable {start : Position}

theorem readEnum_sound (h : Names P tokens) :
    (readEnum o start tokens).Sound (fun e => (Declaration.enum e).Named P) := by
  unfold readEnum
  split
  · exact fun _ => rfl
  · rename_i t rest hskip
    split
    · rename_i hkind
      have hname : P t.text :=
        h.suffix (hskip ▸ skipLayout_suffix tokens) t List.mem_cons_self hkind
      exact readEnumBody_sound.map fun attributes hattributes => ⟨hname, hattributes⟩
    · exact sound_broken rfl

theorem readEnumDeclaration_sound (h : Names P tokens) :
    (readEnumDeclaration o start tokens).Sound (Declaration.Named P) :=
  (readEnum_sound h).andThen fun _ _ _ hnamed => readEnd_sound.map fun _ _ => hnamed

theorem readStructDeclaration_sound (h : Names P tokens) :
    (readStructDeclaration o start tokens).Sound (Declaration.Named P) := by
  unfold readStructDeclaration
  split
  · exact fun _ => rfl
  · rename_i t rest hskip
    split
    · rename_i hkind
      have hname : P t.text :=
        h.suffix (hskip ▸ skipLayout_suffix tokens) t List.mem_cons_self hkind
      exact (readStructBody_sound (h.suffix (suffix_of_skipLayout hskip))).andThen
        fun members _ _ hmembers => readEnd_sound.map fun _ _ => ⟨hname, hmembers⟩
    · exact sound_broken rfl

theorem takeTag_named (h : Names P tokens) : ∀ tag ∈ (takeTag tokens).1, P tag := by
  unfold takeTag
  split
  · exact nofun
  · rename_i t rest hskip
    split
    · rename_i hkind
      rintro tag ⟨⟩
      exact h.suffix (hskip ▸ skipLayout_suffix tokens) t List.mem_cons_self hkind
    · exact nofun

theorem readTypedefName_sound {tag : Option Bytes} {noName : SyntaxError}
    (hnoName : (noName.category != .unterminated) = true) (htag : ∀ name ∈ tag, P name)
    (h : Names P tokens) : (readTypedefName c tag noName tokens).Sound P := by
  unfold readTypedefName
  split
  · exact sound_cut c
  · rename_i t rest hskip
    split
    · rename_i hkind
      have hname : P t.text :=
        h.suffix (hskip ▸ skipLines_suffix tokens) t List.mem_cons_self hkind
      exact readEnd_sound.map fun _ _ => hname
    · split
      · exact readEnd_sound.map fun _ _ => htag _ rfl
      · exact sound_broken hnoName

theorem readTypedefStruct_sound (h : Names P tokens) :
    (readTypedefStruct o start tokens).Sound (Declaration.Named P) := by
  have hbehind := h.suffix (takeTag_suffix tokens)
  refine (readStructBody_sound hbehind).andThen fun members rest hrest hmembers => ?_
  have hnames : Names P rest := hbehind.suffix (hrest ▸ readStructBody_rest_suffix ..)
  exact (readTypedefName_sound rfl (takeTag_named h) hnames).map fun name hname =>
    ⟨hname, hmembers⟩

theorem readTypedefEnum_sound (h : Names P tokens) :
    (readTypedefEnum o start tokens).Sound (Declaration.Named P) := by
  have hbehind := h.suffix (takeTag_suffix tokens)
  refine readEnumBody_sound.andThen fun attributes rest hrest hattributes => ?_
  have hnames : Names P rest := hbehind.suffix (hrest ▸ readEnumBody_rest_suffix ..)
  exact (readTypedefName_sound rfl (takeTag_named h) hnames).map fun name hname =>
    ⟨hname, hattributes⟩

theorem readTypedef_sound (h : Names P tokens) :
    (readTypedef o start tokens).Sound (Declaration.Named P) := by
  unfold readTypedef
  split
  · exact fun _ => rfl
  · rename_i t rest hskip
    have hnames : Names P rest := h.suffix (suffix_of_skipLayout hskip)
    split
    · exact readTypedefStruct_sound hnames
    · split
      · exact readTypedefEnum_sound hnames
      · exact sound_broken rfl

theorem readSignature_sound (h : Names P tokens) :
    (readSignature o c tokens).Sound (∀ a ∈ ·, a.Named P) := by
  unfold readSignature
  split
  · exact sound_cut c
  · rename_i t rest hskip
    split
    · exact readParameterList_sound (h.suffix (suffix_of_skipLayout hskip))
    · exact sound_broken rfl

theorem readPrototype_sound {keyword : Scalar} (h : Names P tokens) :
    (readPrototype o start keyword tokens).Sound (fun p => (Declaration.prototype p).Named P) := by
  have hbehind := h.suffix (takeReturnType_suffix keyword tokens)
  unfold readPrototype
  dsimp only
  split
  · exact fun _ => rfl
  · rename_i t rest hskip
    split
    · rename_i hkind
      have hname : P t.text :=
        hbehind.suffix (hskip ▸ skipLayout_suffix _) t List.mem_cons_self hkind
      exact (readSignature_sound (hbehind.suffix (suffix_of_skipLayout hskip))).map
        fun arguments harguments => ⟨hname, ⟨_, rfl⟩, harguments⟩
    · split
      · exact sound_broken rfl
      · exact sound_broken rfl

theorem readPrototypeEnd_sound {p : Prototype} :
    (readPrototypeEnd start p tokens).Sound fun _ => True := by
  unfold readPrototypeEnd
  dsimp only
  split
  · exact fun _ => rfl
  · split
    · trivial
    · split
      · exact sound_broken rfl
      · exact sound_broken rfl

theorem readPrototypeDeclaration_sound {keyword : Scalar} (h : Names P tokens) :
    (readPrototypeDeclaration o start keyword tokens).Sound (Declaration.Named P) :=
  (readPrototype_sound h).andThen fun _ _ _ hnamed => readPrototypeEnd_sound.map fun _ _ => hnamed

theorem readLinkage_sound {α : Type} {p : α → Prop} {t : Token} :
    (readLinkage t tokens : Outcome α).Sound p := by
  unfold readLinkage
  split
  · exact sound_broken rfl
  · split
    · split
      · exact sound_broken rfl
      · split
        · exact sound_broken rfl
        · exact sound_broken rfl
    · exact sound_broken rfl

end

/-! ## Directives -/

section

variable {P : Bytes → Prop} {s : Bytes} {d : Option Declaration}

theorem Directive.enclosed?_ne_nil {close : UInt8} {name : Bytes}
    (h : Directive.enclosed? close s = some name) : name ≠ [] := by
  unfold Directive.enclosed? at h
  dsimp only at h
  split at h
  · cases h
  · rename_i hempty
    cases h
    intro hnil
    simp [hnil] at hempty

theorem Directive.target?_name_ne_nil {i : Include} (h : Directive.target? s = some i) :
    i.name ≠ [] := by
  unfold Directive.target? at h
  split at h
  · obtain ⟨name, hname, rfl⟩ := Option.map_eq_some_iff.mp h
    exact enclosed?_ne_nil hname
  · obtain ⟨name, hname, rfl⟩ := Option.map_eq_some_iff.mp h
    exact enclosed?_ne_nil hname
  · cases h

theorem Directive.macroFrom_named {kind : MacroKind} (h : Directive.macroFrom kind s = .ok d) :
    ∀ declaration ∈ d, declaration.Named P := by
  unfold Directive.macroFrom at h
  split at h
  · rename_i name hname
    cases h
    rintro _ ⟨⟩
    unfold Directive.macroName? at hname
    split at hname
    · dsimp only at hname
      split at hname
      · rename_i hidentifier
        cases hname
        exact (Bool.and_eq_true_iff.mp hidentifier).2
      · cases hname
    · cases hname
  · cases h

theorem Directive.read_named (h : Directive.read s = .ok d) :
    ∀ declaration ∈ d, declaration.Named P := by
  unfold Directive.read at h
  split at h
  · dsimp only at h
    split at h
    · split at h
      · rename_i htarget
        cases h
        rintro _ ⟨⟩
        exact target?_name_ne_nil htarget
      · cases h
    · split at h
      · exact macroFrom_named h
      · split at h
        · exact macroFrom_named h
        · split at h
          · cases h
            exact nofun
          · cases h
  · cases h

theorem Directive.macroFrom_category {kind : MacroKind} {cause : SyntaxError}
    (h : Directive.macroFrom kind s = .error cause) : cause.category = .recognition := by
  unfold Directive.macroFrom at h
  split at h
  · cases h
  · cases h
    rfl

theorem Directive.read_category {cause : SyntaxError} (h : Directive.read s = .error cause) :
    cause.category = .recognition := by
  unfold Directive.read at h
  split at h
  · dsimp only at h
    split at h
    · split at h
      · cases h
      · cases h
        rfl
    · split at h
      · exact macroFrom_category h
      · split at h
        · exact macroFrom_category h
        · split at h
          · cases h
          · cases h
            rfl
  · cases h
    rfl

theorem parseStatement_named (h : parseStatement s = .ok d) :
    ∀ declaration ∈ d, declaration.Named P := by
  unfold parseStatement at h
  cases hread : Directive.read s.trim with
  | ok value =>
      rw [hread] at h
      cases h
      exact Directive.read_named hread
  | error cause =>
      rw [hread] at h
      cases h

theorem parseStatement_category {fault : Fault} (h : parseStatement s = .error fault) :
    fault.cause.category = .recognition := by
  unfold parseStatement at h
  cases hread : Directive.read s.trim with
  | ok value =>
      rw [hread] at h
      cases h
  | error cause =>
      rw [hread] at h
      cases h
      exact Directive.read_category hread

theorem readDirective_sound {t : Token} {tokens : List Token} :
    (readDirective t tokens).Sound (∀ d ∈ ·, d.Named P) := by
  unfold readDirective
  dsimp only
  split
  · rename_i hstatement
    exact parseStatement_named hstatement
  · rename_i fault hstatement
    refine sound_broken ?_
    rw [parseStatement_category hstatement]
    rfl

/-- Whatever a construct declares is named by tokens, and a construct that the source leaves open
has taken all of it. -/
theorem readConstruct_sound {o : ReadOptions} {t : Token} {tokens : List Token}
    (h : Names P tokens) : (readConstruct o t tokens).Sound (∀ d ∈ ·, d.Named P) := by
  have hsome {x : Outcome Declaration} (hx : x.Sound (Declaration.Named P)) :
      (x.map some).Sound (∀ d ∈ ·, d.Named P) :=
    hx.map fun d hd declaration hmem => by
      cases hmem
      exact hd
  unfold readConstruct
  split
  · exact readDirective_sound
  · split
    · exact hsome (readEnumDeclaration_sound h)
    · exact hsome (readStructDeclaration_sound h)
    · exact hsome (readTypedef_sound h)
    · exact sound_broken rfl
    · exact sound_broken rfl
    · split
      · exact hsome (readPrototypeDeclaration_sound h)
      · split
        · exact readLinkage_sound
        · exact sound_broken rfl

theorem readConstruct_named {o : ReadOptions} {t : Token} {tokens rest : List Token}
    {d : Declaration} (hnames : Names P tokens)
    (h : readConstruct o t tokens = .done (some d) rest) : d.Named P := by
  have hsound : (readConstruct o t tokens).Sound _ := readConstruct_sound hnames
  rw [h] at hsound
  exact hsound d rfl

end

/-! ## The checks of parts -/

/-- The parts of an argument pass the checks for them. -/
def Argument.WellBuilt (a : Argument) : Prop :=
  Argument.make a.name (some a.type) = .ok a

/-- The parts of a declaration pass the checks for its kind. -/
def Declaration.WellBuilt : Declaration → Prop
  | .inclusion i => Include.make i.name i.kind.name = .ok i
  | .macroName m => Macro.make m.name m.kind.name = .ok m
  | .enum e => Enum.make e.name e.attributes = .ok e
  | .struct s => Struct.make s.name s.attributes = .ok s ∧ ∀ a ∈ s.attributes, a.WellBuilt
  | .prototype p =>
    Prototype.make p.name (some p.returnType) p.arguments = .ok p ∧
      ∀ a ∈ p.arguments, a.WellBuilt

theorem IncludeKind.ofName?_name (kind : IncludeKind) :
    IncludeKind.ofName? kind.name = some kind := by
  cases kind <;> decide

theorem MacroKind.ofName?_name (kind : MacroKind) : MacroKind.ofName? kind.name = some kind := by
  cases kind <;> decide

theorem CType.named?_eq_some {type : CType} (h : type.Named Bytes.IsName) :
    CType.named? (some type) = some type := by
  have hname : type.name ≠ [] := by
    cases type with
    | scalar s => cases s <;> decide
    | enum tag =>
        rintro rfl
        cases Bytes.IsName.isIdentifier h
  simp [CType.named?, hname]

theorem Argument.Named.wellBuilt {a : Argument} (h : a.Named Bytes.IsName) : a.WellBuilt := by
  simp [WellBuilt, make, h.name.isIdentifier, CType.named?_eq_some h.type]

theorem Declaration.Named.wellBuilt {d : Declaration} (h : d.Named Bytes.IsName) :
    d.WellBuilt := by
  cases d with
  | inclusion i =>
      have hname : i.name ≠ [] := h
      simp [WellBuilt, Include.make, hname, IncludeKind.ofName?_name]
  | macroName m =>
      have hname : m.name.isIdentifier = true := h
      simp [WellBuilt, Macro.make, hname, MacroKind.ofName?_name]
  | enum e =>
      obtain ⟨hname, hattributes⟩ := h
      have hempty : e.attributes.any List.isEmpty = false := by
        simpa using hattributes
      simp [WellBuilt, Enum.make, hname.isIdentifier, hempty]
  | struct s =>
      obtain ⟨hname, harguments⟩ := h
      refine ⟨?_, fun a ha => (harguments a ha).wellBuilt⟩
      simp [Struct.make, hname.isIdentifier]
  | prototype p =>
      obtain ⟨hname, ⟨s, hs⟩, harguments⟩ := h
      refine ⟨?_, fun a ha => (harguments a ha).wellBuilt⟩
      have htype : CType.named? (some p.returnType) = some p.returnType := by
        rw [hs]
        exact CType.named?_eq_some trivial
      simp [Prototype.make, hname.isIdentifier, htype]

end HeaderBinding
