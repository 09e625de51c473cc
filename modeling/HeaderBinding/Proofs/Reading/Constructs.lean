import HeaderBinding.Proofs.Reading.Arguments
import HeaderBinding.Proofs.Reading.Enumerators
import HeaderBinding.Reading.Construct

/-!
# Constructs are read as the grammar has them

A reader ends with a value and some rest exactly if the tokens before the rest have the form that
the grammar gives to the value. Every form but a directive line ends with a mark of its own, so the
rest does not matter.
-/

namespace HeaderBinding

namespace Outcome

variable {α β : Type}

theorem andThen_eq_done_iff {o : Outcome α} {next : α → List Token → Outcome β} {value : β}
    {rest : List Token} :
    o.andThen next = .done value rest ↔
      ∃ v behind, o = .done v behind ∧ next v behind = .done value rest := by
  cases o with
  | done v behind =>
      constructor
      · intro h
        exact ⟨v, behind, rfl, h⟩
      · intro h
        rcases h with ⟨_, _, ⟨⟩, h⟩
        exact h
  | broken fault behind => simp [andThen]

theorem map_eq_done_iff {o : Outcome α} {f : α → β} {value : β} {rest : List Token} :
    o.map f = .done value rest ↔ ∃ v, o = .done v rest ∧ f v = value := by
  rw [map, andThen_eq_done_iff]
  constructor
  · intro h
    rcases h with ⟨v, behind, ho, ⟨⟩⟩
    exact ⟨v, ho, rfl⟩
  · intro h
    rcases h with ⟨v, ho, rfl⟩
    exact ⟨v, rest, ho, rfl⟩

end Outcome

namespace Grammar

/-! ## Bodies and endings -/

theorem readBody_eq_done_iff {α : Type} {c : Construct} {inside : List Token → Outcome α}
    {tokens rest : List Token} {value : α} :
    readBody c inside tokens = .done value rest ↔
      ∃ gap left behind, tokens = gap ++ left :: behind ∧ solid gap = [] ∧
        left.kind = .leftBrace ∧ inside behind = .done value rest := by
  rw [readBody]
  split
  · rename_i hskip
    simp only [Construct.cut, reduceCtorEq, false_iff]
    intro h
    rcases h with ⟨gap, left, behind, rfl, hgap, hleft, _⟩
    rw [skipLines_append hgap] at hskip
    simp [skipLines, hleft, TokenKind.isLayoutOrNewline, TokenKind.isLayout] at hskip
  · rename_i t behind hskip
    constructor
    · intro h
      obtain ⟨gap, rfl, hgap, _⟩ := skipLines_eq_cons_iff.mp hskip
      split at h
      · rename_i ht
        exact ⟨gap, t, behind, rfl, hgap, ht, h⟩
      · cases h
    · intro h
      rcases h with ⟨gap, left, behind', rfl, hgap, hleft, h⟩
      have hcons : skipLines (gap ++ left :: behind') = left :: behind' :=
        skipLines_eq_cons_iff.mpr ⟨gap, rfl, hgap, by rw [hleft]; rfl⟩
      obtain ⟨rfl, rfl⟩ := List.cons.inj (hcons.symm.trans hskip)
      simp [hleft, h]

/-- A reader of what a brace encloses reads a block. -/
theorem readBody_eq_done_iff_block {α : Type} {c : Construct} {inside : List Token → Outcome α}
    {form : List Token → α → Prop}
    (hinside : ∀ {tokens rest value}, inside tokens = .done value rest ↔
      Encloses .rightBrace (form · value) tokens rest)
    {tokens rest : List Token} {value : α} :
    readBody c inside tokens = .done value rest ↔
      ∃ block, tokens = block ++ rest ∧ Block form block value := by
  rw [readBody_eq_done_iff]
  constructor
  · intro h
    rcases h with ⟨gap, left, _, rfl, hgap, hleft, h⟩
    obtain ⟨body, right, rfl, hright, hbody⟩ := hinside.mp h
    exact ⟨gap ++ left :: (body ++ [right]), by simp, .mk hgap hleft hbody hright⟩
  · intro h
    rcases h with ⟨_, rfl, @⟨gap, body, left, right, _, hgap, hleft, hbody, hright⟩⟩
    refine ⟨gap, left, body ++ right :: rest, by simp, hgap, hleft, ?_⟩
    exact hinside.mpr ⟨body, right, rfl, hright, hbody⟩

theorem readStructBody_eq_done_iff {o : ReadOptions} {c : Construct} {tokens rest : List Token}
    {members : List Argument} :
    readStructBody o c tokens = .done members rest ↔
      ∃ block, tokens = block ++ rest ∧ Block (StructBody o) block members := by
  apply readBody_eq_done_iff_block
  intro tokens rest members
  rw [readMembers_eq_done_iff (by simp)]
  simp [StructBody]

theorem readEnumBody_eq_done_iff {o : ReadOptions} {c : Construct} {tokens rest : List Token}
    {attributes : List Bytes} :
    readEnumBody o c tokens = .done attributes rest ↔
      ∃ block, tokens = block ++ rest ∧ Block (EnumBody o) block attributes := by
  apply readBody_eq_done_iff_block
  intro tokens rest attributes
  have hnil : ∀ u ∈ ([] : List Token), endsEnumerator u = false := by simp
  rw [readEnumerators_eq_done_iff hnil rfl]
  simp [EnumBody, and_comm]

/-- An ending without a name is the next token that counts, if that is a `;`. -/
theorem ending_none_iff {tokens rest : List Token} :
    (∃ tail, tokens = tail ++ rest ∧ Ending tail none) ↔
      ∃ t, skipLines tokens = t :: rest ∧ t.kind = .semicolon := by
  constructor
  · intro h
    rcases h with ⟨_, rfl, @⟨gap, _, t, hgap, _, ht⟩⟩
    refine ⟨t, ?_, ht⟩
    rw [List.append_assoc]
    exact skipLines_append_cons hgap (by rw [ht]; rfl)
  · intro h
    rcases h with ⟨t, hskip, ht⟩
    obtain ⟨gap, rfl, hgap, _⟩ := skipLines_eq_cons_iff.mp hskip
    exact ⟨gap ++ [t], by simp, .mk hgap (by simp) ht⟩

theorem readEnd_eq_done_iff {c : Construct} {tokens rest : List Token} {value : Unit} :
    readEnd c tokens = .done value rest ↔ ∃ tail, tokens = tail ++ rest ∧ Ending tail none := by
  rw [ending_none_iff]
  rw [readEnd]
  split
  · rename_i hskip
    simp [hskip, Construct.cut]
  · rename_i t behind hskip
    split
    · rename_i ht
      simp [hskip, ht, and_assoc]
    · rename_i ht
      simp [hskip, ht, and_assoc]

/-- Behind a body stands a name or nothing, and the tag serves as the name if there is none. -/
theorem readTypedefName_eq_done_iff {c : Construct} {tag : Option Bytes} {noName : SyntaxError}
    {tokens rest : List Token} {text : Bytes} :
    readTypedefName c tag noName tokens = .done text rest ↔
      ∃ tail name, tokens = tail ++ rest ∧ Ending tail name ∧
        (name.map Token.text).or tag = some text := by
  constructor
  · intro h
    rw [readTypedefName] at h
    split at h
    · cases h
    · rename_i t behind hskip
      obtain ⟨gap, rfl, hgap, ht⟩ := skipLines_eq_cons_iff.mp hskip
      split at h
      · rename_i hname
        obtain ⟨_, hend, rfl⟩ := Outcome.map_eq_done_iff.mp h
        obtain ⟨_, rfl, @⟨front, _, u, hfront, _, hu⟩⟩ := readEnd_eq_done_iff.mp hend
        refine ⟨gap ++ t :: front ++ [u], some t, by simp, .mk ?_ ?_ hu, by simp⟩
        · rw [solid_append, solid_cons_of_solid ht, hgap, hfront]
          rfl
        · simpa using hname
      · split at h
        · obtain ⟨_, hend, rfl⟩ := Outcome.map_eq_done_iff.mp h
          obtain ⟨_, hall, @⟨front, _, u, hfront, _, hu⟩⟩ := readEnd_eq_done_iff.mp hend
          refine ⟨gap ++ front ++ [u], none, by simp [hall], .mk ?_ (by simp) hu, by simp⟩
          rw [solid_append, hgap, hfront]
          rfl
        · cases h
  · intro h
    rcases h with ⟨_, name, rfl, @⟨front, _, u, hfront, hname, hu⟩, htext⟩
    have hsemicolon : u.kind.isLayoutOrNewline = false := by rw [hu]; rfl
    have hend : ∀ gap, solid gap = [] → readEnd c (gap ++ u :: rest) = .done () rest := by
      intro gap hgap
      exact readEnd_eq_done_iff.mpr ⟨gap ++ [u], by simp, .mk hgap (by simp) hu⟩
    cases name with
    | none =>
        have hskip : skipLines (front ++ u :: rest) = u :: rest :=
          skipLines_append_cons hfront hsemicolon
        have htag : tag = some text := by simpa using htext
        have hnil := hend [] rfl
        rw [List.nil_append] at hnil
        simp [readTypedefName, hskip, hu, htag, hnil, Outcome.map, Outcome.andThen]
    | some n =>
        obtain ⟨gap, gap', rfl, hgap, hn, hgap'⟩ := solid_eq_cons hfront
        have hskip : skipLines (gap ++ n :: (gap' ++ u :: rest)) = n :: (gap' ++ u :: rest) :=
          skipLines_append_cons hgap hn
        have hnkind : n.kind = .identifier := hname n rfl
        have hntext : n.text = text := by simpa using htext
        simp [readTypedefName, hskip, hnkind, hntext, hend gap' hgap', Outcome.map,
          Outcome.andThen]

/-! ## Enums and structs -/

theorem solid_eq_nil_of_significant {tokens : List Token} (h : significant tokens = []) :
    solid tokens = [] := by
  simp only [significant, solid, List.filter_eq_nil_iff] at h ⊢
  intro t ht
  have hlayout := h t ht
  simp_all [TokenKind.isLayoutOrNewline]

/-- Layout before a block is part of the gap before its brace. -/
theorem Block.layout_append {α : Type} {form : List Token → α → Prop} {block layout : List Token}
    {value : α} (h : Block form block value) (hlayout : significant layout = []) :
    Block form (layout ++ block) value := by
  obtain @⟨gap, body, left, right, _, hgap, hleft, hbody, hright⟩ := h
  rw [← List.append_assoc]
  refine .mk ?_ hleft hbody hright
  rw [solid_append, solid_eq_nil_of_significant hlayout, hgap]
  rfl

/-- An enum is read up to its closing brace, and is an item with any ending. -/
theorem readEnum_item {o : ReadOptions} {keyword : Token} {tokens rest : List Token} {e : Enum}
    (hkeyword : keyword.kind = .enumKeyword)
    (h : readEnum o keyword.position tokens = .done e rest) :
    ∃ front right, tokens = front ++ right :: rest ∧ right.kind = .rightBrace ∧
      ∀ tail, Ending tail none → Item o (keyword :: (front ++ right :: tail)) (some (.enum e)) := by
  rw [readEnum] at h
  split at h
  · cases h
  · rename_i name behind hskip
    obtain ⟨layout, rfl, hlayout, hname⟩ := skipLayout_eq_cons_iff.mp hskip
    split at h
    · rename_i hidentifier
      obtain ⟨attributes, hbody, rfl⟩ := Outcome.map_eq_done_iff.mp h
      obtain ⟨block, rfl, hblock⟩ := readEnumBody_eq_done_iff.mp hbody
      obtain @⟨gap, body, left, right, _, hgap, hleft, hbody, hright⟩ := hblock
      have hhead : significant (layout ++ [name]) = [name] := by
        rw [significant_append, hlayout, significant_cons hname]
        rfl
      refine ⟨(layout ++ [name]) ++ (gap ++ left :: body), right, by simp, hright, ?_⟩
      intro tail htail
      have hitem : Item o _ _ := .enum hkeyword hhead hidentifier (.mk hgap hleft hbody hright) htail
      simpa using hitem
    · cases h

theorem readEnumDeclaration_item {o : ReadOptions} {keyword : Token} {tokens rest : List Token}
    {d : Declaration} (hkeyword : keyword.kind = .enumKeyword)
    (h : readEnumDeclaration o keyword.position tokens = .done d rest) :
    ∃ front, tokens = front ++ rest ∧ Item o (keyword :: front) (some d) := by
  obtain ⟨e, behind, henum, hnext⟩ := Outcome.andThen_eq_done_iff.mp h
  obtain ⟨_, hend, rfl⟩ := Outcome.map_eq_done_iff.mp hnext
  obtain ⟨tail, rfl, htail⟩ := readEnd_eq_done_iff.mp hend
  obtain ⟨front, right, rfl, -, hitem⟩ := readEnum_item hkeyword henum
  exact ⟨front ++ right :: tail, by simp, hitem tail htail⟩

theorem readEnumDeclaration_of_block {o : ReadOptions} (start : Position) {name : Token}
    {head block tail : List Token} {attributes : List Bytes} (rest : List Token)
    (hhead : significant head = [name]) (hname : name.kind = .identifier)
    (hblock : Block (EnumBody o) block attributes) (htail : Ending tail none) :
    readEnumDeclaration o start (head ++ (block ++ tail) ++ rest) =
      .done (.enum ⟨name.text, attributes⟩) rest := by
  obtain ⟨layout, layout', rfl, hlayout, hsolid, hlayout'⟩ := significant_eq_cons hhead
  have hskip : skipLayout (layout ++ name :: (layout' ++ (block ++ (tail ++ rest)))) =
      name :: (layout' ++ (block ++ (tail ++ rest))) :=
    skipLayout_append_cons hlayout hsolid
  have hbody (c : Construct) : readEnumBody o c (layout' ++ (block ++ (tail ++ rest))) =
      .done attributes (tail ++ rest) :=
    readEnumBody_eq_done_iff.mpr
      ⟨layout' ++ block, by simp, hblock.layout_append hlayout'⟩
  have hend (c : Construct) : readEnd c (tail ++ rest) = .done () rest :=
    readEnd_eq_done_iff.mpr ⟨tail, rfl, htail⟩
  simp [readEnumDeclaration, readEnum, hskip, hname, hbody, hend, Outcome.map, Outcome.andThen]

theorem readStructDeclaration_item {o : ReadOptions} {keyword : Token} {tokens rest : List Token}
    {d : Declaration} (hkeyword : keyword.kind = .structKeyword)
    (h : readStructDeclaration o keyword.position tokens = .done d rest) :
    ∃ front, tokens = front ++ rest ∧ Item o (keyword :: front) (some d) := by
  rw [readStructDeclaration] at h
  split at h
  · cases h
  · rename_i name behind hskip
    obtain ⟨layout, rfl, hlayout, hname⟩ := skipLayout_eq_cons_iff.mp hskip
    split at h
    · rename_i hidentifier
      obtain ⟨members, _, hbody, hnext⟩ := Outcome.andThen_eq_done_iff.mp h
      obtain ⟨_, hend, rfl⟩ := Outcome.map_eq_done_iff.mp hnext
      obtain ⟨tail, rfl, htail⟩ := readEnd_eq_done_iff.mp hend
      obtain ⟨block, rfl, hblock⟩ := readStructBody_eq_done_iff.mp hbody
      have hhead : significant (layout ++ [name]) = [name] := by
        rw [significant_append, hlayout, significant_cons hname]
        rfl
      exact ⟨(layout ++ [name]) ++ (block ++ tail), by simp,
        .struct hkeyword hhead hidentifier hblock htail⟩
    · cases h

theorem readStructDeclaration_of_block {o : ReadOptions} (start : Position) {name : Token}
    {head block tail : List Token} {members : List Argument} (rest : List Token)
    (hhead : significant head = [name]) (hname : name.kind = .identifier)
    (hblock : Block (StructBody o) block members) (htail : Ending tail none) :
    readStructDeclaration o start (head ++ (block ++ tail) ++ rest) =
      .done (.struct ⟨name.text, members⟩) rest := by
  obtain ⟨layout, layout', rfl, hlayout, hsolid, hlayout'⟩ := significant_eq_cons hhead
  have hskip : skipLayout (layout ++ name :: (layout' ++ (block ++ (tail ++ rest)))) =
      name :: (layout' ++ (block ++ (tail ++ rest))) :=
    skipLayout_append_cons hlayout hsolid
  have hbody (c : Construct) : readStructBody o c (layout' ++ (block ++ (tail ++ rest))) =
      .done members (tail ++ rest) :=
    readStructBody_eq_done_iff.mpr
      ⟨layout' ++ block, by simp, hblock.layout_append hlayout'⟩
  have hend (c : Construct) : readEnd c (tail ++ rest) = .done () rest :=
    readEnd_eq_done_iff.mpr ⟨tail, rfl, htail⟩
  simp [readStructDeclaration, hskip, hname, hbody, hend, Outcome.map, Outcome.andThen]

/-! ## Type definitions -/

/-- The tag that is taken is the only token before what is left. -/
theorem takeTag_spec (tokens : List Token) :
    ∃ (head : List Token) (tag : Option Token), tokens = head ++ (takeTag tokens).2 ∧
      significant head = tag.toList ∧ (∀ t ∈ tag, t.kind = .identifier) ∧
      (takeTag tokens).1 = tag.map Token.text := by
  rw [takeTag]
  split
  · rename_i hskip
    exact ⟨tokens, none, by simp, skipLayout_eq_nil_iff.mp hskip, by simp, rfl⟩
  · rename_i t behind hskip
    obtain ⟨layout, rfl, hlayout, ht⟩ := skipLayout_eq_cons_iff.mp hskip
    split
    · rename_i hidentifier
      refine ⟨layout ++ [t], some t, by simp, ?_, by simpa using hidentifier, rfl⟩
      rw [significant_append, hlayout, significant_cons ht]
      rfl
    · exact ⟨layout, none, rfl, hlayout, by simp, rfl⟩

theorem readTypedef_item {o : ReadOptions} {first : Token} {tokens rest : List Token}
    {d : Declaration} (hfirst : first.kind = .typedefKeyword)
    (h : readTypedef o first.position tokens = .done d rest) :
    ∃ front, tokens = front ++ rest ∧ Item o (first :: front) (some d) := by
  rw [readTypedef] at h
  split at h
  · cases h
  · rename_i keyword behind hskip
    obtain ⟨layout, rfl, hlayout, hsolid⟩ := skipLayout_eq_cons_iff.mp hskip
    obtain ⟨head, tag, hbehind, hhead, htag, htext⟩ := takeTag_spec behind
    have hwhole : significant (layout ++ keyword :: head) = keyword :: tag.toList := by
      rw [significant_append, hlayout, significant_cons hsolid, hhead]
      rfl
    -- the last of the two names is the one whose text was read
    have hlast : ∀ {name : Option Token} {text : Bytes},
        (name.map Token.text).or (takeTag behind).1 = some text →
        ∃ last, name.or tag = some last ∧ last.text = text := by
      intro name text h
      rw [htext, ← Option.map_or] at h
      exact Option.map_eq_some_iff.mp h
    split at h
    · rename_i hkeyword
      obtain ⟨members, _, hbody, hnext⟩ := Outcome.andThen_eq_done_iff.mp h
      obtain ⟨text, hend, rfl⟩ := Outcome.map_eq_done_iff.mp hnext
      obtain ⟨tail, name, rfl, htail, hname⟩ := readTypedefName_eq_done_iff.mp hend
      obtain ⟨block, hall, hblock⟩ := readStructBody_eq_done_iff.mp hbody
      obtain ⟨last, hor, rfl⟩ := hlast hname
      refine ⟨(layout ++ keyword :: head) ++ (block ++ tail), ?_,
        .typedefStruct hfirst hwhole hkeyword htag hblock htail hor⟩
      rw [hbehind, hall]
      simp
    · split at h
      · rename_i hkeyword
        obtain ⟨attributes, _, hbody, hnext⟩ := Outcome.andThen_eq_done_iff.mp h
        obtain ⟨text, hend, rfl⟩ := Outcome.map_eq_done_iff.mp hnext
        obtain ⟨tail, name, rfl, htail, hname⟩ := readTypedefName_eq_done_iff.mp hend
        obtain ⟨block, hall, hblock⟩ := readEnumBody_eq_done_iff.mp hbody
        obtain ⟨last, hor, rfl⟩ := hlast hname
        refine ⟨(layout ++ keyword :: head) ++ (block ++ tail), ?_,
          .typedefEnum hfirst hwhole hkeyword htag hblock htail hor⟩
        rw [hbehind, hall]
        simp
      · cases h

theorem skipLines_skipLayout (tokens : List Token) :
    skipLines (skipLayout tokens) = skipLines tokens := by
  induction tokens with
  | nil => rfl
  | cons t tokens ih =>
      by_cases ht : t.kind.isLayout = true
      · have hblank : t.kind.isLayoutOrNewline = true := by simp [TokenKind.isLayoutOrNewline, ht]
        have hleft : skipLayout (t :: tokens) = skipLayout tokens := by simp [skipLayout, ht]
        have hright : skipLines (t :: tokens) = skipLines tokens := by simp [skipLines, hblank]
        rw [hleft, hright, ih]
      · have hleft : skipLayout (t :: tokens) = t :: tokens := by simp [skipLayout, ht]
        rw [hleft]

/-- Before a block the tag is taken if there is one, and the block is left to be read. -/
theorem takeTag_append {α : Type} {form : List Token → α → Prop} {tag : Option Token}
    {head block : List Token} {value : α} (rest : List Token)
    (hhead : significant head = tag.toList)
    (htag : ∀ t ∈ tag, t.kind = .identifier) (hblock : Block form block value) :
    (takeTag (head ++ (block ++ rest))).1 = tag.map Token.text ∧
      skipLines (takeTag (head ++ (block ++ rest))).2 = skipLines (block ++ rest) := by
  cases tag with
  | none =>
      have hbehind := skipLines_skipLayout (block ++ rest)
      rw [takeTag]
      rw [skipLayout_append hhead]
      split
      · rename_i hskip
        exact ⟨rfl, by rw [← hbehind, hskip]⟩
      · rename_i u behind hskip
        have hne : u.kind ≠ .identifier := by
          intro hu
          obtain @⟨gap, body, left, right, _, hgap, hleft, _, _⟩ := hblock
          have hfirst : skipLines (gap ++ left :: (body ++ [right]) ++ rest) =
              left :: (body ++ [right] ++ rest) := by
            rw [List.append_assoc]
            exact skipLines_append_cons hgap (by rw [hleft]; rfl)
          have hsecond : skipLines (u :: behind) = u :: behind := by
            simp [skipLines, hu, TokenKind.isLayoutOrNewline, TokenKind.isLayout]
          rw [hskip, hsecond, hfirst] at hbehind
          rw [(List.cons.inj hbehind).1, hleft] at hu
          cases hu
        rw [if_neg hne]
        exact ⟨rfl, by rw [← hbehind, hskip]⟩
  | some t =>
      obtain ⟨layout, layout', rfl, hlayout, hsolid, hlayout'⟩ := significant_eq_cons hhead
      have hskip : skipLayout (layout ++ t :: (layout' ++ (block ++ rest))) =
          t :: (layout' ++ (block ++ rest)) :=
        skipLayout_append_cons hlayout hsolid
      have hkind : t.kind = .identifier := htag t rfl
      simp only [takeTag, List.append_assoc, List.cons_append, hskip, hkind, ↓reduceIte]
      exact ⟨rfl, skipLines_append (solid_eq_nil_of_significant hlayout') _⟩

theorem readBody_of_skipLines {α : Type} {c : Construct} {inside : List Token → Outcome α}
    {tokens tokens' : List Token} (h : skipLines tokens = skipLines tokens') :
    readBody c inside tokens = readBody c inside tokens' := by
  unfold readBody
  rw [h]

theorem readTypedefStruct_of_block {o : ReadOptions} (start : Position) {tag name : Option Token}
    {last : Token} {head block tail : List Token} {members : List Argument} (rest : List Token)
    (hhead : significant head = tag.toList) (htag : ∀ t ∈ tag, t.kind = .identifier)
    (hblock : Block (StructBody o) block members) (htail : Ending tail name)
    (hlast : name.or tag = some last) :
    readTypedefStruct o start (head ++ (block ++ (tail ++ rest))) =
      .done (.struct ⟨last.text, members⟩) rest := by
  obtain ⟨hfirst, hbehind⟩ := takeTag_append (tail ++ rest) hhead htag hblock
  have hbody (c : Construct) :
      readStructBody o c (takeTag (head ++ (block ++ (tail ++ rest)))).2 =
        .done members (tail ++ rest) :=
    (readBody_of_skipLines hbehind).trans (readStructBody_eq_done_iff.mpr ⟨block, rfl, hblock⟩)
  have hname (c : Construct) (noName : SyntaxError) :
      readTypedefName c (tag.map Token.text) noName (tail ++ rest) = .done last.text rest := by
    refine readTypedefName_eq_done_iff.mpr ⟨tail, name, rfl, htail, ?_⟩
    rw [← Option.map_or, hlast]
    rfl
  simp [readTypedefStruct, hbody, hfirst, hname, Outcome.map, Outcome.andThen]

theorem readTypedefEnum_of_block {o : ReadOptions} (start : Position) {tag name : Option Token}
    {last : Token} {head block tail : List Token} {attributes : List Bytes} (rest : List Token)
    (hhead : significant head = tag.toList) (htag : ∀ t ∈ tag, t.kind = .identifier)
    (hblock : Block (EnumBody o) block attributes) (htail : Ending tail name)
    (hlast : name.or tag = some last) :
    readTypedefEnum o start (head ++ (block ++ (tail ++ rest))) =
      .done (.enum ⟨last.text, attributes⟩) rest := by
  obtain ⟨hfirst, hbehind⟩ := takeTag_append (tail ++ rest) hhead htag hblock
  have hbody (c : Construct) :
      readEnumBody o c (takeTag (head ++ (block ++ (tail ++ rest)))).2 =
        .done attributes (tail ++ rest) :=
    (readBody_of_skipLines hbehind).trans (readEnumBody_eq_done_iff.mpr ⟨block, rfl, hblock⟩)
  have hname (c : Construct) (noName : SyntaxError) :
      readTypedefName c (tag.map Token.text) noName (tail ++ rest) = .done last.text rest := by
    refine readTypedefName_eq_done_iff.mpr ⟨tail, name, rfl, htail, ?_⟩
    rw [← Option.map_or, hlast]
    rfl
  simp [readTypedefEnum, hbody, hfirst, hname, Outcome.map, Outcome.andThen]

/-! ## Prototypes -/

/-- The return type is spelled by its first keyword and the tokens before what is left. -/
theorem takeReturnType_spec {first : Token} {keyword : Scalar} (tokens : List Token)
    (hkeyword : Scalar.ofKeyword? first.kind = some keyword) :
    ∃ head, tokens = head ++ (takeReturnType keyword tokens).2 ∧
      ScalarType (first.kind :: (significant head).map Token.kind)
        (takeReturnType keyword tokens).1 := by
  rw [takeReturnType]
  split
  · rename_i hskip
    have hlayout := skipLayout_eq_nil_iff.mp hskip
    exact ⟨tokens, by simp, scalarType_iff.mpr (.inl ⟨_, by simp [hlayout], hkeyword⟩)⟩
  · rename_i t behind hskip
    obtain ⟨layout, rfl, hlayout, ht⟩ := skipLayout_eq_cons_iff.mp hskip
    split
    · rename_i hlong
      refine ⟨layout ++ [t], by simp, ?_⟩
      have hfirst : first.kind = .longKeyword := by
        rw [hlong.1] at hkeyword
        revert hkeyword
        cases first.kind <;> simp [Scalar.ofKeyword?]
      have hhead : significant (layout ++ [t]) = [t] := by
        rw [significant_append, hlayout, significant_cons ht]
        rfl
      rw [hhead, hfirst, List.map_singleton, hlong.2]
      exact .longLong
    · exact ⟨layout, rfl, scalarType_iff.mpr (.inl ⟨_, by simp [hlayout], hkeyword⟩)⟩

theorem readSignature_eq_done_iff {o : ReadOptions} {c : Construct} {tokens rest : List Token}
    {parameters : List Argument} :
    readSignature o c tokens = .done parameters rest ↔
      ∃ layout left behind, tokens = layout ++ left :: behind ∧ significant layout = [] ∧
        left.kind = .leftParen ∧ readParameterList o c behind = .done parameters rest := by
  constructor
  · intro h
    rw [readSignature] at h
    split at h
    · cases h
    · rename_i t behind hskip
      obtain ⟨layout, rfl, hlayout, _⟩ := skipLayout_eq_cons_iff.mp hskip
      split at h
      · rename_i ht
        exact ⟨layout, t, behind, rfl, hlayout, ht, h⟩
      · cases h
  · intro h
    rcases h with ⟨layout, left, behind, rfl, hlayout, hleft, h⟩
    have hskip : skipLayout (layout ++ left :: behind) = left :: behind :=
      skipLayout_append_cons hlayout (by rw [hleft]; rfl)
    simp [readSignature, hskip, hleft, h]

theorem readPrototypeEnd_eq_done_iff {start : Position} {p : Prototype} {tokens rest : List Token}
    {value : Unit} :
    readPrototypeEnd start p tokens = .done value rest ↔
      ∃ tail, tokens = tail ++ rest ∧ Ending tail none := by
  rw [ending_none_iff]
  unfold readPrototypeEnd
  dsimp only
  split
  · rename_i hskip
    simp [hskip]
  · rename_i t behind hskip
    split
    · rename_i ht
      simp [hskip, ht, and_assoc]
    · rename_i ht
      split <;> simp [hskip, ht, and_assoc]

/-- A prototype is read up to its closing parenthesis, and is an item with any ending. -/
theorem readPrototype_item {o : ReadOptions} {first : Token} {keyword : Scalar}
    {tokens rest : List Token} {p : Prototype}
    (hkeyword : Scalar.ofKeyword? first.kind = some keyword)
    (h : readPrototype o first.position keyword tokens = .done p rest) :
    ∃ front right, tokens = front ++ right :: rest ∧ right.kind = .rightParen ∧
      ∀ tail, Ending tail none →
        Item o (first :: (front ++ right :: tail)) (some (.prototype p)) := by
  obtain ⟨head, hhead, htype⟩ := takeReturnType_spec tokens hkeyword
  unfold readPrototype at h
  dsimp only at h
  split at h
  · cases h
  · rename_i name behind hskip
    obtain ⟨layout, hbehind, hlayout, hname⟩ := skipLayout_eq_cons_iff.mp hskip
    split at h
    · rename_i hidentifier
      obtain ⟨parameters, hparameters, rfl⟩ := Outcome.map_eq_done_iff.mp h
      obtain ⟨layout', left, rest', rfl, hlayout', hleft, hlist⟩ :=
        readSignature_eq_done_iff.mp hparameters
      obtain ⟨body, right, rfl, hright, hbody⟩ := readParameterList_eq_done_iff.mp hlist
      have hwhole : significant (head ++ layout ++ name :: layout') =
          significant head ++ [name] := by
        rw [significant_append, significant_append, hlayout, significant_cons hname, hlayout',
          List.append_nil]
      refine ⟨(head ++ layout ++ name :: layout') ++ left :: body, right, ?_, hright, ?_⟩
      · rw [hhead, hbehind]
        simp
      · intro tail htail
        have hitem : Item o _ _ :=
          .prototype htype hwhole hidentifier hleft hbody hright htail
        simpa using hitem
    · split at h <;> cases h

theorem readPrototypeDeclaration_item {o : ReadOptions} {first : Token} {keyword : Scalar}
    {tokens rest : List Token} {d : Declaration}
    (hkeyword : Scalar.ofKeyword? first.kind = some keyword)
    (h : readPrototypeDeclaration o first.position keyword tokens = .done d rest) :
    ∃ front, tokens = front ++ rest ∧ Item o (first :: front) (some d) := by
  obtain ⟨p, behind, hp, hnext⟩ := Outcome.andThen_eq_done_iff.mp h
  obtain ⟨_, hend, rfl⟩ := Outcome.map_eq_done_iff.mp hnext
  obtain ⟨tail, rfl, htail⟩ := readPrototypeEnd_eq_done_iff.mp hend
  obtain ⟨front, right, rfl, -, hitem⟩ := readPrototype_item hkeyword hp
  exact ⟨front ++ right :: tail, by simp, hitem tail htail⟩

/-- A return type in front of a name is taken as it is spelled, and the name is left. -/
theorem takeReturnType_append {first name : Token} {s : Scalar} {type head : List Token}
    (rest : List Token) (htype : ScalarType (first.kind :: type.map Token.kind) s)
    (hhead : significant head = type ++ [name]) (hname : name.kind = .identifier) :
    ∃ keyword layout, Scalar.ofKeyword? first.kind = some keyword ∧ significant layout = [] ∧
      (takeReturnType keyword (head ++ rest)).1 = s ∧
      skipLayout (takeReturnType keyword (head ++ rest)).2 = name :: (layout ++ rest) := by
  have hsolid : name.kind.isLayout = false := by rw [hname]; rfl
  rcases scalarType_iff.mp htype with ⟨k, hkinds, hkeyword⟩ | ⟨hkinds, rfl⟩
  · obtain ⟨rfl, hnil⟩ := List.cons.inj hkinds
    rw [List.map_eq_nil_iff] at hnil
    subst hnil
    obtain ⟨layout, layout', rfl, hlayout, _, hlayout'⟩ := significant_eq_cons hhead
    have hskip : skipLayout (layout ++ name :: (layout' ++ rest)) = name :: (layout' ++ rest) :=
      skipLayout_append_cons hlayout hsolid
    have hself : skipLayout (name :: (layout' ++ rest)) = name :: (layout' ++ rest) := by
      simp [skipLayout, hsolid]
    refine ⟨s, layout', hkeyword, hlayout', ?_, ?_⟩
    · simp [takeReturnType, hskip, hname]
    · simp [takeReturnType, hskip, hname, hself]
  · obtain ⟨hfirst, hothers⟩ := List.cons.inj hkinds
    obtain ⟨second, rfl, hsecond⟩ := List.map_eq_singleton_iff.mp hothers
    obtain ⟨layout, behind, rfl, hlayout, hsecond', hbehind⟩ := significant_eq_cons hhead
    obtain ⟨layout', layout'', rfl, hlayout', _, hlayout''⟩ := significant_eq_cons hbehind
    have hskip : skipLayout (layout ++ second :: (layout' ++ name :: (layout'' ++ rest))) =
        second :: (layout' ++ name :: (layout'' ++ rest)) :=
      skipLayout_append_cons hlayout hsecond'
    have hskip' : skipLayout (layout' ++ name :: (layout'' ++ rest)) = name :: (layout'' ++ rest) :=
      skipLayout_append_cons hlayout' hsolid
    refine ⟨.long, layout'', by rw [hfirst]; rfl, hlayout'', ?_, ?_⟩
    · simp [takeReturnType, hskip, hsecond]
    · simp [takeReturnType, hskip, hsecond, hskip']

/-- A prototype is read up to the closing parenthesis, whatever follows. -/
theorem readPrototype_of_form {o : ReadOptions} (start : Position) {first name left right : Token}
    {type head body : List Token} {s : Scalar} {parameters : List Argument} (rest : List Token)
    (htype : ScalarType (first.kind :: type.map Token.kind) s)
    (hhead : significant head = type ++ [name]) (hname : name.kind = .identifier)
    (hleft : left.kind = .leftParen) (hbody : ParameterList o (solid body) parameters)
    (hright : right.kind = .rightParen) :
    ∃ keyword, Scalar.ofKeyword? first.kind = some keyword ∧
      readPrototype o start keyword (head ++ left :: (body ++ right :: rest)) =
        .done ⟨name.text, .scalar s, parameters⟩ rest := by
  obtain ⟨keyword, layout, hkeyword, hlayout, hs, hskip⟩ :=
    takeReturnType_append (left :: (body ++ right :: rest)) htype hhead hname
  have hlist (c : Construct) : readParameterList o c (body ++ right :: rest) =
      .done parameters rest :=
    readParameterList_eq_done_iff.mpr ⟨body, right, rfl, hright, hbody⟩
  have hsignature (c : Construct) :
      readSignature o c (layout ++ left :: (body ++ right :: rest)) = .done parameters rest :=
    readSignature_eq_done_iff.mpr ⟨layout, left, _, rfl, hlayout, hleft, hlist c⟩
  refine ⟨keyword, hkeyword, ?_⟩
  simp [readPrototype, hs, hskip, hname, hsignature, Outcome.map, Outcome.andThen]

theorem readPrototypeDeclaration_of_form {o : ReadOptions} (start : Position)
    {first name left right : Token} {type head body tail : List Token} {s : Scalar}
    {parameters : List Argument} (rest : List Token)
    (htype : ScalarType (first.kind :: type.map Token.kind) s)
    (hhead : significant head = type ++ [name]) (hname : name.kind = .identifier)
    (hleft : left.kind = .leftParen) (hbody : ParameterList o (solid body) parameters)
    (hright : right.kind = .rightParen) (htail : Ending tail none) :
    ∃ keyword, Scalar.ofKeyword? first.kind = some keyword ∧
      readPrototypeDeclaration o start keyword (head ++ left :: (body ++ right :: tail) ++ rest) =
        .done (.prototype ⟨name.text, .scalar s, parameters⟩) rest := by
  obtain ⟨keyword, hkeyword, hread⟩ :=
    readPrototype_of_form start (tail ++ rest) htype hhead hname hleft hbody hright
  have hend (p : Prototype) : readPrototypeEnd start p (tail ++ rest) = .done () rest :=
    readPrototypeEnd_eq_done_iff.mpr ⟨tail, rfl, htail⟩
  refine ⟨keyword, hkeyword, ?_⟩
  simp [readPrototypeDeclaration, hread, hend, Outcome.map, Outcome.andThen]

/-! ## Any construct -/

/-- A linkage block is never read as a declaration. -/
theorem readLinkage_ne_done {α : Type} (start : Token) (tokens rest : List Token) (value : α) :
    readLinkage start tokens ≠ .done value rest := by
  rw [readLinkage]
  split
  · simp
  · split
    · split
      · simp
      · split <;> simp
    · simp

/-- What is read from a token on is an item, unless the token starts a directive. -/
theorem readConstruct_item {o : ReadOptions} {t : Token} {tokens rest : List Token}
    {d : Option Declaration} (hdirective : t.kind.isDirective = false)
    (h : readConstruct o t tokens = .done d rest) :
    ∃ front, tokens = front ++ rest ∧ Item o (t :: front) d := by
  rw [readConstruct] at h
  rw [if_neg (by simp [hdirective])] at h
  split at h
  · rename_i hk
    obtain ⟨e, he, rfl⟩ := Outcome.map_eq_done_iff.mp h
    exact readEnumDeclaration_item hk he
  · rename_i hk
    obtain ⟨e, he, rfl⟩ := Outcome.map_eq_done_iff.mp h
    exact readStructDeclaration_item hk he
  · rename_i hk
    obtain ⟨e, he, rfl⟩ := Outcome.map_eq_done_iff.mp h
    exact readTypedef_item hk he
  · cases h
  · cases h
  · split at h
    · rename_i keyword hk
      obtain ⟨e, he, rfl⟩ := Outcome.map_eq_done_iff.mp h
      exact readPrototypeDeclaration_item hk he
    · split at h
      · exact absurd h (readLinkage_ne_done t tokens rest d)
      · cases h

/-- The keyword of a scalar type starts a prototype. -/
theorem readConstruct_of_keyword {o : ReadOptions} {t : Token} {keyword : Scalar}
    {tokens : List Token} (h : Scalar.ofKeyword? t.kind = some keyword) :
    readConstruct o t tokens = (readPrototypeDeclaration o t.position keyword tokens).map some := by
  rw [readConstruct]
  cases hk : t.kind <;> simp_all [Scalar.ofKeyword?, TokenKind.isDirective]

/-- Every item but a separator is read to its end. -/
theorem readConstruct_of_item {o : ReadOptions} {t : Token} {front : List Token}
    {d : Option Declaration} (rest : List Token) (h : Item o (t :: front) d)
    (ht : ¬ (t.kind = .newline ∨ t.kind = .semicolon)) :
    readConstruct o t (front ++ rest) = .done d rest := by
  cases h with
  | separator hk => exact absurd hk ht
  | enum hkeyword hhead hname hblock htail =>
      have hread := readEnumDeclaration_of_block t.position rest hhead hname hblock htail
      simp only [readConstruct, hkeyword, TokenKind.isDirective, Bool.false_eq_true, ↓reduceIte,
        hread]
      rfl
  | struct hkeyword hhead hname hblock htail =>
      have hread := readStructDeclaration_of_block t.position rest hhead hname hblock htail
      simp only [readConstruct, hkeyword, TokenKind.isDirective, Bool.false_eq_true, ↓reduceIte,
        hread]
      rfl
  | typedefEnum hfirst hhead hkeyword htag hblock htail hlast =>
      obtain ⟨layout, head, rfl, hlayout, hsolid, hhead⟩ := significant_eq_cons hhead
      have hread := readTypedefEnum_of_block t.position rest hhead htag hblock htail hlast
      simp only [readConstruct, hfirst, TokenKind.isDirective, Bool.false_eq_true, ↓reduceIte,
        List.append_assoc, List.cons_append, readTypedef,
        skipLayout_append_cons hlayout hsolid, hkeyword, reduceCtorEq, hread]
      rfl
  | typedefStruct hfirst hhead hkeyword htag hblock htail hlast =>
      obtain ⟨layout, head, rfl, hlayout, hsolid, hhead⟩ := significant_eq_cons hhead
      have hread := readTypedefStruct_of_block t.position rest hhead htag hblock htail hlast
      simp only [readConstruct, hfirst, TokenKind.isDirective, Bool.false_eq_true, ↓reduceIte,
        List.append_assoc, List.cons_append, readTypedef,
        skipLayout_append_cons hlayout hsolid, hkeyword, hread]
      rfl
  | prototype htype hhead hname hleft hbody hright htail =>
      obtain ⟨keyword, hkeyword, hread⟩ :=
        readPrototypeDeclaration_of_form t.position rest htype hhead hname hleft hbody hright htail
      rw [readConstruct_of_keyword hkeyword, hread]
      rfl

end Grammar

end HeaderBinding
