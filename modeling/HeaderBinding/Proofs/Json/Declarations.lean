import HeaderBinding.Declaration.Json
import HeaderBinding.Proofs.Json.Texts
import HeaderBinding.Proofs.Rendering.Injectivity

/-!
# Declarations in JSON

The JSON document of declarations that were read tells the declarations, if the names of includes
are made of characters. Every other text in it comes from tokens, which are made of characters, and
what a field leaves out is known: a return type is a scalar type, and only an enum type is marked.
-/

namespace HeaderBinding

open Lexicon

/-! ## Texts of declarations -/

/-- The name of an argument and its type are made of characters. -/
structure Argument.IsText (a : Argument) : Prop where
  name : IsUtf8 a.name
  type : IsUtf8 a.type.name

/-- The texts of a declaration are made of characters. -/
def Declaration.IsText : Declaration → Prop
  | .inclusion i => IsUtf8 i.name
  | .macroName m => IsUtf8 m.name
  | .enum e => IsUtf8 e.name ∧ ∀ text ∈ e.attributes, IsUtf8 text
  | .struct s => IsUtf8 s.name ∧ ∀ a ∈ s.attributes, a.IsText
  | .prototype p => IsUtf8 p.name ∧ IsUtf8 p.returnType.name ∧ ∀ a ∈ p.arguments, a.IsText

theorem isUtf8_concat {tokens : List Token} (h : ∀ t ∈ tokens, IsUtf8 t.text) :
    IsUtf8 (Token.concat tokens) := by
  induction tokens with
  | nil => exact ⟨[], rfl⟩
  | cons t tokens ih =>
      obtain ⟨ht, htokens⟩ := List.forall_mem_cons.mp h
      rw [Token.concat_cons]
      exact ht.append (ih htokens)

/-- Bytes below 0x80 are characters. -/
theorem isUtf8_of_lt {s : Bytes} (h : ∀ b ∈ s, b < 0x80) : IsUtf8 s := by
  induction s with
  | nil => exact ⟨[], rfl⟩
  | cons b s ih =>
      obtain ⟨hb, hs⟩ := List.forall_mem_cons.mp h
      obtain ⟨c, hc, rfl⟩ := exists_char_of_lt (UInt8.lt_iff_toNat_lt.mp hb)
      obtain ⟨cs, rfl⟩ := ih hs
      exact ⟨c :: cs, by rw [utf8_cons, utf8EncodeChar_of_lt hc]; rfl⟩

theorem isUtf8_of_isIdentifier {s : Bytes} (h : s.isIdentifier = true) : IsUtf8 s :=
  isUtf8_of_lt fun b hb => ascii_of_isWord ((Directive.isWord_of_isIdentifier h).2 b hb)

theorem CType.Valid.isUtf8 {o : ReadOptions} {type : CType} (h : type.Valid o) :
    IsUtf8 type.name := by
  refine isUtf8_of_lt fun b hb => ?_
  rcases h.isWord_or_space b hb with hword | rfl
  · exact ascii_of_isWord hword
  · decide

theorem Argument.Valid.isText {o : ReadOptions} {a : Argument} (h : a.Valid o) : a.IsText :=
  ⟨isUtf8_of_isIdentifier h.name.isIdentifier, h.type.isUtf8⟩

namespace Grammar

variable {o : ReadOptions} {piece body block front : List Token} {attributes : List Bytes}

/-- The tokens of an enumerator are made of characters, and trimming takes whole ones. -/
theorem isUtf8_enumeratorText (h : Lexical piece) (hpiece : ∀ t ∈ piece, endsEnumerator t = false) :
    IsUtf8 (enumeratorText piece) := by
  have htexts : ∀ t ∈ piece.filter isEnumeratorText, IsUtf8 t.text := by
    intro t ht
    obtain ⟨hmem, hkept⟩ := List.mem_filter.mp ht
    have hkind := isTextKind_iff.mpr ⟨hpiece t hmem, hkept⟩
    exact (h.firstKind_of_isTextKind hmem hkind).exists_utf8
  exact (isUtf8_concat htexts).trim

theorem Enumerators.isUtf8 (h : Enumerators body attributes) (hlexical : Lexical body) :
    ∀ text ∈ attributes, IsUtf8 text := by
  induction h with
  | empty => nofun
  | last hpiece => exact List.forall_mem_singleton.mpr (isUtf8_enumeratorText hlexical hpiece)
  | cons hpiece _ _ _ ih =>
      exact List.forall_mem_cons.mpr
        ⟨isUtf8_enumeratorText hlexical.front hpiece, ih hlexical.back.tail⟩

theorem Item.isUtf8 {e : Enum} (h : Item o front (some (.enum e))) (hlexical : Lexical front) :
    ∀ text ∈ e.attributes, IsUtf8 text := by
  cases h with
  | enum _ _ _ hblock =>
      obtain ⟨body, ⟨henumerators, -⟩, hbody⟩ := hblock.exists_lexical hlexical.tail.back.front
      exact henumerators.isUtf8 hbody
  | typedefEnum _ _ _ _ hblock =>
      obtain ⟨body, ⟨henumerators, -⟩, hbody⟩ := hblock.exists_lexical hlexical.tail.back.front
      exact henumerators.isUtf8 hbody

end Grammar

theorem readConstruct_isUtf8 {o : ReadOptions} {source : Bytes} {t : Token}
    {tokens rest : List Token} {e : Enum} (hsource : t :: tokens <:+ tokenize source)
    (h : readConstruct o t tokens = .done (some (.enum e)) rest) :
    ∀ text ∈ e.attributes, IsUtf8 text := by
  by_cases hdirective : t.kind.isDirective = true
  · cases readConstruct_directive hdirective h
  · obtain ⟨front, rfl, hitem, hlexical⟩ := readConstruct_lexicalItem hsource hdirective h
    exact hitem.isUtf8 hlexical

namespace Declaration

variable {d d' : Declaration} {o o' : ReadOptions}

/-- Only the name of an include may hold bytes that encode no character. -/
theorem IsRead.isText (h : d.IsRead) (hname : ∀ i, d = .inclusion i → IsUtf8 i.name) :
    d.IsText := by
  obtain ⟨o, source, n, hd⟩ := h
  obtain ⟨t, tokens, rest, hsuffix, hread⟩ := Session.afterRuns_declared hd
  have hvalid := readConstruct_valid hsuffix hread
  cases d with
  | inclusion i => exact hname i rfl
  | macroName m => exact isUtf8_of_isIdentifier hvalid
  | enum e =>
      exact ⟨isUtf8_of_isIdentifier hvalid.1.isIdentifier, readConstruct_isUtf8 hsuffix hread⟩
  | struct s =>
      exact ⟨isUtf8_of_isIdentifier hvalid.1.isIdentifier, fun a ha => (hvalid.2 a ha).isText⟩
  | prototype p =>
      obtain ⟨hname, ⟨s, htype⟩, hparameters⟩ := hvalid
      have hreturn : p.returnType.Valid o := htype ▸ .scalar s
      exact ⟨isUtf8_of_isIdentifier hname.isIdentifier, hreturn.isUtf8,
        fun a ha => (hparameters a ha).isText⟩

end Declaration

/-! ## Values of declarations -/

namespace Json

variable {items items' : List Json}

theorem listOrNull_injective : Function.Injective listOrNull := by
  intro items items' h
  match items, items' with
  | [], [] => rfl
  | [], _ :: _ | _ :: _, [] => cases h
  | _ :: _, _ :: _ => exact Json.list.inj h

theorem isText_listOrNull (h : ∀ item ∈ items, item.IsText) : (listOrNull items).IsText := by
  cases items with
  | nil => exact .null
  | cons => exact .list h

/-- A field with an ASCII name before others. -/
theorem IsText.object_cons {name : String} {value : Json} {fields : List (String × Json)}
    (hname : allAscii name.toList = true) (hvalue : value.IsText)
    (h : (Json.object fields).IsText) : (Json.object ((name, value) :: fields)).IsText := by
  cases h with
  | object hnames hvalues =>
      exact .object (List.forall_mem_cons.mpr ⟨hname, hnames⟩)
        (List.forall_mem_cons.mpr ⟨hvalue, hvalues⟩)

theorem isText_object_nil : (object []).IsText :=
  .object nofun nofun

theorem field_inj {name name' : String} {value value' : Json} {fields fields' : List (String × Json)}
    (h : (name, value) :: fields = (name', value') :: fields') : value = value' ∧ fields = fields' :=
  ⟨(Prod.mk.inj (List.cons.inj h).1).2, (List.cons.inj h).2⟩

end Json

theorem IncludeKind.name_injective : Function.Injective IncludeKind.name := by
  intro kind kind' h
  cases kind <;> cases kind' <;> first | rfl | exact absurd h (by decide)

theorem MacroKind.name_injective : Function.Injective MacroKind.name := by
  intro kind kind' h
  cases kind <;> cases kind' <;> first | rfl | exact absurd h (by decide)

namespace Argument

theorem IsText.isText_toJson {a : Argument} (h : a.IsText) : a.toJson.IsText := by
  have hmark : (Json.object (if a.type.isEnum then [("enum", .bool true)] else [])).IsText := by
    split
    · exact .object_cons (by decide) (.bool true) Json.isText_object_nil
    · exact Json.isText_object_nil
  exact .object_cons (by decide) (.string h.name) (.object_cons (by decide) (.string h.type) hmark)

/-- The mark tells an enum type from a scalar type of that spelling. -/
theorem toJson_injective : Function.Injective toJson := by
  rintro ⟨name, type⟩ ⟨name', type'⟩ h
  obtain ⟨hname, hrest⟩ := Json.field_inj (Json.object.inj h)
  obtain ⟨htype, hmark⟩ := Json.field_inj hrest
  obtain rfl : name = name' := Json.string.inj hname
  have hspelling : type.name = type'.name := Json.string.inj htype
  cases type with
  | scalar s =>
      cases type' with
      | scalar s' => rw [Scalar.name_injective hspelling]
      | enum => cases hmark
  | enum tag =>
      cases type' with
      | scalar => cases hmark
      | enum tag' => rw [show tag = tag' from hspelling]

end Argument

namespace Declaration

variable {d d' : Declaration} {o o' : ReadOptions}

/-- The fields behind kind and name. -/
def ownFields : Declaration → List (String × Json)
  | .inclusion i => [("header_kind", .string i.kind.name)]
  | .macroName m => [("macro_kind", .string m.kind.name)]
  | .enum e => [("attributes", .listOrNull (e.attributes.map .string))]
  | .struct s => [("attributes", .listOrNull (s.attributes.map Argument.toJson))]
  | .prototype p =>
    [("return_type", .string p.returnType.name),
      ("arguments", .listOrNull (p.arguments.map Argument.toJson))]

theorem toJson_eq_object (d : Declaration) :
    d.toJson = .object (("kind", .string d.kindName) :: ("name", .string d.name) :: d.ownFields) := by
  cases d <;> rfl

theorem IsText.isText_toJson (h : d.IsText) : d.toJson.IsText := by
  have harguments {arguments : List Argument} (h : ∀ a ∈ arguments, a.IsText) :
      (Json.listOrNull (arguments.map Argument.toJson)).IsText :=
    Json.isText_listOrNull (List.forall_mem_map.mpr fun a ha => (h a ha).isText_toJson)
  have hkind : IsUtf8 d.kindName := by
    cases d <;> exact Json.isUtf8_ascii (by decide)
  have hname : IsUtf8 d.name := by
    cases d with
    | inclusion | macroName => exact h
    | enum | struct | prototype => exact h.1
  have hfields : (Json.object d.ownFields).IsText := by
    cases d with
    | inclusion i =>
        have hkind : IsUtf8 i.kind.name := by
          cases i.kind <;> exact Json.isUtf8_ascii (by decide)
        exact .object_cons (by decide) (.string hkind) Json.isText_object_nil
    | macroName m =>
        have hkind : IsUtf8 m.kind.name := by
          cases m.kind <;> exact Json.isUtf8_ascii (by decide)
        exact .object_cons (by decide) (.string hkind) Json.isText_object_nil
    | enum e =>
        refine .object_cons (by decide) (Json.isText_listOrNull ?_) Json.isText_object_nil
        exact List.forall_mem_map.mpr fun text htext => .string (h.2 text htext)
    | struct s => exact .object_cons (by decide) (harguments h.2) Json.isText_object_nil
    | prototype p =>
        exact .object_cons (by decide) (.string h.2.1)
          (.object_cons (by decide) (harguments h.2.2) Json.isText_object_nil)
  rw [toJson_eq_object]
  exact .object_cons (by decide) (.string hkind) (.object_cons (by decide) (.string hname) hfields)

theorem inclusion_eq_of_fields {i i' : Include} (hname : i.name = i'.name)
    (h : ownFields (.inclusion i) = ownFields (.inclusion i')) : i = i' := by
  obtain ⟨name, kind⟩ := i
  obtain ⟨name', kind'⟩ := i'
  obtain rfl : name = name' := hname
  obtain rfl : kind = kind' := IncludeKind.name_injective (Json.string.inj (Json.field_inj h).1)
  rfl

theorem macroName_eq_of_fields {m m' : Macro} (hname : m.name = m'.name)
    (h : ownFields (.macroName m) = ownFields (.macroName m')) : m = m' := by
  obtain ⟨name, kind⟩ := m
  obtain ⟨name', kind'⟩ := m'
  obtain rfl : name = name' := hname
  obtain rfl : kind = kind' := MacroKind.name_injective (Json.string.inj (Json.field_inj h).1)
  rfl

theorem enum_eq_of_fields {e e' : Enum} (hname : e.name = e'.name)
    (h : ownFields (.enum e) = ownFields (.enum e')) : e = e' := by
  obtain ⟨name, attributes⟩ := e
  obtain ⟨name', attributes'⟩ := e'
  obtain rfl : name = name' := hname
  obtain rfl : attributes = attributes' :=
    List.map_injective_iff.mpr (fun _ _ => Json.string.inj)
      (Json.listOrNull_injective (Json.field_inj h).1)
  rfl

theorem struct_eq_of_fields {s s' : Struct} (hname : s.name = s'.name)
    (h : ownFields (.struct s) = ownFields (.struct s')) : s = s' := by
  obtain ⟨name, attributes⟩ := s
  obtain ⟨name', attributes'⟩ := s'
  obtain rfl : name = name' := hname
  obtain rfl : attributes = attributes' :=
    List.map_injective_iff.mpr Argument.toJson_injective
      (Json.listOrNull_injective (Json.field_inj h).1)
  rfl

/-- A return type has no mark, but is a scalar type. -/
theorem prototype_eq_of_fields {p p' : Prototype} (hname : p.name = p'.name)
    (htype : ∃ s, p.returnType = .scalar s) (htype' : ∃ s, p'.returnType = .scalar s)
    (h : ownFields (.prototype p) = ownFields (.prototype p')) : p = p' := by
  obtain ⟨name, type, arguments⟩ := p
  obtain ⟨name', type', arguments'⟩ := p'
  obtain ⟨s, rfl⟩ : ∃ s, type = .scalar s := htype
  obtain ⟨s', rfl⟩ : ∃ s, type' = .scalar s := htype'
  obtain ⟨hreturn, hrest⟩ := Json.field_inj h
  obtain rfl : name = name' := hname
  obtain rfl : s = s' := Scalar.name_injective (Json.string.inj hreturn)
  obtain rfl : arguments = arguments' :=
    List.map_injective_iff.mpr Argument.toJson_injective
      (Json.listOrNull_injective (Json.field_inj hrest).1)
  rfl

/-- Equal values come from equal declarations. -/
theorem eq_of_toJson (h : d.Valid o) (h' : d'.Valid o') (hjson : d.toJson = d'.toJson) : d = d' := by
  rw [toJson_eq_object, toJson_eq_object] at hjson
  obtain ⟨hkind, hrest⟩ := Json.field_inj (Json.object.inj hjson)
  obtain ⟨hname, hfields⟩ := Json.field_inj hrest
  have hkind : d.kindName = d'.kindName := Json.string.inj hkind
  have hname : d.name = d'.name := Json.string.inj hname
  cases d <;> cases d'
  case inclusion.inclusion => rw [inclusion_eq_of_fields hname hfields]
  case macroName.macroName => rw [macroName_eq_of_fields hname hfields]
  case enum.enum => rw [enum_eq_of_fields hname hfields]
  case struct.struct => rw [struct_eq_of_fields hname hfields]
  case prototype.prototype => rw [prototype_eq_of_fields hname h.2.1 h'.2.1 hfields]
  all_goals exact absurd hkind (by simp only [kindName]; decide)

/-! ## Documents -/

/-- Lists of declarations that were read, from whatever sources and with whatever options, are the
same if their JSON documents are, as long as the names of the includes are well-formed. -/
theorem document_injective {declarations declarations' : List Declaration}
    (hread : ∀ d ∈ declarations, d.IsRead) (hread' : ∀ d ∈ declarations', d.IsRead)
    (hnames : ∀ i, .inclusion i ∈ declarations → IsUtf8 i.name)
    (hnames' : ∀ i, .inclusion i ∈ declarations' → IsUtf8 i.name)
    (h : document declarations = document declarations') : declarations = declarations' := by
  have hvalues {declarations : List Declaration} (hread : ∀ d ∈ declarations, d.IsRead)
      (hnames : ∀ i, .inclusion i ∈ declarations → IsUtf8 i.name) :
      (Json.list (declarations.map toJson)).IsText := by
    refine .list (List.forall_mem_map.mpr fun d hd => ?_)
    exact ((hread d hd).isText fun i hi => hnames i (hi ▸ hd)).isText_toJson
  have hlists := (hvalues hread hnames).eq_of_indented (hvalues hread' hnames') h
  refine eq_of_map_eq_map (fun d hd d' hd' hjson => ?_) (Json.list.inj hlists)
  obtain ⟨o, hvalid⟩ := (hread d hd).valid
  obtain ⟨o', hvalid'⟩ := (hread' d' hd').valid
  exact eq_of_toJson hvalid hvalid' hjson

/-- A name with a character that is escaped is told from one that is spelled like the escape. Bytes
that encode no character are all written alike. -/
theorem document_injective_escapes :
    let declared (name : Bytes) : List Declaration := [.inclusion ⟨name, .custom⟩]
    (readHeader .default (ascii "#include \"a&b\"\n")).declarations = declared (ascii "a&b") ∧
      (readHeader .default (ascii "#include \"a\\u0026b\"\n")).declarations =
        declared (ascii "a\\u0026b") ∧
      document (declared (ascii "a&b")) ≠ document (declared (ascii "a\\u0026b")) ∧
      document (declared [0xFE]) = document (declared [0xFF]) := by
  intro declared
  have hfirst : (readHeader .default (ascii "#include \"a&b\"\n")).declarations =
      declared (ascii "a&b") := by decide +kernel
  have hsecond : (readHeader .default (ascii "#include \"a\\u0026b\"\n")).declarations =
      declared (ascii "a\\u0026b") := by decide +kernel
  have hread {source name : Bytes} (h : (readHeader .default source).declarations = declared name) :
      ∀ d ∈ declared name, d.IsRead := by
    rw [← h]
    exact fun d hd => isRead_of_mem_readHeader hd
  have hname {name : String} (h : allAscii name.toList = true) :
      ∀ i, .inclusion i ∈ declared (ascii name) → IsUtf8 i.name := by
    intro i hi
    cases List.mem_singleton.mp hi
    exact Json.isUtf8_ascii h
  refine ⟨hfirst, hsecond, mt (document_injective (hread hfirst) (hread hsecond)
    (hname (by decide)) (hname (by decide))) ?_, by decide +kernel⟩
  decide

end Declaration

end HeaderBinding
