import HeaderBinding.Proofs.Rendering.DirectiveComments
import HeaderBinding.Proofs.Rendering.Indentation

/-!
# What a text tells

The text of a declaration that was read tells the declaration. The mark of a comment tells a
directive, the number of lines a prototype, and a heading the block below it. Names hold no space
and no scalar type is spelled like an enum's name, so a type and a name behind it can be told apart.
Only an enumerator that is called `pass` is written like no enumerator at all.
-/

namespace HeaderBinding

/-! ## Texts and lists of texts -/

/-- Lists have the same members if their members are told by their images. -/
theorem eq_of_map_eq_map {α β : Type} {f : α → β} {xs ys : List α}
    (hf : ∀ x ∈ xs, ∀ y ∈ ys, f x = f y → x = y) (h : xs.map f = ys.map f) : xs = ys := by
  induction xs generalizing ys with
  | nil => exact (List.map_eq_nil_iff.mp h.symm).symm
  | cons x xs ih =>
      obtain ⟨y, ys, rfl, hxy, hrest⟩ := List.map_eq_cons_iff.mp h.symm
      rw [hf x List.mem_cons_self y List.mem_cons_self hxy.symm,
        ih (fun a ha b hb => hf a (List.mem_cons_of_mem x ha) b (List.mem_cons_of_mem y hb))
          hrest.symm]

/-- Texts that are not empty and lack the byte a separator starts with are told by joining them. -/
theorem Bytes.eq_of_join_eq_join {b : UInt8} {separator : Bytes} {xs ys : List Bytes}
    (hxs : ∀ x ∈ xs, x ≠ [] ∧ b ∉ x) (hys : ∀ y ∈ ys, y ≠ [] ∧ b ∉ y)
    (h : join (b :: separator) xs = join (b :: separator) ys) : xs = ys := by
  have hcons (x x₁ : Bytes) (xs : List Bytes) : join (b :: separator) (x :: x₁ :: xs) =
      x ++ b :: (separator ++ join (b :: separator) (x₁ :: xs)) := by
    simp [join_cons]
  have hsingle (x : Bytes) : join (b :: separator) [x] = x := by simp [join_cons]
  induction xs generalizing ys with
  | nil =>
      cases ys with
      | nil => rfl
      | cons y ys =>
          rw [join_cons] at h
          exact absurd (List.append_eq_nil_iff.mp h.symm).1 (hys y List.mem_cons_self).1
  | cons x xs ih =>
      obtain ⟨⟨hx, hbx⟩, hxs⟩ := List.forall_mem_cons.mp hxs
      cases ys with
      | nil =>
          rw [join_cons] at h
          exact absurd (List.append_eq_nil_iff.mp h).1 hx
      | cons y ys =>
          obtain ⟨⟨-, hby⟩, hys⟩ := List.forall_mem_cons.mp hys
          match xs, ys with
          | [], [] => rw [← hsingle x, h, hsingle]
          | [], _ :: _ =>
              rw [hsingle, hcons] at h
              exact absurd (by simp [h]) hbx
          | _ :: _, [] =>
              rw [hsingle, hcons] at h
              exact absurd (by simp [← h]) hby
          | _ :: _, _ :: _ =>
              rw [hcons, hcons] at h
              obtain ⟨rfl, -, hrest⟩ := append_cons_inj (p := (· = b))
                (fun c hc hcb => hbx (hcb ▸ hc)) (fun c hc hcb => hby (hcb ▸ hc)) rfl rfl h
              rw [ih hxs hys (List.append_cancel_left hrest)]

/-! ## Types and arguments -/

theorem Scalar.name_injective : Function.Injective Scalar.name := by
  intro s s' h
  cases s <;> cases s' <;> first | rfl | exact absurd h (by decide)

/-- No scalar type is spelled like a free name. -/
theorem Bytes.IsFree.ne_scalar {s : Bytes} (h : s.IsFree) (scalar : Scalar) : s ≠ scalar.name := by
  rintro rfl
  cases scalar with
  | int => exact h.ne_keyword (.intKeyword, "int") (by decide) rfl
  | float => exact h.ne_keyword (.floatKeyword, "float") (by decide) rfl
  | long => exact h.ne_keyword (.longKeyword, "long") (by decide) rfl
  | longLong => exact absurd h.isIdentifier (by decide)
  | void => exact h.ne_keyword (.voidKeyword, "void") (by decide) rfl
  | char => exact h.ne_keyword (.charKeyword, "char") (by decide) rfl

section

variable {o o' : ReadOptions} {f : Format}

theorem CType.Valid.eq_of_name {t t' : CType} (h : t.Valid o) (h' : t'.Valid o')
    (hname : t.name = t'.name) : t = t' := by
  cases h with
  | scalar s =>
      cases h' with
      | scalar s' => exact congrArg CType.scalar (Scalar.name_injective hname)
      | enum _ htag => exact absurd hname.symm (htag.ne_scalar s)
  | enum _ htag =>
      cases h' with
      | scalar s' => exact absurd hname (htag.ne_scalar s')
      | enum => exact congrArg CType.enum hname

theorem space_notMem_of_isIdentifier {s : Bytes} (h : s.isIdentifier = true) : 0x20 ∉ s := by
  intro hmem
  exact absurd ((Directive.isWord_of_isIdentifier h).2 _ hmem) (by decide)

/-- A name or a type is made of word bytes and spaces. -/
theorem CType.Valid.isWord_or_space {type : CType} (h : type.Valid o) :
    ∀ b ∈ type.name, isWord b = true ∨ b = 0x20 := by
  cases h with
  | scalar s =>
      have hall : (CType.scalar s).name.all (fun b => isWord b || b == 0x20) = true := by
        cases s <;> decide
      simpa using hall
  | enum _ htag => exact fun b hb => .inl ((Directive.isWord_of_isIdentifier htag.isIdentifier).2 b hb)

theorem Argument.Valid.isWord_or_space {a : Argument} (h : a.Valid o) :
    ∀ b ∈ a.render f 0, isWord b = true ∨ b = 0x20 := by
  rw [Argument.render, Format.indentation_zero, List.nil_append, List.append_assoc]
  refine List.forall_mem_append.mpr ⟨h.type.isWord_or_space,
    List.forall_mem_append.mpr ⟨fun b hb => .inr (List.mem_singleton.mp hb), fun b hb => .inl ?_⟩⟩
  exact (Directive.isWord_of_isIdentifier h.name.isIdentifier).2 b hb

theorem Argument.Valid.notMem_render {a : Argument} (h : a.Valid o) {b : UInt8}
    (hb : isWord b = false) (hspace : b ≠ 0x20) : b ∉ a.render f 0 := by
  intro hmem
  rcases h.isWord_or_space b hmem with hword | rfl
  · rw [hb] at hword
    cases hword
  · exact hspace rfl

/-- The last space of an argument stands between its type and its name. -/
theorem Argument.Valid.eq_of_render {a a' : Argument} (h : a.Valid o) (h' : a'.Valid o')
    (hrender : a.render f 0 = a'.render f 0) : a = a' := by
  have hreverse : a.name.reverse ++ 0x20 :: a.type.name.reverse =
      a'.name.reverse ++ 0x20 :: a'.type.name.reverse := by
    have hspace : ascii " " = [0x20] := rfl
    simpa [Argument.render, hspace] using congrArg List.reverse hrender
  have hname := space_notMem_of_isIdentifier h.name.isIdentifier
  have hname' := space_notMem_of_isIdentifier h'.name.isIdentifier
  obtain ⟨hnames, -, htypes⟩ := append_cons_inj (p := (· = 0x20))
    (fun c hc hspace => hname (hspace ▸ List.mem_reverse.mp hc))
    (fun c hc hspace => hname' (hspace ▸ List.mem_reverse.mp hc)) rfl rfl hreverse
  rw [Argument.mk.injEq]
  exact ⟨List.reverse_inj.mp hnames, h.type.eq_of_name h'.type (List.reverse_inj.mp htypes)⟩

theorem Prototype.eq_of_render {p p' : Prototype} (h : (Declaration.prototype p).Valid o)
    (h' : (Declaration.prototype p').Valid o') (hrender : p.render f 0 = p'.render f 0) :
    p = p' := by
  obtain ⟨hname, ⟨s, htype⟩, hparameters⟩ := h
  obtain ⟨hname', ⟨s', htype'⟩, hparameters'⟩ := h'
  -- What stands before the parenthesis is written like an argument.
  have hresult : Argument.Valid o ⟨p.name, p.returnType⟩ := ⟨hname, htype ▸ .scalar s⟩
  have hresult' : Argument.Valid o' ⟨p'.name, p'.returnType⟩ := ⟨hname', htype' ▸ .scalar s'⟩
  have hopens {o : ReadOptions} {a : Argument} (ha : a.Valid o) :
      ∀ c ∈ a.render f 0, ¬ c = 0x28 :=
    fun c hc hopens => ha.notMem_render (by decide) (by decide) (hopens ▸ hc)
  have hcut : Argument.render f 0 ⟨p.name, p.returnType⟩ ++ 0x28 ::
        (Bytes.join (ascii ", ") (p.arguments.map (·.render f 0)) ++ ascii ")") =
      Argument.render f 0 ⟨p'.name, p'.returnType⟩ ++ 0x28 ::
        (Bytes.join (ascii ", ") (p'.arguments.map (·.render f 0)) ++ ascii ")") := by
    have hparenthesis : ascii "(" = [0x28] := rfl
    simpa [Prototype.render, Argument.render, hparenthesis] using hrender
  obtain ⟨hfront, -, hback⟩ := append_cons_inj (p := (· = 0x28)) (hopens hresult)
    (hopens hresult') rfl rfl hcut
  have hparts : (⟨p.name, p.returnType⟩ : Argument) = ⟨p'.name, p'.returnType⟩ :=
    hresult.eq_of_render hresult' hfront
  have htexts {o : ReadOptions} {arguments : List Argument} (h : ∀ a ∈ arguments, a.Valid o) :
      ∀ text ∈ arguments.map (·.render f 0), text ≠ [] ∧ 0x2C ∉ text :=
    List.forall_mem_map.mpr fun a ha =>
      ⟨by simp [Argument.render, ascii], (h a ha).notMem_render (by decide) (by decide)⟩
  have hlist := Bytes.eq_of_join_eq_join (htexts hparameters) (htexts hparameters')
    (List.append_cancel_right hback)
  have harguments := eq_of_map_eq_map
    (fun a ha a' ha' => (hparameters a ha).eq_of_render (hparameters' a' ha')) hlist
  obtain ⟨hnames, htypes⟩ := Argument.mk.inj hparts
  rw [Prototype.mk.injEq]
  exact ⟨hnames, htypes, harguments⟩

/-! ## Blocks -/

/-- The lines of a block tell its heading, and its members unless there are none or the only one is
written like that. -/
theorem Format.eq_of_blockLines {heading heading' : Bytes} {members members' : List Bytes}
    (h : f.blockLines heading members = f.blockLines heading' members') :
    heading = heading' ∧ (members = members' ∨ members = [] ∧ members' = [ascii "pass"] ∨
      members = [ascii "pass"] ∧ members' = []) := by
  obtain ⟨hheading, hlines⟩ := List.cons.inj h
  refine ⟨List.append_cancel_left (List.append_cancel_right hheading), ?_⟩
  have hbody := (List.map_injective_iff.mpr (List.append_right_injective f.indent)) hlines
  cases members with
  | nil =>
      cases members' with
      | nil => exact .inl rfl
      | cons => exact .inr (.inl ⟨rfl, hbody.symm⟩)
  | cons =>
      cases members' with
      | nil => exact .inr (.inr ⟨hbody, rfl⟩)
      | cons => exact .inl hbody

theorem Struct.eq_of_lines {s s' : Struct} (h : (Declaration.struct s).Valid o)
    (h' : (Declaration.struct s').Valid o')
    (hlines : (Declaration.struct s).lines f = (Declaration.struct s').lines f) : s = s' := by
  have hpass (a : Argument) : a.render f 0 ≠ ascii "pass" := by
    intro hrender
    have hspace : (0x20 : UInt8) ∈ a.render f 0 := by
      have hmem : (0x20 : UInt8) ∈ ascii " " := by decide
      simp [Argument.render, hmem]
    rw [hrender] at hspace
    exact absurd hspace (by decide)
  have hmembers (a : Argument) (ha : a ∈ s.attributes) (a' : Argument) (ha' : a' ∈ s'.attributes) :
      a.render f 0 = a'.render f 0 → a = a' :=
    (h.2 a ha).eq_of_render (h'.2 a' ha')
  obtain ⟨hheading, hbody⟩ := f.eq_of_blockLines hlines
  rw [Struct.mk.injEq]
  refine ⟨List.append_cancel_left hheading, ?_⟩
  rcases hbody with hsame | ⟨-, hpassed⟩ | ⟨hpassed, -⟩
  · exact eq_of_map_eq_map hmembers hsame
  · obtain ⟨a, -, hrender⟩ := List.map_eq_singleton_iff.mp hpassed
    exact absurd hrender (hpass a)
  · obtain ⟨a, -, hrender⟩ := List.map_eq_singleton_iff.mp hpassed
    exact absurd hrender (hpass a)

/-- An enum is written without enumerators: it has none, or the only one is called `pass`. -/
def Enum.IsPassed (e : Enum) : Prop :=
  e.attributes = [] ∨ e.attributes = [ascii "pass"]

theorem Enum.eq_or_isPassed_of_lines {e e' : Enum}
    (hlines : (Declaration.enum e).lines f = (Declaration.enum e').lines f) :
    e = e' ∨ e.name = e'.name ∧ e.IsPassed ∧ e'.IsPassed := by
  obtain ⟨hheading, hbody⟩ := f.eq_of_blockLines hlines
  have hname : e.name = e'.name := List.append_cancel_left hheading
  rcases hbody with hsame | ⟨hnone, hpass⟩ | ⟨hpass, hnone⟩
  · exact .inl (by rw [Enum.mk.injEq]; exact ⟨hname, hsame⟩)
  · exact .inr ⟨hname, .inl hnone, .inr hpass⟩
  · exact .inr ⟨hname, .inr hpass, .inl hnone⟩

theorem Enum.render_of_isPassed {e : Enum} (h : e.IsPassed) (depth : Int) :
    e.render f depth = Enum.render f depth ⟨e.name, []⟩ := by
  rcases h with h | h
  · simp [Enum.render, h]
  · simp [Enum.render, Format.block, h]

end

/-! ## Declarations -/

/-- The words of macros start with different bytes. -/
theorem MacroKind.exists_directive (kind : MacroKind) :
    ∃ b rest, kind.directive = b :: rest ∧ (b = 0x64 ↔ kind = .define) := by
  cases kind <;> exact ⟨_, _, rfl, by decide⟩

namespace Declaration

variable {d d' : Declaration} {o o' : ReadOptions}

theorem eq_of_remark (h : d.isDirective = true) (h' : d'.isDirective = true)
    (hremark : d.remark = d'.remark) : d = d' := by
  have hwords (i : Include) (m : Macro) : (inclusion i).remark ≠ (macroName m).remark := by
    intro hremark
    have hword : (ascii "include").isPrefixOf (macroName m).remark = false := by
      obtain ⟨name, kind⟩ := m
      cases kind <;> rfl
    rw [← hremark] at hword
    cases hword
  cases d with
  | inclusion i =>
      cases d' with
      | inclusion i' =>
          obtain ⟨name, kind⟩ := i
          obtain ⟨name', kind'⟩ := i'
          obtain ⟨hopening, hrest⟩ := List.cons.inj (List.append_cancel_left hremark)
          obtain rfl : kind = kind' := by
            revert hopening
            cases kind <;> cases kind' <;> simp [IncludeKind.opening]
          obtain rfl : name = name' := List.append_cancel_right hrest
          rfl
      | macroName m' => exact absurd hremark (hwords i m')
      | enum | struct | prototype => cases h'
  | macroName m =>
      cases d' with
      | inclusion i' => exact absurd hremark.symm (hwords i' m)
      | macroName m' =>
          obtain ⟨name, kind⟩ := m
          obtain ⟨name', kind'⟩ := m'
          obtain rfl : kind = kind' := by
            obtain ⟨b, rest, hword, hb⟩ := kind.exists_directive
            obtain ⟨b', rest', hword', hb'⟩ := kind'.exists_directive
            rw [remark, remark, hword, hword'] at hremark
            obtain rfl : b = b' := (List.cons.inj hremark).1
            have hsame := hb.symm.trans hb'
            cases kind <;> cases kind' <;> simp_all
          obtain rfl : name = name' := List.append_cancel_left hremark
          rfl
      | enum | struct | prototype => cases h'
  | enum | struct | prototype => cases h

/-- Behind the indentation a directive, and nothing else, has the mark of a comment. -/
theorem exists_render_cython (hvalid : d.Valid o) (n : Nat) :
    ∃ b s, d.render .cython n = Format.cython.indentation n ++ b :: s ∧
      (b = 0x23 ↔ d.isDirective = true) := by
  have hcomment : Format.lead Format.cython.comment = 0x23 :: ascii " " := by decide
  have hkeyword : Format.lead Format.cython.keyword = 0x63 :: ascii "def " := by decide
  by_cases hdirective : d.isDirective = true
  · rw [render_of_isDirective hdirective, hcomment, List.cons_append]
    exact ⟨0x23, _, rfl, by simp [hdirective]⟩
  · rw [render_eq_join]
    cases d with
    | inclusion | macroName => exact absurd rfl hdirective
    | enum e =>
        rw [lines, Format.blockLines, hkeyword, List.map_cons, Bytes.join_cons, List.append_assoc]
        exact ⟨0x63, _, rfl, by simp [hdirective]⟩
    | struct s =>
        rw [lines, Format.blockLines, hkeyword, List.map_cons, Bytes.join_cons, List.append_assoc]
        exact ⟨0x63, _, rfl, by simp [hdirective]⟩
    | prototype p =>
        obtain ⟨-, ⟨s, htype⟩, -⟩ := hvalid
        have hfirst : ∃ b rest, s.name = b :: rest ∧ b ≠ 0x23 := by
          cases s <;> exact ⟨_, _, rfl, by decide⟩
        obtain ⟨b, rest, hname, hb⟩ := hfirst
        have hname : p.returnType.name = b :: rest := htype ▸ hname
        rw [lines, List.map_cons, Bytes.join_cons, List.append_assoc, Prototype.render, hname]
        exact ⟨b, _, rfl, by simp [hdirective, hb]⟩

/-- Two blocks or prototypes with the same lines: blocks have more lines than one, and their headings
start with different words. -/
theorem eq_or_isPassed_of_lines {f : Format} (hvalid : d.Valid o) (hvalid' : d'.Valid o')
    (hdirective : d.isDirective = false) (hdirective' : d'.isDirective = false)
    (hlines : d.lines f = d'.lines f) :
    d = d' ∨ ∃ e e', d = .enum e ∧ d' = .enum e' ∧ e.name = e'.name ∧ e.IsPassed ∧ e'.IsPassed := by
  have hcount : d.lineCount = d'.lineCount := by
    rw [← d.length_lines f, hlines, d'.length_lines]
  have hheading (e : Enum) (s : Struct) : (enum e).lines f ≠ (struct s).lines f := by
    intro hlines
    have hword := (Format.eq_of_blockLines hlines).1
    cases congrArg List.head? hword
  cases d with
  | inclusion | macroName => cases hdirective
  | enum e =>
      cases d' with
      | inclusion | macroName => cases hdirective'
      | enum e' =>
          rcases Enum.eq_or_isPassed_of_lines hlines with rfl | hpassed
          · exact .inl rfl
          · exact .inr ⟨e, e', rfl, rfl, hpassed⟩
      | struct s' => exact absurd hlines (hheading e s')
      | prototype p' => simp [lineCount] at hcount
  | struct s =>
      cases d' with
      | inclusion | macroName => cases hdirective'
      | enum e' => exact absurd hlines.symm (hheading e' s)
      | struct s' => exact .inl (congrArg struct (Struct.eq_of_lines hvalid hvalid' hlines))
      | prototype p' => simp [lineCount] at hcount
  | prototype p =>
      cases d' with
      | inclusion | macroName => cases hdirective'
      | enum e' => simp [lineCount] at hcount
      | struct s' => simp [lineCount] at hcount
      | prototype p' =>
          have hrender : p.render f 0 = p'.render f 0 := List.singleton_injective hlines
          exact .inl (congrArg prototype (Prototype.eq_of_render hvalid hvalid' hrender))

/-- Declarations that were read, from whatever sources and with whatever options, are written alike
only if they are the same, or if both are enums of one name that are written without enumerators. -/
theorem render_eq_iff (hd : d.IsRead) (hd' : d'.IsRead) (n : Nat) :
    d.render .cython n = d'.render .cython n ↔
      d = d' ∨ ∃ e e', d = .enum e ∧ d' = .enum e' ∧ e.name = e'.name ∧
        e.IsPassed ∧ e'.IsPassed := by
  obtain ⟨o, hvalid⟩ := hd.valid
  obtain ⟨o', hvalid'⟩ := hd'.valid
  constructor
  · intro hrender
    have hsame : d.isDirective = d'.isDirective := by
      obtain ⟨b, s, hs, hmark⟩ := exists_render_cython hvalid n
      obtain ⟨b', s', hs', hmark'⟩ := exists_render_cython hvalid' n
      obtain ⟨rfl, -⟩ := List.cons.inj
        (List.append_cancel_left (hs.symm.trans (hrender.trans hs')))
      exact Bool.eq_iff_iff.mpr (hmark.symm.trans hmark')
    cases hdirective : d.isDirective with
    | true =>
        rw [hdirective] at hsame
        rw [render_of_isDirective hdirective, render_of_isDirective hsame.symm] at hrender
        exact .inl (eq_of_remark hdirective hsame.symm
          (List.append_cancel_left (List.append_cancel_left hrender)))
    | false =>
        rw [hdirective] at hsame
        have hkeyword : lineFeed ∉ Format.cython.keyword := by decide
        have hindent : lineFeed ∉ Format.cython.indent := by decide
        have hsplit := congrArg (Bytes.split lineFeed) hrender
        rw [split_render (lineFeed_notMem_lines hvalid hdirective hkeyword hindent) hindent,
          split_render (lineFeed_notMem_lines hvalid' hsame.symm hkeyword hindent) hindent] at hsplit
        have hlines := List.map_injective_iff.mpr (List.append_right_injective _) hsplit
        exact eq_or_isPassed_of_lines hvalid hvalid' hdirective hsame.symm hlines
  · rintro (rfl | ⟨e, e', rfl, rfl, hname, hpassed, hpassed'⟩)
    · rfl
    · rw [render, render, e.render_of_isPassed hpassed, e'.render_of_isPassed hpassed', hname]

/-- An enumerator that is called `pass` is not told from none, but two types of which one is spelled
with a word of the other are told. -/
theorem render_eq_iff_pass :
    let enumOf (attributes : List Bytes) := Declaration.enum ⟨ascii "E", attributes⟩
    let structOf (s : Scalar) := Declaration.struct ⟨ascii "S", [⟨ascii "a", .scalar s⟩]⟩
    ((enumOf []).IsRead ∧ (enumOf [ascii "pass"]).IsRead ∧
        (enumOf []).render .cython 2 = (enumOf [ascii "pass"]).render .cython 2) ∧
      (structOf .long).IsRead ∧ (structOf .longLong).IsRead ∧
        (structOf .long).render .cython 2 ≠ (structOf .longLong).render .cython 2 := by
  intro enumOf structOf
  have hread {d d' : Declaration} {source : Bytes}
      (h : (readHeader .default source).declarations = [d, d']) : d.IsRead ∧ d'.IsRead :=
    ⟨isRead_of_mem_readHeader (by rw [h]; simp), isRead_of_mem_readHeader (by rw [h]; simp)⟩
  have hfirst : (readHeader .default (ascii "enum E \x7b\x7d; struct S \x7blong a;\x7d;")).declarations =
      [enumOf [], structOf .long] := by decide +kernel
  have hsecond :
      (readHeader .default (ascii "enum E \x7bpass\x7d; struct S \x7blong long a;\x7d;")).declarations =
        [enumOf [ascii "pass"], structOf .longLong] := by decide +kernel
  obtain ⟨hnone, hlong⟩ := hread hfirst
  obtain ⟨hpass, hlongLong⟩ := hread hsecond
  refine ⟨⟨hnone, hpass, ?_⟩, hlong, hlongLong, ?_⟩
  · exact (render_eq_iff hnone hpass 2).mpr (.inr ⟨_, _, rfl, rfl, rfl, .inl rfl, .inr rfl⟩)
  · refine mt (render_eq_iff hlong hlongLong 2).mp ?_
    rintro (hsame | ⟨e, -, henum, -⟩)
    · exact absurd hsame (by decide)
    · cases henum

end Declaration

end HeaderBinding
