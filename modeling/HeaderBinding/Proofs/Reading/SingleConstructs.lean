import HeaderBinding.Proofs.Reading.LinkageBlocks
import HeaderBinding.Proofs.Reading.Printing
import HeaderBinding.Reading.Single

/-!
# Single constructs

A construct that is read alone is what a header declares that holds nothing else. The readers of
single constructs share the inner readers with the reader of headers, and have a start and an end of
their own: no more than a `;` may follow, and members may do without braces.
-/

namespace HeaderBinding

open Lexicon

/-! ## What follows a construct -/

theorem skipLines_eq_nil_iff {tokens : List Token} : skipLines tokens = [] ↔ solid tokens = [] := by
  simp [skipLines, solid, List.dropWhile_eq_nil_iff]

theorem nothingFollows_eq_ok_iff {tokens : List Token} :
    nothingFollows tokens = .ok () ↔ tokens = [] := by
  cases tokens <;> simp [nothingFollows]

/-- Behind a construct that stands alone there is a `;` or nothing. -/
theorem endsSource_eq_ok_iff {tokens : List Token} :
    endsSource tokens = .ok () ↔
      solid tokens = [] ∨ ∃ t, solid tokens = [t] ∧ t.kind = .semicolon := by
  rw [endsSource]
  split
  · rename_i hskip
    simp [skipLines_eq_nil_iff.mp hskip]
  · rename_i t rest hskip
    obtain ⟨gap, rfl, hgap, ht⟩ := skipLines_eq_cons_iff.mp hskip
    rw [solid_append, hgap, List.nil_append, solid_cons_of_solid ht, nothingFollows_eq_ok_iff]
    split
    · rename_i hsemicolon
      simp [skipLines_eq_nil_iff, hsemicolon]
    · rename_i hsemicolon
      simp [hsemicolon]

theorem Outcome.alone_eq_ok_iff {α : Type} {x : Outcome α} {value : α} :
    x.alone = .ok value ↔ ∃ rest, x = .done value rest ∧ endsSource rest = .ok () := by
  cases x with
  | broken fault rest => simp [Outcome.alone]
  | done other rest =>
      cases hends : endsSource rest <;> simp [Outcome.alone, hends, Except.map, eq_comm]

/-! ## Items with nothing else around them -/

namespace Grammar

variable {o : ReadOptions} {tokens front rest gap : List Token} {t : Token} {d : Declaration}
  {declarations : List Declaration}

theorem Items.layout_cons (h : Items o tokens declarations) (ht : t.kind.isLayout = true) :
    Items o (t :: tokens) declarations := by
  have hlayout {layout : List Token} (h : significant layout = []) :
      significant (t :: layout) = [] := by
    simpa [significant, ht] using h
  cases h with
  | nil h => exact .nil (hlayout h)
  | item h hitem hrest => exact .item (hlayout h) hitem hrest
  | directive h hline hhead hrest => exact .directive (hlayout h) hline hhead hrest

/-- Blanks, comments, line breaks and `;` declare nothing. -/
theorem Items.idle_append (h : Items o tokens declarations)
    (hfront : ∀ t ∈ front, t.kind.isLayoutOrNewline = true ∨ t.kind = .semicolon) :
    Items o (front ++ tokens) declarations := by
  induction front with
  | nil => exact h
  | cons t front ih =>
      obtain ⟨ht, hfront⟩ := List.forall_mem_cons.mp hfront
      by_cases hlayout : t.kind.isLayout = true
      · exact (ih hfront).layout_cons hlayout
      · have hseparator : t.kind = .newline ∨ t.kind = .semicolon := by
          simpa [TokenKind.isLayoutOrNewline, hlayout] using ht
        rw [← List.nil_append (t :: front ++ tokens)]
        exact .item rfl (.separator hseparator) (ih hfront)

theorem ne_invalid_of_filter {p : Token → Bool}
    (hp : ∀ t : Token, t.kind = .invalid → p t = true)
    (h : ∀ t ∈ tokens.filter p, t.kind ≠ .invalid) : ∀ t ∈ tokens, t.kind ≠ .invalid := by
  intro t ht hinvalid
  exact h t (List.mem_filter.mpr ⟨ht, hp t hinvalid⟩) hinvalid

theorem ne_invalid_of_significant (h : ∀ t ∈ significant tokens, t.kind ≠ .invalid) :
    ∀ t ∈ tokens, t.kind ≠ .invalid :=
  ne_invalid_of_filter (fun t ht => by rw [ht]; rfl) h

theorem ne_invalid_of_solid (h : ∀ t ∈ solid tokens, t.kind ≠ .invalid) :
    ∀ t ∈ tokens, t.kind ≠ .invalid :=
  ne_invalid_of_filter (fun t ht => by rw [ht]; rfl) h

theorem Block.ne_invalid {α : Type} {inside : List Token → α → Prop} {block : List Token}
    {value : α} (h : Block inside block value)
    (hinside : ∀ body, inside body value → ∀ t ∈ body, t.kind ≠ .invalid) :
    ∀ t ∈ block, t.kind ≠ .invalid := by
  cases h with
  | mk hgap hleft hbody hright =>
      have hgap' := ne_invalid_of_solid (by rw [hgap]; nofun)
      simp only [List.forall_mem_append, List.forall_mem_cons]
      refine ⟨hgap', by simp [hleft], hinside _ hbody, by simp [hright], nofun⟩

theorem Ending.ne_invalid {name : Option Token} (h : Ending tokens name) :
    ∀ t ∈ tokens, t.kind ≠ .invalid := by
  cases h with
  | mk hfront hname ht =>
      refine List.forall_mem_append.mpr ⟨ne_invalid_of_solid ?_, by simp [ht]⟩
      rw [hfront]
      intro t ht
      simp [hname t (Option.mem_toList.mp ht)]

theorem StructBody.ne_invalid {members : List Argument} (h : StructBody o tokens members) :
    ∀ t ∈ tokens, t.kind ≠ .invalid :=
  ne_invalid_of_solid (Members.kind_ne h (by decide))

theorem ParameterList.ne_invalid {parameters : List Argument}
    (h : ParameterList o tokens parameters) : ∀ t ∈ tokens, t.kind ≠ .invalid := by
  cases h with
  | empty => nofun
  | void ht => simp [ht]
  | parameters h => exact h.kind_ne (by decide)

/-- No token of an item is invalid. -/
theorem Item.ne_invalid {d : Option Declaration} (h : Item o tokens d) :
    ∀ t ∈ tokens, t.kind ≠ .invalid := by
  cases h with
  | separator ht => rcases ht with ht | ht <;> simp [ht]
  | enum hkeyword hhead hname hblock htail =>
      simp only [List.forall_mem_append, List.forall_mem_cons]
      refine ⟨by simp [hkeyword], ne_invalid_of_significant ?_,
        hblock.ne_invalid fun _ hbody => hbody.1.ne_invalid, htail.ne_invalid⟩
      simp [hhead, hname]
  | struct hkeyword hhead hname hblock htail =>
      simp only [List.forall_mem_append, List.forall_mem_cons]
      refine ⟨by simp [hkeyword], ne_invalid_of_significant ?_,
        hblock.ne_invalid fun _ hbody => StructBody.ne_invalid hbody, htail.ne_invalid⟩
      simp [hhead, hname]
  | typedefEnum hfirst hhead hkeyword htag hblock htail =>
      simp only [List.forall_mem_append, List.forall_mem_cons]
      refine ⟨by simp [hfirst], ne_invalid_of_significant ?_,
        hblock.ne_invalid fun _ hbody => hbody.1.ne_invalid, htail.ne_invalid⟩
      rw [hhead, List.forall_mem_cons]
      exact ⟨by simp [hkeyword], fun t ht => by simp [htag t (Option.mem_toList.mp ht)]⟩
  | typedefStruct hfirst hhead hkeyword htag hblock htail =>
      simp only [List.forall_mem_append, List.forall_mem_cons]
      refine ⟨by simp [hfirst], ne_invalid_of_significant ?_,
        hblock.ne_invalid fun _ hbody => StructBody.ne_invalid hbody, htail.ne_invalid⟩
      rw [hhead, List.forall_mem_cons]
      exact ⟨by simp [hkeyword], fun t ht => by simp [htag t (Option.mem_toList.mp ht)]⟩
  | @prototype first name left right type head body tail _ _ htype hhead hname hleft hbody hright
      htail =>
      have hkinds : ∀ k ∈ first.kind :: type.map Token.kind, k ≠ .invalid := by
        intro k hk hinvalid
        exact absurd (htype.mem_argumentKinds k hk) (by rw [hinvalid]; decide)
      simp only [List.forall_mem_append, List.forall_mem_cons]
      refine ⟨hkinds _ List.mem_cons_self, ne_invalid_of_significant ?_, by simp [hleft],
        ne_invalid_of_solid hbody.ne_invalid, by simp [hright], htail.ne_invalid⟩
      rw [hhead, List.forall_mem_append]
      refine ⟨fun t ht => hkinds _ (List.mem_cons_of_mem _ (List.mem_map_of_mem ht)), ?_⟩
      simp [hname]

end Grammar

/-! ## A line feed and a `;` behind a source -/

/-- The ending of a construct, with nothing of account behind it. -/
def Terminates (tokens : List Token) : Prop :=
  ∃ tail more, tokens = tail ++ more ∧ Grammar.Ending tail none ∧
    ∀ t ∈ more, t.kind.isLayoutOrNewline = true ∨ t.kind = .semicolon

section

variable {o : ReadOptions} {source : Bytes} {front rest gap behind : List Token}
  {first right newline : Token} {d : Declaration}

theorem isLayoutOrNewline_of_solid (h : solid gap = []) :
    ∀ t ∈ gap, t.kind.isLayoutOrNewline = true := by
  simpa [solid] using h

theorem solid_of_newlines (h : ∀ t ∈ gap, t.kind = .newline) : solid gap = [] := by
  rw [solid, List.filter_eq_nil_iff]
  intro t ht
  simp [h t ht, TokenKind.isLayoutOrNewline]

theorem terminates_append (hnewline : newline.kind = .newline)
    (h : solid rest = [] ∨ ∃ t, solid rest = [t] ∧ t.kind = .semicolon) :
    Terminates (rest ++ [newline, .semicolon]) := by
  have hsolid : solid [newline] = [] := solid_of_newlines (by simpa using hnewline)
  rcases h with hrest | ⟨t, hrest, ht⟩
  · refine ⟨(rest ++ [newline]) ++ [.semicolon], [], by simp, .mk ?_ nofun rfl, nofun⟩
    rw [solid_append, hrest, hsolid]
    rfl
  · obtain ⟨before, more, rfl, hbefore, -, hmore⟩ := solid_eq_cons hrest
    refine ⟨before ++ [t], more ++ [newline, .semicolon], by simp, .mk hbefore nofun ht, ?_⟩
    simp only [List.forall_mem_append, List.forall_mem_cons]
    refine ⟨fun u hu => .inl (isLayoutOrNewline_of_solid hmore u hu), .inl ?_, .inr rfl, nofun⟩
    rw [hnewline]
    rfl

theorem ne_invalid_of_endsSource (h : solid rest = [] ∨ ∃ t, solid rest = [t] ∧ t.kind = .semicolon) :
    ∀ t ∈ rest, t.kind ≠ .invalid := by
  apply Grammar.ne_invalid_of_solid
  rcases h with hrest | ⟨t, hrest, ht⟩
  · simp [hrest]
  · simp [hrest, ht]

theorem append_cons_eq_concat {α : Type} {x y l : List α} {a b : α} (h : x ++ a :: l = y ++ [b]) :
    (x = y ∧ a = b ∧ l = []) ∨ ∃ l', l = l' ++ [b] ∧ x ++ a :: l' = y := by
  rcases List.eq_nil_or_concat l with rfl | ⟨l, c, rfl⟩
  · obtain ⟨rfl, hlast⟩ := List.append_inj' h rfl
    cases hlast
    exact .inl ⟨rfl, rfl, rfl⟩
  · rw [List.concat_eq_append, ← List.cons_append, ← List.append_assoc] at h
    obtain ⟨rfl, hlast⟩ := List.append_inj' h rfl
    cases hlast
    exact .inr ⟨l, List.concat_eq_append, rfl⟩

/-- Line breaks at the end of a list stand behind any other token. -/
theorem exists_of_append_newlines {front' : List Token} (h : front ++ right :: rest = front' ++ gap)
    (hright : right.kind ≠ .newline) (hgap : ∀ t ∈ gap, t.kind = .newline) :
    ∃ rest', rest = rest' ++ gap ∧ front' = front ++ right :: rest' := by
  induction gap using List.reverseRecOn generalizing rest with
  | nil => exact ⟨rest, by simp, by simpa using h.symm⟩
  | append_singleton gap t ih =>
      obtain ⟨hothers, ht⟩ := List.forall_mem_append.mp hgap
      rw [← List.append_assoc] at h
      rcases append_cons_eq_concat h with ⟨-, rfl, -⟩ | ⟨rest, rfl, hfront⟩
      · exact absurd (ht right (List.mem_singleton_self right)) hright
      · obtain ⟨rest', rfl, rfl⟩ := ih hfront hothers
        exact ⟨rest', by simp, rfl⟩

/-- What may stand behind a line feed is cut as it is alone. -/
theorem lexical_of_lineCut {tokens more : List Token}
    (h : LineCut source (tokens.map Token.spelling)) (hmore : Lexical more)
    (hslash : 0x2F ∉ Token.concat more) :
    Lexical (tokens ++ more) ∧
      Token.concat (tokens ++ more) = source ++ lineFeed :: Token.concat more := by
  have hcut := h _ _ hslash hmore
  rw [← List.map_append] at hcut
  have htext := hcut.flatten_eq
  rw [flatten_map_spelling] at htext
  refine ⟨?_, htext⟩
  rw [Lexical, htext]
  exact hcut

/-- A line feed and a `;` terminate a construct that stands alone. -/
theorem exists_terminated (hsource : tokenize source = front ++ right :: rest)
    (hvalid : ∀ t ∈ front ++ [right], t.kind ≠ .invalid) (hright : right.kind ≠ .newline)
    (hrest : endsSource rest = .ok ()) :
    ∃ behind, Lexical (front ++ right :: behind) ∧
      Token.concat (front ++ right :: behind) = source ++ ascii "\n;" ∧ Terminates behind := by
  have hends := endsSource_eq_ok_iff.mp hrest
  have hall : ∀ t ∈ tokenize source, t.kind ≠ .invalid := by
    rw [hsource, List.append_cons]
    exact List.forall_mem_append.mpr ⟨hvalid, ne_invalid_of_endsSource hends⟩
  obtain ⟨front', gap, newline, hfront, hgap, hnewline, hcut⟩ := exists_lineCut hall
  rw [hsource] at hfront
  obtain ⟨rest, rfl, rfl⟩ := exists_of_append_newlines hfront hright hgap
  rw [solid_append, solid_of_newlines hgap, List.append_nil] at hends
  have hsemicolon : Lexical [.semicolon] := (lexical_nil.cons_mark (by decide)).lexical
  obtain ⟨hlexical, hconcat⟩ := lexical_of_lineCut hcut hsemicolon (by decide)
  have htokens : front ++ right :: rest ++ [newline] ++ [.semicolon] =
      front ++ right :: (rest ++ [newline, .semicolon]) := by
    simp
  rw [htokens] at hlexical hconcat
  exact ⟨rest ++ [newline, .semicolon], hlexical, hconcat, terminates_append hnewline hends⟩

/-- An item that stands alone in a source is all that the source declares. -/
theorem readHeader_terminated (hsource : tokenize source = gap ++ first :: (front ++ right :: rest))
    (hgap : solid gap = []) (hright : right.kind ≠ .newline)
    (hitem : ∀ tail, Grammar.Ending tail none →
      Grammar.Item o (first :: (front ++ right :: tail)) (some d))
    (hrest : endsSource rest = .ok ()) :
    readHeader o (source ++ ascii "\n;") = ⟨[d], [], none⟩ := by
  have hvalid : ∀ t ∈ gap ++ first :: front ++ [right], t.kind ≠ .invalid := by
    have hitem' := (hitem _ ending_semicolon).ne_invalid
    have hgap' : ∀ t ∈ gap, t.kind ≠ .invalid :=
      Grammar.ne_invalid_of_solid (by rw [hgap]; nofun)
    simp only [List.forall_mem_append, List.forall_mem_cons] at hitem' ⊢
    exact ⟨⟨hgap', hitem'.1, hitem'.2.1⟩, hitem'.2.2.1, nofun⟩
  have hsource' : tokenize source = gap ++ first :: front ++ right :: rest := by
    simpa using hsource
  obtain ⟨behind, hlexical, hconcat, tail, more, rfl, htail, hmore⟩ :=
    exists_terminated hsource' hvalid hright hrest
  have hitems : Grammar.Items o (gap ++ first :: front ++ right :: (tail ++ more)) [d] := by
    have hmore' : Grammar.Items o (more ++ []) [] := .idle_append (.nil rfl) hmore
    have hall : Grammar.Items o ([] ++ _) _ := .item rfl (hitem tail htail) hmore'
    have hidle : ∀ t ∈ gap, t.kind.isLayoutOrNewline = true ∨ t.kind = .semicolon :=
      fun t ht => .inl (isLayoutOrNewline_of_solid hgap t ht)
    simpa using hall.idle_append hidle
  rw [← hconcat]
  exact hitems.readHeader_eq hlexical

theorem readHeader_of_parseEnum {e : Enum} (h : parseEnum o source = .ok e) :
    readHeader o (source ++ ascii "\n;") = ⟨[.enum e], [], none⟩ := by
  rw [parseEnum] at h
  split at h
  · cases h
  · rename_i start tokens hskip
    obtain ⟨gap, hsource, hgap, -⟩ := skipLines_eq_cons_iff.mp hskip
    split at h
    · rename_i hstart
      obtain ⟨rest, hread, hrest⟩ := Outcome.alone_eq_ok_iff.mp h
      obtain ⟨front, right, rfl, hright, hitem⟩ := Grammar.readEnum_item hstart hread
      exact readHeader_terminated hsource hgap (by simp [hright]) hitem hrest
    · cases h

theorem readHeader_of_parsePrototype {p : Prototype} (h : parsePrototype o source = .ok p) :
    readHeader o (source ++ ascii "\n;") = ⟨[.prototype p], [], none⟩ := by
  rw [parsePrototype] at h
  split at h
  · cases h
  · rename_i start tokens hskip
    obtain ⟨gap, hsource, hgap, -⟩ := skipLines_eq_cons_iff.mp hskip
    split at h
    · cases h
    · rename_i keyword hkeyword
      split at h
      · cases h
      · rename_i other rest hread
        have halone : (Outcome.done other rest).alone = .ok p := by
          split at h
          · split at h
            · cases h
            · exact h
          · exact h
        obtain ⟨_, hdone, hrest⟩ := Outcome.alone_eq_ok_iff.mp halone
        cases hdone
        obtain ⟨front, right, rfl, hright, hitem⟩ := Grammar.readPrototype_item hkeyword hread
        exact readHeader_terminated hsource hgap (by simp [hright]) hitem hrest

/-! ## The body of a struct -/

theorem isName_of_tokenize {name : Bytes} (h : (tokenize name).map Token.kind = [.identifier]) :
    name.IsName := by
  obtain ⟨t, ht, hkind⟩ := List.map_eq_singleton_iff.mp h
  have hlexical := lexical_tokenize name
  have hconcat := concat_tokenize name
  rw [ht] at hlexical hconcat
  have htext : t.text = name := by simpa using hconcat
  have hfirst := hlexical.firstKind List.mem_cons_self (by simp [hkind])
  rwa [htext, hkind] at hfirst

theorem head?_solid (tokens : List Token) : (solid tokens).head? = (skipLines tokens).head? := by
  cases hskip : skipLines tokens with
  | nil => rw [skipLines_eq_nil_iff.mp hskip]
  | cons t rest =>
      obtain ⟨gap, rfl, hgap, ht⟩ := skipLines_eq_cons_iff.mp hskip
      rw [solid_append, hgap, List.nil_append, solid_cons_of_solid ht]
      rfl

/-- Members in braces are read as the body of a struct is. -/
theorem readBareBody_of_brace {description : Bytes} {finish : Position} {tokens rest : List Token}
    {members : List Argument} (hbrace : (solid tokens).head?.map Token.kind = some .leftBrace)
    (h : readBareBody o description finish tokens = .done members rest) :
    ∃ gap left body right, tokens = gap ++ left :: (body ++ right :: rest) ∧ solid gap = [] ∧
      left.kind = .leftBrace ∧ right.kind = .rightBrace ∧ Grammar.StructBody o body members := by
  rw [head?_solid] at hbrace
  rw [readBareBody] at h
  split at h
  · rename_i hskip
    simp [hskip] at hbrace
  · rename_i left behind hskip
    obtain ⟨gap, rfl, hgap, -⟩ := skipLines_eq_cons_iff.mp hskip
    have hleft : left.kind = .leftBrace := by simpa [hskip] using hbrace
    rw [if_pos hleft] at h
    obtain ⟨body, right, rfl, hright, others, rfl, hmembers⟩ :=
      (Grammar.readMembers_eq_done_iff (by simp)).mp h
    exact ⟨gap, left, body, right, rfl, hgap, hleft, hright, by
      simpa [Grammar.StructBody] using hmembers⟩

theorem parseStruct_eq_ok_iff {name body : Bytes} {s : Struct} :
    parseStruct o name body = .ok s ↔ name.isIdentifier = true ∧ s.name = name ∧
      ∃ rest, readBareBody o (ascii "struct " ++ name) (Position.endOf body) (tokenize body) =
        .done s.attributes rest ∧ endsSource rest = .ok () := by
  rw [← Outcome.alone_eq_ok_iff, parseStruct]
  obtain ⟨structName, members⟩ := s
  split
  · rename_i hname
    cases (readBareBody o (ascii "struct " ++ name) (Position.endOf body) (tokenize body)).alone with
    | ok members => simp [Except.map, hname, eq_comm]
    | error fault => simp [Except.map]
  · rename_i hname
    simp [hname]

/-- The tokens of a struct of a name, before a text that no word goes on into. -/
theorem lexical_structHead {name : Bytes} {tokens : List Token} (hname : name.IsName)
    (h : WordEnd tokens) :
    Lexical (.keyword (.structKeyword, "struct") ::
      (Token.behindSpaces [.name name] ++ tokens)) :=
  (h.behindSpaces (List.forall_mem_singleton.mpr hname.isWord)).cons_word
    (isWord_keyword (.structKeyword, "struct") (by decide))

theorem concat_structHead (name : Bytes) (tokens : List Token) :
    Token.concat (.keyword (.structKeyword, "struct") ::
        (Token.behindSpaces [.name name] ++ tokens)) =
      ascii "struct " ++ name ++ Token.concat tokens := by
  simp [Token.behindSpaces, Token.keyword, Token.name, Token.space, Token.spelled, ascii]

/-- A struct of a name, a body and an ending. -/
theorem item_struct {name : Bytes} {left : Token} {body tail : List Token} {members : List Argument}
    (hname : name.IsName) (hgap : solid gap = []) (hleft : left.kind = .leftBrace)
    (hbody : Grammar.StructBody o body members) (hright : right.kind = .rightBrace)
    (htail : Grammar.Ending tail none) :
    Grammar.Item o (.keyword (.structKeyword, "struct") :: (Token.behindSpaces [.name name] ++
      (gap ++ left :: (body ++ [right]) ++ tail))) (some (.struct ⟨name, members⟩)) :=
  .struct rfl (significant_behindSpaces (List.forall_mem_singleton.mpr hname.isWord)) rfl
    (.mk hgap hleft hbody hright) htail

/-- A space before a brace is part of the gap before it. -/
theorem exists_gap {blank : Token} {tokens others : List Token} {left : Token}
    (hblank : blank.kind = .whiteSpace) (hgap : solid gap = []) (hleft : left.kind = .leftBrace)
    (h : gap ++ left :: tokens = others ∨
      ∃ t : Token, t.kind = .whiteSpace ∧ gap ++ left :: tokens = t :: others) :
    ∃ gap', solid gap' = [] ∧ blank :: others = gap' ++ left :: tokens := by
  have hsolid {gap : List Token} (hgap : solid gap = []) : solid (blank :: gap) = [] := by
    rw [solid_cons_of_blank (by rw [hblank]; rfl), hgap]
  rcases h with rfl | ⟨t, ht, h⟩
  · exact ⟨blank :: gap, hsolid hgap, rfl⟩
  · cases gap with
    | nil =>
        obtain ⟨rfl, -⟩ := List.cons.inj h
        rw [hleft] at ht
        cases ht
    | cons u gap =>
        obtain ⟨rfl, rfl⟩ := List.cons.inj h
        rw [solid_cons_of_blank (by rw [ht]; rfl)] at hgap
        exact ⟨blank :: gap, hsolid hgap, rfl⟩

theorem readHeader_of_parseStruct {name body : Bytes} {s : Struct} (hname : name.IsName)
    (hbrace : (solid (tokenize body)).head?.map Token.kind = some .leftBrace)
    (h : parseStruct o name body = .ok s) :
    readHeader o (ascii "struct " ++ name ++ ascii " " ++ body ++ ascii "\n;") =
      ⟨[.struct s], [], none⟩ := by
  obtain ⟨-, rfl, rest, hread, hrest⟩ := parseStruct_eq_ok_iff.mp h
  obtain ⟨gap, left, inside, right, hsource, hgap, hleft, hright, hmembers⟩ :=
    readBareBody_of_brace hbrace hread
  have hvalid : ∀ t ∈ gap ++ left :: inside ++ [right], t.kind ≠ .invalid := by
    have hblock : Grammar.Block (Grammar.StructBody o) _ _ := .mk hgap hleft hmembers hright
    have hall := hblock.ne_invalid fun _ => Grammar.StructBody.ne_invalid
    simpa using hall
  have hsource' : tokenize body = gap ++ left :: inside ++ right :: rest := by
    simpa using hsource
  obtain ⟨behind, hlexical, hconcat, tail, more, rfl, htail, hmore⟩ :=
    exists_terminated hsource' hvalid (by simp [hright]) hrest
  obtain ⟨blank, others, hword, hspace, hblank, hothers⟩ := hlexical.exists_space
  rw [List.append_assoc, List.cons_append] at hothers
  obtain ⟨gap, hgap, hblanks⟩ := exists_gap hblank hgap hleft hothers
  have hitems : Grammar.Items o (.keyword (.structKeyword, "struct") ::
      (Token.behindSpaces [.name s.name] ++ (blank :: others))) [.struct s] := by
    have hmore' : Grammar.Items o (more ++ []) [] := .idle_append (.nil rfl) hmore
    have hall : Grammar.Items o ([] ++ _) _ :=
      .item rfl (item_struct hname hgap hleft hmembers hright htail) hmore'
    rw [hblanks]
    simpa using hall
  have hheader := hitems.readHeader_eq (lexical_structHead hname hword)
  rw [concat_structHead, hspace, hconcat] at hheader
  simpa [ascii] using hheader

/-! ## Members without braces -/

/-- Members up to the end of the source are members up to a brace that is put there. -/
theorem readMembers_endOfSource_iff {c : Construct} {finish : Position} {done : Array Argument}
    {current : Array Token} {tokens : List Token} {members : List Argument} (more : List Token)
    (hright : right.kind = .rightBrace) :
    readMembers o c (.endOfSource finish) done current tokens = .done members rest ↔
      rest = [] ∧
        readMembers o c .brace done current (tokens ++ right :: more) = .done members more := by
  induction tokens generalizing done current with
  | nil =>
      simp only [List.nil_append, readMembers, hright, and_true]
      by_cases hcurrent : current.isEmpty = true
      · simp [hcurrent, eq_comm, and_comm]
      · simp [hcurrent]
  | cons t tokens ih =>
      simp only [List.cons_append, readMembers]
      split
      · exact ih
      · exact ih
      · exact ih
      · cases current.toList with
        | nil => exact ih
        | cons first others =>
            simp only
            cases Argument.ofTokens o .malformedMember first others with
            | ok a => exact ih
            | error fault => simp
      · -- The brace is not the one that was put behind the tokens.
        have hlonger : tokens ++ right :: more ≠ more := by
          intro h
          have hlength := congrArg List.length h
          simp only [List.length_append, List.length_cons] at hlength
          omega
        by_cases hcurrent : current.isEmpty = true
        · simp [hcurrent, hlonger]
        · simp [hcurrent]
      · simp
      · exact ih

theorem readMembers_endOfSource_eq_done_iff {c : Construct} {finish : Position}
    {tokens : List Token} {members : List Argument} :
    readMembers o c (.endOfSource finish) #[] #[] tokens = .done members rest ↔
      rest = [] ∧ Grammar.Members o (solid tokens) members := by
  have hright : (Token.spelled .rightBrace [0x7D]).kind = .rightBrace := rfl
  rw [readMembers_endOfSource_iff [] hright, Grammar.readMembers_eq_done_iff (by simp)]
  refine and_congr_right fun _ => ?_
  constructor
  · intro h
    obtain ⟨body, right, htokens, -, others, rfl, hmembers⟩ := h
    obtain ⟨rfl, -⟩ := List.append_inj' htokens rfl
    simpa using hmembers
  · intro h
    exact ⟨tokens, _, rfl, rfl, members, by simp, by simpa using h⟩

theorem readBareBody_of_bare {description : Bytes} {finish : Position} {tokens : List Token}
    {members : List Argument} (hbare : (solid tokens).head?.map Token.kind ≠ some .leftBrace) :
    readBareBody o description finish tokens = .done members rest ↔
      rest = [] ∧ Grammar.Members o (solid tokens) members := by
  rw [head?_solid] at hbare
  rw [readBareBody]
  split
  · rename_i hskip
    let c : Construct := ⟨description, finish, .unclosedStruct⟩
    have hmembers : readMembers o c (.endOfSource finish) #[] #[] [] = .done members rest ↔
        rest = [] ∧ Grammar.Members o (solid []) members :=
      readMembers_endOfSource_eq_done_iff
    rw [skipLines_eq_nil_iff.mp hskip]
    exact hmembers
  · rename_i t behind hskip
    have ht : ¬ t.kind = .leftBrace := by simpa [hskip] using hbare
    obtain ⟨gap, rfl, hgap, -⟩ := skipLines_eq_cons_iff.mp hskip
    rw [if_neg ht, readMembers_endOfSource_eq_done_iff, solid_append, hgap, List.nil_append]

theorem parseStruct_collect (collect : Bool) :
    parseStruct { o with collect := collect } = parseStruct o := by
  funext name body
  simp only [parseStruct, readBareBody, readMembers_collect]

theorem parseStruct_of_bare {name body : Bytes} {s : Struct} (hname : name.IsName)
    (hbare : (solid (tokenize body)).head?.map Token.kind ≠ some .leftBrace) :
    parseStruct o name body = .ok s ↔
      s.name = name ∧ Grammar.Members o (solid (tokenize body)) s.attributes := by
  rw [parseStruct_eq_ok_iff]
  simp only [readBareBody_of_bare hbare, hname.isIdentifier, true_and]
  refine and_congr_right fun _ => ?_
  constructor
  · intro h
    obtain ⟨rest, ⟨-, hmembers⟩, -⟩ := h
    exact hmembers
  · intro h
    exact ⟨[], ⟨rfl, h⟩, rfl⟩

/-! ## A brace behind a line break -/

theorem exists_of_append_eq {α : Type} {x y l w : List α} {a : α} (h : x ++ l = y ++ a :: w)
    (ha : a ∉ x) : ∃ y', l = y' ++ a :: w := by
  rcases List.append_eq_append_iff.mp h with ⟨y', rfl, rfl⟩ | ⟨x', rfl, hx⟩
  · exact ⟨y', rfl⟩
  · cases x' with
    | nil => exact ⟨[], by simpa using hx.symm⟩
    | cons b x' =>
        obtain ⟨rfl, -⟩ := List.cons.inj hx
        exact absurd (by simp) ha

namespace Grammar

variable {tokens : List Token} {t : Token} {declarations : List Declaration}

/-- The first token that is no layout starts an item or a directive line. -/
theorem Items.cons_cases (h : Items o (t :: tokens) declarations) (ht : t.kind.isLayout = false) :
    ∃ front rest d others, tokens = front ++ rest ∧
      (Item o (t :: front) d ∨ DirectiveLine (t :: front) d) ∧ Items o rest others ∧
      declarations = d.toList ++ others := by
  have hnil {layout l : List Token} (hlayout : significant layout = [])
      (heq : t :: tokens = layout ++ l) : l = t :: tokens := by
    cases layout with
    | nil => exact heq.symm
    | cons u layout =>
        obtain ⟨rfl, -⟩ := List.cons.inj heq
        rw [significant_cons ht] at hlayout
        cases hlayout
  generalize hall : t :: tokens = all at h
  cases h with
  | nil hlayout =>
      rw [← List.append_nil all] at hall
      cases hnil hlayout hall
  | @item layout front rest d others hlayout hitem hrest =>
      obtain ⟨u, front, rfl⟩ := List.exists_cons_of_ne_nil hitem.ne_nil
      obtain ⟨rfl, rfl⟩ := List.cons.inj (hnil hlayout hall)
      exact ⟨front, rest, d, others, rfl, .inl hitem, hrest, rfl⟩
  | @directive layout front rest d others hlayout hline _ hrest =>
      obtain ⟨u, front, rfl⟩ := List.exists_cons_of_ne_nil hline.ne_nil
      obtain ⟨rfl, rfl⟩ := List.cons.inj (hnil hlayout hall)
      exact ⟨front, rest, d, others, rfl, .inr hline, hrest, rfl⟩

theorem Items.struct_cases {s : Struct} (h : Items o (t :: tokens) [.struct s])
    (ht : t.kind = .structKeyword) :
    ∃ rest, readStructDeclaration o t.position tokens = .done (.struct s) rest ∧
      Items o rest [] := by
  obtain ⟨front, rest, d, others, rfl, hfirst, hrest, hdeclared⟩ :=
    h.cons_cases (by rw [ht]; rfl)
  have hitem : Item o (t :: front) d := by
    rcases hfirst with hitem | ⟨hdirective, -, -⟩
    · exact hitem
    · simp [ht, TokenKind.isDirective] at hdirective
  have hread := readConstruct_of_item rest hitem (by simp [ht])
  simp only [readConstruct, ht, TokenKind.isDirective, Bool.false_eq_true, if_false] at hread
  obtain ⟨declared, hstruct, rfl⟩ := Outcome.map_eq_done_iff.mp hread
  obtain ⟨rfl, rfl⟩ := List.cons.inj hdeclared
  exact ⟨rest, hstruct, hrest⟩

theorem Item.not_rightBrace {d : Option Declaration} (h : Item o (t :: front) d) :
    t.kind ≠ .rightBrace := by
  intro hk
  rcases h.cons_cases with ⟨hseparator, -⟩ | hkind
  · simp [hk] at hseparator
  · rw [hk] at hkind
    exact absurd hkind (by decide)

theorem not_items_of_rightBrace (ht : t.kind = .rightBrace) :
    ¬ Items o (t :: tokens) declarations := by
  intro h
  obtain ⟨front, rest, d, others, -, hfirst, -, -⟩ := h.cons_cases (by rw [ht]; rfl)
  rcases hfirst with hitem | ⟨hdirective, -, -⟩
  · exact hitem.not_rightBrace ht
  · simp [ht, TokenKind.isDirective] at hdirective

/-- Where nothing is declared, no brace starts a line: no directive reaches past a line break. -/
theorem not_items_nil_of_rightBrace {before : List Token} (hnewline : newline.kind = .newline)
    (hright : right.kind = .rightBrace) :
    ¬ Items o (before ++ newline :: right :: rest) [] := by
  intro h
  generalize hall : before ++ newline :: right :: rest = all at h
  generalize hnone : ([] : List Declaration) = none at h
  have hlayout {layout : List Token} (hlayout : significant layout = []) : newline ∉ layout := by
    intro hmem
    have hsignificant : newline ∈ significant layout := by
      simp [significant, hmem, hnewline, TokenKind.isLayout]
    simp [hlayout] at hsignificant
  induction h generalizing before with
  | nil h => exact hlayout h (by simp [← hall])
  | @item layout front tokens d others h hitem hrest ih =>
      obtain ⟨hd, rfl⟩ := List.append_eq_nil_iff.mp hnone.symm
      rw [Option.toList_eq_nil_iff] at hd
      subst hd
      cases hitem with
      | @separator t ht =>
          obtain ⟨before, hbefore⟩ := exists_of_append_eq hall.symm (hlayout h)
          cases before with
          | nil =>
              obtain ⟨-, rfl⟩ := List.cons.inj hbefore
              exact not_items_of_rightBrace hright hrest
          | cons u before =>
              obtain ⟨-, rfl⟩ := List.cons.inj hbefore
              exact ih rfl rfl
  | @directive layout front tokens d others h hline _ hrest ih =>
      obtain ⟨-, rfl⟩ := List.append_eq_nil_iff.mp hnone.symm
      rw [← List.append_assoc] at hall
      obtain ⟨before, rfl⟩ := exists_of_append_eq hall.symm (by
        rw [List.mem_append, not_or]
        exact ⟨hlayout h, fun hmem => hline.kind_ne_newline newline hmem hnewline⟩)
      exact ih rfl rfl

end Grammar

/-- What is read up to a brace and a `;` ends with the source, or leaves the end of the source
unread. -/
theorem closing_cases {body : List Token} {brace semicolon t : Token} {behind : List Token}
    (h : body ++ right :: (gap ++ t :: behind) = front ++ [newline, brace, semicolon])
    (hgap : solid gap = []) (ht : t.kind = .semicolon) (hnewline : newline.kind = .newline)
    (hbrace : brace.kind = .rightBrace) :
    body = front ++ [newline] ∨ ∃ before, behind = before ++ [newline, brace, semicolon] := by
  have hall : (body ++ right :: gap) ++ t :: behind = (front ++ [newline, brace]) ++ [semicolon] := by
    simpa using h
  -- The tokens are compared from the end.
  rcases append_cons_eq_concat hall with ⟨hbody, -, -⟩ | ⟨behind, rfl, hbrace'⟩
  · rw [List.append_cons front] at hbody
    rcases append_cons_eq_concat hbody with ⟨rfl, -, -⟩ | ⟨gap, rfl, -⟩
    · exact .inl rfl
    · simp [solid, hbrace, TokenKind.isLayoutOrNewline, TokenKind.isLayout] at hgap
  · rw [List.append_cons front] at hbrace'
    rcases append_cons_eq_concat hbrace' with ⟨-, rfl, -⟩ | ⟨behind, rfl, hnewline'⟩
    · rw [hbrace] at ht
      cases ht
    · rcases append_cons_eq_concat hnewline' with ⟨-, rfl, -⟩ | ⟨behind, rfl, -⟩
      · rw [hnewline] at ht
        cases ht
      · exact .inr ⟨behind, by simp⟩

/-- The tokens of a struct whose members stand on lines of their own between braces. -/
def bracedStruct (name : Bytes) (members : List Token) : List Token :=
  .keyword (.structKeyword, "struct") :: (Token.behindSpaces [.name name] ++
    (.space :: .spelled .leftBrace [0x7B] ::
      (members ++ [.spelled .rightBrace [0x7D], .semicolon])))

theorem readTokens_bracedStruct {name : Bytes} {s : Struct} (hname : name.IsName)
    (ho : o.collect = false) (hnewline : newline.kind = .newline) :
    readTokens o (bracedStruct name (front ++ [newline])) = ⟨[.struct s], [], none⟩ ↔
      s.name = name ∧ Grammar.Members o (solid front) s.attributes := by
  have hsolid : solid (front ++ [newline]) = solid front := by
    have hline : solid [newline] = [] := solid_of_newlines (by simpa using hnewline)
    rw [solid_append, hline, List.append_nil]
  constructor
  · intro h
    have hitems : Grammar.Items o (bracedStruct name (front ++ [newline])) [.struct s] :=
      (Grammar.readTokens_accepts_iff ho).mp ⟨by rw [h], by rw [h]⟩
    obtain ⟨rest, hread, hrest⟩ := hitems.struct_cases rfl
    obtain ⟨members, behind, hmembers, hnext⟩ := Outcome.andThen_eq_done_iff.mp hread
    obtain ⟨_, hend, hstruct⟩ := Outcome.map_eq_done_iff.mp hnext
    cases hstruct
    obtain ⟨tail, rfl, htail⟩ := Grammar.readEnd_eq_done_iff.mp hend
    obtain @⟨gap, _, t, hgap, -, ht⟩ := htail
    obtain ⟨body, right, htokens, hright, others, rfl, hbody⟩ :=
      (Grammar.readMembers_eq_done_iff (by simp)).mp hmembers
    have hclosing : body ++ right :: (gap ++ t :: rest) =
        front ++ [newline, .spelled .rightBrace [0x7D], .semicolon] := by
      simpa using htokens.symm
    rcases closing_cases hclosing hgap ht hnewline rfl with rfl | ⟨before, rfl⟩
    · exact ⟨rfl, by simpa [hsolid] using hbody⟩
    · exact absurd hrest (Grammar.not_items_nil_of_rightBrace hnewline rfl)
  · intro h
    obtain ⟨rfl, hmembers⟩ := h
    have hbody : Grammar.StructBody o (front ++ [newline]) s.attributes := by
      rw [Grammar.StructBody, hsolid]
      exact hmembers
    have hgap : solid [.space] = [] := rfl
    have hleft : (Token.spelled .leftBrace [0x7B]).kind = .leftBrace := rfl
    have hright : (Token.spelled .rightBrace [0x7D]).kind = .rightBrace := rfl
    have hitem := item_struct hname hgap hleft hbody hright ending_semicolon
    have hitems : Grammar.Items o ([] ++ (_ ++ [])) _ := .item rfl hitem (.nil rfl)
    have hread := hitems.readTokens_eq
    simpa [bracedStruct] using hread

/-- Members alone are read exactly if the struct with braces around them is read and is all there
is. -/
theorem parseStruct_eq_ok_iff_readHeader {name body : Bytes} {s : Struct} (hname : name.IsName)
    (hvalid : ∀ t ∈ tokenize body, t.kind ≠ .invalid)
    (hbare : (solid (tokenize body)).head?.map Token.kind ≠ some .leftBrace) :
    parseStruct o name body = .ok s ↔
      readHeader { o with collect := false }
        (ascii "struct " ++ name ++ ascii " \x7b" ++ body ++ ascii "\n\x7d;") =
        ⟨[.struct s], [], none⟩ := by
  obtain ⟨front, gap, newline, hsource, hgap, hnewline, hcut⟩ := exists_lineCut hvalid
  have hsolid : solid (tokenize body) = solid front := by
    rw [hsource, solid_append, solid_of_newlines hgap, List.append_nil]
  have hclosing : Lexical [.spelled .rightBrace [0x7D], .semicolon] :=
    (wordEnd_closing (by decide)).lexical
  obtain ⟨hmembers, hconcat⟩ := lexical_of_lineCut hcut hclosing (by decide)
  have hlexical : Lexical (bracedStruct name (front ++ [newline])) :=
    lexical_structHead hname (hmembers.space_mark (by decide))
  have htext : Token.concat (bracedStruct name (front ++ [newline])) =
      ascii "struct " ++ name ++ ascii " \x7b" ++ body ++ ascii "\n\x7d;" := by
    rw [bracedStruct, concat_structHead, Token.concat_cons, Token.concat_cons, hconcat]
    simp [Token.space, Token.semicolon, Token.spelled, ascii, lineFeed]
  rw [← htext, readHeader_concat_eq_iff hlexical, ← parseStruct_collect false,
    parseStruct_of_bare hname hbare, hsolid, readTokens_bracedStruct hname rfl hnewline]

end

/-- The readers of single constructs agree with the reader of headers. An enum or a prototype that
is read alone, and members in braces that are read as a struct of a name, are all that a header
declares with the same text and a `;` on a line of its own. Members without braces are read exactly
if the header with braces around them is accepted and declares the struct alone. -/
theorem single_constructs_readHeader (o : ReadOptions) :
    (∀ source e, parseEnum o source = .ok e →
      readHeader o (source ++ ascii "\n;") = ⟨[.enum e], [], none⟩) ∧
    (∀ source p, parsePrototype o source = .ok p →
      readHeader o (source ++ ascii "\n;") = ⟨[.prototype p], [], none⟩) ∧
    (∀ name body s, (tokenize name).map Token.kind = [.identifier] →
      (solid (tokenize body)).head?.map Token.kind = some .leftBrace →
      parseStruct o name body = .ok s →
      readHeader o (ascii "struct " ++ name ++ ascii " " ++ body ++ ascii "\n;") =
        ⟨[.struct s], [], none⟩) ∧
    (∀ name body s, (tokenize name).map Token.kind = [.identifier] →
      (∀ t ∈ tokenize body, t.kind ≠ .invalid) →
      (solid (tokenize body)).head?.map Token.kind ≠ some .leftBrace →
      (parseStruct o name body = .ok s ↔
        readHeader { o with collect := false }
          (ascii "struct " ++ name ++ ascii " \x7b" ++ body ++ ascii "\n\x7d;") =
          ⟨[.struct s], [], none⟩)) := by
  refine ⟨?_, ?_, ?_, ?_⟩
  · intro source e h
    exact readHeader_of_parseEnum h
  · intro source p h
    exact readHeader_of_parsePrototype h
  · intro name body s hname hbrace h
    exact readHeader_of_parseStruct (isName_of_tokenize hname) hbrace h
  · intro name body s hname hvalid hbare
    exact parseStruct_eq_ok_iff_readHeader (isName_of_tokenize hname) hvalid hbare

/-- A comment behind an enum reaches to the line feed, members in braces have a `;` of their own,
and a `;` stands alone among members without braces. -/
theorem single_constructs_readHeader_comments :
    let o := ReadOptions.default
    let e := ascii "enum E \x7b A, B \x7d // \x7d"
    let p := ascii "\nlong long f(int a)"
    let braced := ascii " \x7b int x; \x7d ;"
    let bare := ascii "\nint x;; // \x7d"
    let enum : Enum := ⟨ascii "E", [ascii "A", ascii "B"]⟩
    let prototype : Prototype := ⟨ascii "f", .scalar .longLong, [⟨ascii "a", .scalar .int⟩]⟩
    let s : Struct := ⟨ascii "S", [⟨ascii "x", .scalar .int⟩]⟩
    (parseEnum o e = .ok enum ∧ readHeader o (e ++ ascii "\n;") = ⟨[.enum enum], [], none⟩) ∧
    (parsePrototype o p = .ok prototype ∧
      readHeader o (p ++ ascii "\n;") = ⟨[.prototype prototype], [], none⟩) ∧
    (parseStruct o (ascii "S") braced = .ok s ∧
      readHeader o (ascii "struct " ++ ascii "S" ++ ascii " " ++ braced ++ ascii "\n;") =
        ⟨[.struct s], [], none⟩) ∧
    parseStruct o (ascii "S") bare = .ok s ∧
      readHeader { o with collect := false }
        (ascii "struct " ++ ascii "S" ++ ascii " \x7b" ++ bare ++ ascii "\n\x7d;") =
        ⟨[.struct s], [], none⟩ := by
  intro o e p braced bare enum prototype s
  obtain ⟨henum, hprototype, hbraced, hbare⟩ := single_constructs_readHeader o
  have hname : (tokenize (ascii "S")).map Token.kind = [.identifier] := by decide +kernel
  have hparseEnum : parseEnum o e = .ok enum := by decide +kernel
  have hparsePrototype : parsePrototype o p = .ok prototype := by decide +kernel
  have hparseBraced : parseStruct o (ascii "S") braced = .ok s := by decide +kernel
  have hparseBare : parseStruct o (ascii "S") bare = .ok s := by decide +kernel
  refine ⟨⟨hparseEnum, henum e _ hparseEnum⟩,
    ⟨hparsePrototype, hprototype p _ hparsePrototype⟩, ⟨hparseBraced, ?_⟩, hparseBare, ?_⟩
  · exact hbraced _ braced s hname (by decide +kernel) hparseBraced
  · exact (hbare _ bare s hname (by decide +kernel) (by decide +kernel)).mp hparseBare

end HeaderBinding
