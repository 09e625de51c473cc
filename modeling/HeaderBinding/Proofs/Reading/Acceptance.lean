import HeaderBinding.Proofs.Reading.Collecting
import HeaderBinding.Proofs.Reading.Constructs

/-!
# A header is accepted exactly if the grammar derives it

The items of a header are read one after another, whatever follows them. A session that does not
collect faults comes to its end without one only along a derivation.
-/

namespace HeaderBinding

namespace Grammar

/-! ## Directive lines -/

theorem endsDirective_eq_true_iff {t : Token} :
    t.endsDirective = true ↔ t.kind = .newline ∨ t.kind = .semicolon := by
  simp [Token.endsDirective]

/-- A directive takes its line, and leaves the mark that ends it. -/
theorem readDirective_eq_done_iff {t : Token} {tokens rest : List Token} {d : Option Declaration}
    (ht : t.kind.isDirective = true) :
    readDirective t tokens = .done d rest ↔
      ∃ line, tokens = line ++ rest ∧ DirectiveLine (t :: line) d ∧
        ∀ u ∈ rest.head?, u.kind = .newline ∨ u.kind = .semicolon := by
  constructor
  · intro h
    unfold readDirective at h
    dsimp only at h
    split at h
    · rename_i hstatement
      cases h
      refine ⟨tokens.takeWhile (!·.endsDirective), List.takeWhile_append_dropWhile.symm,
        .mk ht ?_ hstatement, ?_⟩
      · intro u hu
        have hpart : u.endsDirective = false := by simpa using List.mem_takeWhile_imp hu
        rwa [← Bool.not_eq_true, endsDirective_eq_true_iff, not_or] at hpart
      · intro u hu
        have hends := List.head?_dropWhile_not (!·.endsDirective) tokens
        rw [hu] at hends
        exact endsDirective_eq_true_iff.mp (by simpa using hends)
    · cases h
  · intro h
    rcases h with ⟨line, rfl, ⟨_, hline, hstatement⟩, hrest⟩
    have hinside : ∀ u ∈ line, (!u.endsDirective) = true := by
      intro u hu
      rw [Bool.not_eq_true', ← Bool.not_eq_true, endsDirective_eq_true_iff, not_or]
      exact hline u hu
    have hcut : rest.takeWhile (!·.endsDirective) = [] ∧
        rest.dropWhile (!·.endsDirective) = rest := by
      cases rest with
      | nil => simp
      | cons u rest =>
          have hu : u.endsDirective = true := endsDirective_eq_true_iff.mpr (hrest u rfl)
          simp [hu]
    simp only [readDirective, List.takeWhile_append_of_pos hinside,
      List.dropWhile_append_of_pos hinside, hcut, List.append_nil, hstatement]

/-! ## Items are read one after another -/

/-- An item is a separator alone or starts with a keyword. -/
theorem Item.cons_cases {o : ReadOptions} {t : Token} {tokens : List Token}
    {d : Option Declaration} (h : Item o (t :: tokens) d) :
    ((t.kind = .newline ∨ t.kind = .semicolon) ∧ tokens = [] ∧ d = none) ∨
      t.kind ∈ .structKeyword :: .typedefKeyword :: argumentKinds := by
  cases h with
  | separator hk => exact .inl ⟨hk, rfl, rfl⟩
  | enum hk | struct hk | typedefEnum hk | typedefStruct hk =>
      right
      rw [hk]
      decide
  | prototype htype =>
      have hmem := htype.mem_argumentKinds t.kind (by simp)
      exact .inr (by simp [hmem])

theorem Item.ne_nil {o : ReadOptions} {front : List Token} {d : Option Declaration}
    (h : Item o front d) : front ≠ [] := by
  cases h <;> simp

theorem DirectiveLine.ne_nil {front : List Token} {d : Option Declaration}
    (h : DirectiveLine front d) : front ≠ [] := by
  cases h
  simp

theorem DirectiveLine.kind_ne_newline {front : List Token} {d : Option Declaration}
    (h : DirectiveLine front d) : ∀ t ∈ front, t.kind ≠ .newline := by
  cases h with
  | mk hdirective hline _ =>
      intro u hu
      rcases List.mem_cons.mp hu with rfl | hu
      · intro hk
        simp [hk, TokenKind.isDirective] at hdirective
      · exact (hline u hu).1

/-- The step that reads a construct behind layout. -/
theorem advance_declare {o : ReadOptions} {layout behind rest : List Token} {t : Token}
    {d : Option Declaration} (hlayout : significant layout = [])
    (hkind : t.kind.isLayout = false ∧ t.kind ∉ [.newline, .semicolon, .rightBrace])
    (hread : readConstruct o t behind = .done d rest) (linkage : Nat)
    (declarations : Array Declaration) (diagnostics : Array Fault) :
    Session.Advance o ⟨layout ++ t :: behind, linkage, declarations, diagnostics⟩
      (.go ⟨rest, linkage, declarations ++ d.toList, diagnostics⟩) := by
  obtain ⟨hsolid, hmark⟩ := hkind
  simp only [List.mem_cons, List.not_mem_nil, or_false, not_or] at hmark
  obtain ⟨hnewline, hsemicolon, hbrace⟩ := hmark
  refine .declare (skipLayout_append_cons hlayout hsolid) ?_ ?_ hread
  · intro hseparator
    exact hseparator.elim hnewline hsemicolon
  · intro hclose
    exact hbrace hclose.1

/-- The step that reads an item other than a directive. -/
theorem advance_item {o : ReadOptions} (collect : Bool) {layout front : List Token}
    {d : Option Declaration} (hlayout : significant layout = []) (h : Item o front d)
    (tokens : List Token) (linkage : Nat) (declarations : Array Declaration)
    (diagnostics : Array Fault) :
    Session.Advance { o with collect := collect }
      ⟨layout ++ (front ++ tokens), linkage, declarations, diagnostics⟩
      (.go ⟨tokens, linkage, declarations ++ d.toList, diagnostics⟩) := by
  obtain ⟨t, front, rfl⟩ := List.exists_cons_of_ne_nil h.ne_nil
  rcases h.cons_cases with ⟨hseparator, rfl, rfl⟩ | hkind
  · have hsolid : t.kind.isLayout = false := by
      rcases hseparator with hk | hk <;> rw [hk] <;> rfl
    have hskip : skipLayout (layout ++ ([t] ++ tokens)) = t :: tokens :=
      skipLayout_append_cons hlayout hsolid
    simpa using Session.Advance.separate (o := { o with collect := collect }) hskip hseparator
  · have hseparator : ¬ (t.kind = .newline ∨ t.kind = .semicolon) := by
      revert hkind
      cases t.kind <;> decide
    refine advance_declare hlayout ?_ ?_ linkage declarations diagnostics
    · revert hkind
      cases t.kind <;> decide
    · rw [readConstruct_collect]
      exact readConstruct_of_item tokens h hseparator

/-- The step that reads a directive. -/
theorem advance_directive {o : ReadOptions} {layout front tokens : List Token}
    {d : Option Declaration} (hlayout : significant layout = []) (h : DirectiveLine front d)
    (htokens : ∀ u ∈ tokens.head?, u.kind = .newline ∨ u.kind = .semicolon) (linkage : Nat)
    (declarations : Array Declaration) (diagnostics : Array Fault) :
    Session.Advance o ⟨layout ++ (front ++ tokens), linkage, declarations, diagnostics⟩
      (.go ⟨tokens, linkage, declarations ++ d.toList, diagnostics⟩) := by
  obtain ⟨t, line, rfl⟩ := List.exists_cons_of_ne_nil h.ne_nil
  have hdirective : t.kind.isDirective = true := by
    cases h
    assumption
  refine advance_declare hlayout ?_ ?_ linkage declarations diagnostics
  · revert hdirective
    cases t.kind <;> decide
  · rw [readConstruct, if_pos hdirective]
    exact (readDirective_eq_done_iff hdirective).mpr ⟨line, rfl, h, htokens⟩

/-- Nothing follows, or what is before ends with a line break, which ends every directive. -/
def Separated (front more : List Token) : Prop :=
  more = [] ∨ ∀ t ∈ front.getLast?, t.kind = .newline

theorem Separated.of_append {front tokens more : List Token}
    (h : Separated (front ++ tokens) more) : Separated tokens more := by
  refine h.imp_right ?_
  intro hlast t ht
  exact hlast t (by simp [List.getLast?_append, Option.mem_def.mp ht])

/-- What follows does not prolong a directive. -/
theorem Separated.head?_kind {front tokens more : List Token} {d : Option Declaration}
    (h : Separated (front ++ tokens) more) (hline : DirectiveLine front d)
    (htokens : ∀ u ∈ tokens.head?, u.kind = .newline ∨ u.kind = .semicolon) :
    ∀ u ∈ (tokens ++ more).head?, u.kind = .newline ∨ u.kind = .semicolon := by
  cases tokens with
  | cons t tokens => exact htokens
  | nil =>
      rcases h with rfl | hlast
      · simp
      · rw [List.append_nil] at hlast
        have hlast' := hlast _ (List.getLast?_eq_some_getLast hline.ne_nil)
        exact absurd hlast' (hline.kind_ne_newline _ (List.getLast_mem hline.ne_nil))

/-- A session behind items that the grammar derives has their declarations. -/
theorem run_items {o : ReadOptions} (collect : Bool) {tokens more : List Token}
    {declarations : List Declaration} (h : Items o tokens declarations) (hmore : Separated tokens more)
    (linkage : Nat) (before : Array Declaration) (diagnostics : Array Fault) :
    Session.run { o with collect := collect } ⟨tokens ++ more, linkage, before, diagnostics⟩ =
      Session.run { o with collect := collect }
        ⟨more, linkage, before ++ declarations, diagnostics⟩ := by
  induction h generalizing before with
  | nil hlayout =>
      rw [Session.run_layout (skipLayout_append hlayout more)]
      simp
  | @item layout front tokens d declarations hlayout hitem _ ih =>
      have hstep := advance_item collect hlayout hitem (tokens ++ more) linkage before diagnostics
      have hrun := Session.run_of_go hstep
      rw [ih hmore.of_append.of_append, Session.append_list_append] at hrun
      simpa using hrun
  | @directive layout front tokens d declarations hlayout hline hhead _ ih =>
      have hstep := advance_directive (o := { o with collect := collect }) hlayout hline
        (hmore.of_append.head?_kind hline hhead) linkage before diagnostics
      have hrun := Session.run_of_go hstep
      rw [ih hmore.of_append.of_append, Session.append_list_append] at hrun
      simpa using hrun

/-! ## Nothing else is accepted -/

/-- One step without a fault goes over an item. -/
theorem items_of_declare {o : ReadOptions} {t : Token} {tokens behind rest : List Token}
    {d : Option Declaration} {declarations : List Declaration}
    (hskip : skipLayout tokens = t :: behind) (hread : readConstruct o t behind = .done d rest)
    (h : Items o rest declarations) : Items o tokens (d.toList ++ declarations) := by
  obtain ⟨layout, rfl, hlayout, _⟩ := skipLayout_eq_cons_iff.mp hskip
  by_cases hdirective : t.kind.isDirective = true
  · rw [readConstruct, if_pos hdirective] at hread
    obtain ⟨line, rfl, hline, hhead⟩ := (readDirective_eq_done_iff hdirective).mp hread
    exact .directive hlayout hline hhead h
  · obtain ⟨front, rfl, hitem⟩ := readConstruct_item (by simpa using hdirective) hread
    exact .item hlayout hitem h

theorem items_of_separate {o : ReadOptions} {t : Token} {tokens rest : List Token}
    {declarations : List Declaration} (hskip : skipLayout tokens = t :: rest)
    (ht : t.kind = .newline ∨ t.kind = .semicolon) (h : Items o rest declarations) :
    Items o tokens declarations := by
  obtain ⟨layout, rfl, hlayout, _⟩ := skipLayout_eq_cons_iff.mp hskip
  exact .item hlayout (.separator ht) h

/-- Without linkage blocks and without collecting, a session that comes to its end has read items
the grammar derives. -/
theorem items_of_run {o : ReadOptions} (ho : o.collect = false) (s : Session)
    (hlinkage : s.linkage = 0) (h : (s.run o).2 = none) :
    ∃ declarations, Items o s.rest declarations ∧
      (s.run o).1.declarations = s.declarations ++ declarations := by
  induction s using Session.run_induction (o := o) with
  | stop s final fault hstep =>
      rw [Session.run_of_stop hstep] at h ⊢
      cases hstep with
      | finish hskip => exact ⟨[], .nil (skipLayout_eq_nil_iff.mp hskip), by simp⟩
      | halt => cases h
  | go s next hstep ih =>
      rw [Session.run_of_go hstep] at h ⊢
      cases hstep with
      | separate hskip hseparator =>
          obtain ⟨declarations, hitems, hfinal⟩ := ih hlinkage h
          exact ⟨declarations, items_of_separate hskip hseparator hitems, hfinal⟩
      | close _ _ hopen => omega
      | @declare t tokens rest d hskip _ _ hread =>
          obtain ⟨declarations, hitems, hdeclarations⟩ := ih hlinkage h
          refine ⟨d.toList ++ declarations, items_of_declare hskip hread hitems, ?_⟩
          rw [hdeclarations, Session.append_list_append]
      | recover _ _ _ _ hstops => simp [Session.stops, ho] at hstops

/-- Reading tokens without collecting succeeds exactly along a derivation. -/
theorem readTokens_accepts_iff {o : ReadOptions} (ho : o.collect = false) {tokens : List Token}
    {declarations : List Declaration} :
    (readTokens o tokens).declarations = declarations ∧ (readTokens o tokens).fault = none ↔
      Items o tokens declarations := by
  rw [readTokens_eq]
  constructor
  · intro h
    rcases h with ⟨hread, hfault⟩
    obtain ⟨declarations', hitems, hdeclarations⟩ :=
      items_of_run ho (Session.ofTokens tokens) rfl hfault
    rw [Reading.ofRun, hdeclarations] at hread
    simp only [Session.ofTokens, Array.toList_appendList, List.nil_append] at hread
    exact hread ▸ hitems
  · intro h
    have hrun := run_items false h (.inl rfl) 0 #[] #[]
    have hself : { o with collect := false } = o := by
      rw [← ho]
    rw [List.append_nil, hself] at hrun
    rw [Session.ofTokens, hrun, Session.run_of_stop (.finish rfl)]
    simp [Reading.ofRun]

end Grammar

/-- A header is accepted exactly if its tokens are a sequence of items, and its declarations are
those of the items in order. -/
theorem readHeader_accepts_iff (multilineEnum noInlineEnum : Bool) (source : Bytes)
    (declarations : List Declaration) :
    ((readHeader ⟨false, multilineEnum, noInlineEnum⟩ source).declarations = declarations ∧
        (readHeader ⟨false, multilineEnum, noInlineEnum⟩ source).fault = none) ↔
      Grammar.Items ⟨false, multilineEnum, noInlineEnum⟩ (tokenize source) declarations :=
  Grammar.readTokens_accepts_iff rfl

end HeaderBinding
