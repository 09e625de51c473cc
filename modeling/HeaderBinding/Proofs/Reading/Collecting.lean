import HeaderBinding.Proofs.Reading.Steps

/-!
# A collecting session goes on where another one stops

The readers of constructs do not know whether faults are collected. A collecting session and one
that is not take the same steps up to the first fault, and a collecting session keeps what it has.
-/

namespace HeaderBinding

/-! ## Constructs are read alike -/

section

variable (o : ReadOptions) (collect : Bool)

theorem ofTokens_collect :
    Argument.ofTokens { o with collect := collect } = Argument.ofTokens o :=
  rfl

theorem readMembers_collect : readMembers { o with collect := collect } = readMembers o := by
  funext c closer done current tokens
  induction tokens generalizing done current with
  | nil => rfl
  | cons t rest ih => simp only [readMembers, ofTokens_collect, ih]

theorem readParameters_collect :
    readParameters { o with collect := collect } = readParameters o := by
  funext c done current tokens
  induction tokens generalizing done current with
  | nil => rfl
  | cons t rest ih => simp only [readParameters, ofTokens_collect, ih]

theorem readEnumerators_collect :
    readEnumerators { o with collect := collect } = readEnumerators o := by
  funext c done current multiline tokens
  induction tokens generalizing done current multiline with
  | nil => rfl
  | cons t rest ih => simp only [readEnumerators, ih]

theorem readConstruct_collect :
    readConstruct { o with collect := collect } = readConstruct o := by
  funext start tokens
  simp only [readConstruct, readEnumDeclaration, readEnum, readEnumBody, readStructDeclaration,
    readStructBody, readTypedef, readTypedefEnum, readTypedefStruct, readPrototypeDeclaration,
    readPrototype, readSignature, readParameterList, readMembers_collect, readParameters_collect,
    readEnumerators_collect]

end

namespace Session

/-! ## The first fault -/

section

variable {o : ReadOptions} {s next final : Session} {fault : Fault}

/-- A step without a fault is a step of a collecting session. -/
theorem advance_collect_go (ho : o.collect = false) (h : Advance o s (.go next)) :
    Advance { o with collect := true } s (.go next) := by
  cases h with
  | separate hskip hseparator => exact .separate hskip hseparator
  | close hskip hkind hlinkage => exact .close hskip hkind hlinkage
  | declare hskip hseparator hclose hread =>
      rw [← readConstruct_collect o true] at hread
      exact .declare hskip hseparator hclose hread
  | recover _ _ _ _ hstops => simp [stops, ho] at hstops

/-- A fault that the end of the source brings about stops every session. -/
theorem advance_collect_stop (h : Advance o s (.stop final (some fault)))
    (hcause : fault.cause.category = .unterminated) :
    Advance { o with collect := true } s (.stop final (some fault)) := by
  cases h with
  | halt hskip hseparator hclose hread _ =>
      rw [← readConstruct_collect o true] at hread
      exact .halt hskip hseparator hclose hread (by simp [stops, hcause])

/-- Any other fault is noted. -/
theorem advance_collect_recover (h : Advance o s (.stop final (some fault)))
    (hcause : fault.cause.category ≠ .unterminated) :
    ∃ next, Advance { o with collect := true } s (.go next) ∧
      next.declarations = final.declarations ∧
      next.diagnostics = final.diagnostics.push fault := by
  cases h with
  | halt hskip hseparator hclose hread _ =>
      rw [← readConstruct_collect o true] at hread
      exact ⟨_, .recover hskip hseparator hclose hread (by simp [stops, hcause]), rfl, rfl⟩

end

theorem run_diagnostics {o : ReadOptions} (ho : o.collect = false) (s : Session) :
    (s.run o).1.diagnostics = s.diagnostics := by
  induction s using run_induction (o := o) with
  | stop s final fault hstep =>
      rw [run_of_stop hstep]
      cases hstep <;> rfl
  | go s next hstep ih =>
      rw [run_of_go hstep, ih]
      cases hstep with
      | separate | close | declare => rfl
      | recover _ _ _ _ hstops => simp [stops, ho] at hstops

theorem run_collect_of_none {o : ReadOptions} (ho : o.collect = false) (s : Session)
    (h : (s.run o).2 = none) : s.run { o with collect := true } = s.run o := by
  induction s using run_induction (o := o) with
  | stop s final fault hstep =>
      rw [run_of_stop hstep] at h ⊢
      cases hstep with
      | finish hskip => exact run_of_stop (.finish hskip)
      | halt => cases h
  | go s next hstep ih =>
      rw [run_of_go hstep] at h ⊢
      rw [run_of_go (advance_collect_go ho hstep)]
      exact ih h

/-- At its first fault a collecting session stops too, or goes on from the declarations found so
far with the fault noted. -/
theorem run_collect_of_some {o : ReadOptions} (ho : o.collect = false) (s : Session)
    {fault : Fault} (h : (s.run o).2 = some fault) :
    (fault.cause.category = .unterminated ∧ s.run { o with collect := true } = s.run o) ∨
      ∃ next : Session, s.run { o with collect := true } = next.run { o with collect := true } ∧
        next.declarations = (s.run o).1.declarations ∧
        next.diagnostics = (s.run o).1.diagnostics.push fault := by
  induction s using run_induction (o := o) with
  | stop s final fault' hstep =>
      rw [run_of_stop hstep] at h ⊢
      obtain rfl : fault' = some fault := h
      by_cases hcause : fault.cause.category = .unterminated
      · exact .inl ⟨hcause, run_of_stop (advance_collect_stop hstep hcause)⟩
      · obtain ⟨next, hnext, hkept⟩ := advance_collect_recover hstep hcause
        exact .inr ⟨next, run_of_go hnext, hkept⟩
  | go s next hstep ih =>
      rw [run_of_go hstep] at h ⊢
      rw [run_of_go (advance_collect_go ho hstep)]
      exact ih h

/-- A run takes nothing back. -/
theorem run_prefix (o : ReadOptions) (s : Session) :
    s.declarations.toList <+: (s.run o).1.declarations.toList ∧
      s.diagnostics.toList <+: (s.run o).1.diagnostics.toList := by
  have hself : s = behind s.declarations s.diagnostics
      { s with declarations := #[], diagnostics := #[] } := by
    simp [behind]
  rw [hself, run_behind]
  simp [behind]

end Session

theorem readTokens_diagnostics {o : ReadOptions} (ho : o.collect = false) (tokens : List Token) :
    (readTokens o tokens).diagnostics = [] := by
  rw [readTokens_eq, Reading.ofRun, Session.run_diagnostics ho]
  rfl

theorem readTokens_collect_of_none {o : ReadOptions} (ho : o.collect = false) {tokens : List Token}
    (h : (readTokens o tokens).fault = none) :
    readTokens { o with collect := true } tokens = readTokens o tokens := by
  rw [readTokens_eq, readTokens_eq, Session.run_collect_of_none ho _ h]

/-- A fault that stops a reading stops a collecting one too, or is noted by it. -/
theorem readTokens_collect_of_some {o : ReadOptions} (ho : o.collect = false) {tokens : List Token}
    {fault : Fault} (h : (readTokens o tokens).fault = some fault) :
    (readTokens { o with collect := true } tokens).fault = some fault ∨
      fault ∈ (readTokens { o with collect := true } tokens).diagnostics := by
  rcases Session.run_collect_of_some ho (.ofTokens tokens) h with
    ⟨_, hrun⟩ | ⟨next, hrun, _, hdiagnostics⟩
  · refine .inl ?_
    rw [readTokens_eq, hrun]
    exact h
  · obtain ⟨_, hnoted⟩ := Session.run_prefix { o with collect := true } next
    refine .inr ?_
    rw [readTokens_eq, Reading.ofRun, hrun]
    refine hnoted.subset ?_
    rw [hdiagnostics]
    simp

/-- Collecting faults extends what is read up to the first one. -/
theorem readHeader_collect_extends (multilineEnum noInlineEnum : Bool) (source : Bytes) :
    let read := readHeader ⟨false, multilineEnum, noInlineEnum⟩ source
    let collected := readHeader ⟨true, multilineEnum, noInlineEnum⟩ source
    match read.fault with
    | none => collected = ⟨read.declarations, [], none⟩
    | some fault =>
      (fault.cause.category = .unterminated ∧
          collected = ⟨read.declarations, [], some fault⟩) ∨
        (read.declarations <+: collected.declarations ∧
          collected.diagnostics.head? = some fault) := by
  intro read collected
  let o : ReadOptions := ⟨false, multilineEnum, noInlineEnum⟩
  let s := Session.ofSource source
  have hread : read = .ofRun (s.run o) := rfl
  have hcollected : collected = .ofRun (s.run { o with collect := true }) := rfl
  have hnone : read.diagnostics = [] := readTokens_diagnostics rfl (tokenize source)
  have hsame (h : s.run { o with collect := true } = s.run o) :
      collected = ⟨read.declarations, [], read.fault⟩ := by
    rw [hcollected, h, ← hread, ← hnone]
  cases hfault : read.fault with
  | none =>
      have hall := hsame (Session.run_collect_of_none (o := o) rfl s hfault)
      rw [hfault] at hall
      exact hall
  | some fault =>
      rcases Session.run_collect_of_some (o := o) rfl s hfault with
        ⟨hcause, hrun⟩ | ⟨next, hrun, hdeclarations, hdiagnostics⟩
      · have hall := hsame hrun
        rw [hfault] at hall
        exact .inl ⟨hcause, hall⟩
      · obtain ⟨hkept, hnoted⟩ := Session.run_prefix { o with collect := true } next
        rw [hdeclarations, ← hrun] at hkept
        rw [hdiagnostics, Session.run_diagnostics (o := o) rfl, ← hrun] at hnoted
        obtain ⟨others, hothers⟩ := hnoted
        refine .inr ⟨hkept, ?_⟩
        rw [hcollected, Reading.ofRun, ← hothers]
        rfl

end HeaderBinding
