import HeaderBinding.Reading.Session

/-!
# What one step of a session does

The six things that can happen at the next token that is not layout, and the run as a chain of
steps.
-/

namespace HeaderBinding

namespace Session

/-- The outcomes of one step. The next token is a separator, closes a linkage block, or starts a
construct that is read, stops the run or is passed over. -/
inductive Advance (o : ReadOptions) (s : Session) : Step → Prop where
  | finish : skipLayout s.rest = [] → Advance o s (.stop { s with rest := [] } none)
  | separate {t : Token} {tokens : List Token} :
      skipLayout s.rest = t :: tokens → t.kind = .newline ∨ t.kind = .semicolon →
      Advance o s (.go { s with rest := tokens })
  | close {t : Token} {tokens : List Token} :
      skipLayout s.rest = t :: tokens → t.kind = .rightBrace → 0 < s.linkage →
      Advance o s (.go { s with rest := tokens, linkage := s.linkage - 1 })
  | declare {t : Token} {tokens rest : List Token} {declaration : Option Declaration} :
      skipLayout s.rest = t :: tokens → ¬ (t.kind = .newline ∨ t.kind = .semicolon) →
      ¬ (t.kind = .rightBrace ∧ 0 < s.linkage) →
      readConstruct o t tokens = .done declaration rest →
      Advance o s
        (.go { s with rest := rest, declarations := s.declarations ++ declaration.toList })
  | halt {t : Token} {tokens rest : List Token} {fault : Fault} :
      skipLayout s.rest = t :: tokens → ¬ (t.kind = .newline ∨ t.kind = .semicolon) →
      ¬ (t.kind = .rightBrace ∧ 0 < s.linkage) →
      readConstruct o t tokens = .broken fault rest → stops o fault = true →
      Advance o s
        (.stop { s with rest := rest, linkage := linkageAfter s.linkage fault } (some fault))
  | recover {t : Token} {tokens rest : List Token} {fault : Fault} :
      skipLayout s.rest = t :: tokens → ¬ (t.kind = .newline ∨ t.kind = .semicolon) →
      ¬ (t.kind = .rightBrace ∧ 0 < s.linkage) →
      readConstruct o t tokens = .broken fault rest → stops o fault = false →
      Advance o s
        (.go
          { s with
            rest := resume (linkageAfter s.linkage fault) t tokens rest fault
            linkage := linkageAfter s.linkage fault
            diagnostics := s.diagnostics.push fault })

theorem advance_step (o : ReadOptions) (s : Session) : Advance o s (s.step o) := by
  rw [step]
  split
  · rename_i hskip
    exact .finish hskip
  · rename_i t tokens hskip
    split
    · rename_i hseparator
      exact .separate hskip hseparator
    · rename_i hseparator
      split
      · rename_i hclose
        exact .close hskip hclose.1 hclose.2
      · rename_i hclose
        split
        · rename_i declaration rest hread
          exact .declare hskip hseparator hclose hread
        · rename_i fault rest hread
          split
          · rename_i hstops
            exact .halt hskip hseparator hclose hread hstops
          · rename_i hstops
            exact .recover hskip hseparator hclose hread (by simpa using hstops)

/-- The outcome of a step is determined by what happens at the next token. -/
theorem step_eq_of_advance {o : ReadOptions} {s : Session} {outcome : Step}
    (h : Advance o s outcome) : s.step o = outcome := by
  rw [step]
  cases h with
  | finish hskip => rw [hskip]
  | separate hskip hseparator =>
      rw [hskip]
      simp only [if_pos hseparator]
  | close hskip hkind hlinkage =>
      rw [hskip]
      simp [hkind, hlinkage]
  | declare hskip hseparator hclose hread =>
      rw [hskip]
      simp only [if_neg hseparator, if_neg hclose, hread]
  | halt hskip hseparator hclose hread hstops =>
      rw [hskip]
      simp only [if_neg hseparator, if_neg hclose, hread, if_pos hstops]
  | recover hskip hseparator hclose hread hstops =>
      rw [hskip]
      simp only [if_neg hseparator, if_neg hclose, hread, hstops, Bool.false_eq_true, ↓reduceIte]

theorem step_eq_iff {o : ReadOptions} {s : Session} {outcome : Step} :
    s.step o = outcome ↔ Advance o s outcome := by
  refine ⟨?_, step_eq_of_advance⟩
  intro h
  exact h ▸ advance_step o s

/-! ## Runs -/

theorem append_list_append {α : Type} (a : Array α) (l l' : List α) :
    a ++ l ++ l' = a ++ (l ++ l') := by
  apply Array.ext'
  simp

theorem run_of_stop {o : ReadOptions} {s final : Session} {fault : Option Fault}
    (h : Advance o s (.stop final fault)) : s.run o = (final, fault) := by
  have hstep := step_eq_of_advance h
  rw [run]
  split <;> simp_all

theorem run_of_go {o : ReadOptions} {s next : Session} (h : Advance o s (.go next)) :
    s.run o = next.run o := by
  have hstep := step_eq_of_advance h
  rw [run]
  split <;> simp_all

/-- Layout at the front does not matter. -/
theorem run_layout {o : ReadOptions} {tokens rest : List Token} {linkage : Nat}
    {declarations : Array Declaration} {diagnostics : Array Fault}
    (h : skipLayout tokens = skipLayout rest) :
    run o ⟨tokens, linkage, declarations, diagnostics⟩ =
      run o ⟨rest, linkage, declarations, diagnostics⟩ := by
  have hstep : step o ⟨tokens, linkage, declarations, diagnostics⟩ =
      step o ⟨rest, linkage, declarations, diagnostics⟩ := by
    simp only [step, h]
  cases hnext : step o ⟨rest, linkage, declarations, diagnostics⟩ with
  | go next =>
      rw [hnext] at hstep
      rw [run_of_go (step_eq_iff.mp hstep), run_of_go (step_eq_iff.mp hnext)]
  | stop final fault =>
      rw [hnext] at hstep
      rw [run_of_stop (step_eq_iff.mp hstep), run_of_stop (step_eq_iff.mp hnext)]

/-- Line breaks at the front do not matter. -/
theorem run_skipLines (o : ReadOptions) (tokens : List Token) (linkage : Nat)
    (declarations : Array Declaration) (diagnostics : Array Fault) :
    run o ⟨skipLines tokens, linkage, declarations, diagnostics⟩ =
      run o ⟨tokens, linkage, declarations, diagnostics⟩ := by
  induction tokens with
  | nil => rfl
  | cons t tokens ih =>
      by_cases hlayout : t.kind.isLayout = true
      · have hskip : skipLines (t :: tokens) = skipLines tokens := by
          simp [skipLines, TokenKind.isLayoutOrNewline, hlayout]
        rw [hskip, ih]
        refine run_layout ?_
        simp [skipLayout, hlayout]
      · by_cases hnewline : t.kind = .newline
        · have hskip : skipLines (t :: tokens) = skipLines tokens := by
            simp [skipLines, TokenKind.isLayoutOrNewline, hnewline]
          rw [hskip, ih]
          have hself : skipLayout (t :: tokens) = t :: tokens := by
            simp [skipLayout, hlayout]
          exact (run_of_go (s := ⟨t :: tokens, linkage, declarations, diagnostics⟩)
            (.separate hself (.inl hnewline))).symm
        · have hskip : skipLines (t :: tokens) = t :: tokens := by
            simp [skipLines, TokenKind.isLayoutOrNewline, hlayout, hnewline]
          rw [hskip]

/-- What holds of every session that stops, and passes back over every step, holds of every
session. -/
theorem run_induction {o : ReadOptions} {motive : Session → Prop}
    (stop : ∀ s final fault, Advance o s (.stop final fault) → motive s)
    (go : ∀ s next, Advance o s (.go next) → motive next → motive s) (s : Session) : motive s := by
  fun_induction run o s with
  | case1 s final fault h => exact stop s final fault (step_eq_iff.mp h)
  | case2 s next h _ ih => exact go s next (step_eq_iff.mp h) ih

/-! ## What was found before -/

/-- The session with declarations and diagnostics put before its own. -/
def behind (declarations : Array Declaration) (diagnostics : Array Fault) (s : Session) :
    Session :=
  { s with
    declarations := declarations ++ s.declarations
    diagnostics := diagnostics ++ s.diagnostics }

theorem advance_behind_go {o : ReadOptions} {s next : Session} (declarations : Array Declaration)
    (diagnostics : Array Fault) (h : Advance o s (.go next)) :
    Advance o (s.behind declarations diagnostics) (.go (next.behind declarations diagnostics)) := by
  cases h with
  | separate hskip hseparator => exact .separate hskip hseparator
  | close hskip hkind hlinkage => exact .close hskip hkind hlinkage
  | declare hskip hseparator hclose hread =>
      rename_i declaration
      have hdeclare := Advance.declare (s := s.behind declarations diagnostics)
        hskip hseparator hclose hread
      have hassoc : declarations ++ s.declarations ++ declaration.toList =
          declarations ++ (s.declarations ++ declaration.toList) := by
        apply Array.ext'
        simp
      simpa [behind, hassoc] using hdeclare
  | recover hskip hseparator hclose hread hstops =>
      have hrecover := Advance.recover (s := s.behind declarations diagnostics)
        hskip hseparator hclose hread hstops
      simpa [behind] using hrecover

theorem advance_behind_stop {o : ReadOptions} {s final : Session} {fault : Option Fault}
    (declarations : Array Declaration) (diagnostics : Array Fault)
    (h : Advance o s (.stop final fault)) :
    Advance o (s.behind declarations diagnostics)
      (.stop (final.behind declarations diagnostics) fault) := by
  cases h with
  | finish hskip => exact .finish hskip
  | halt hskip hseparator hclose hread hstops => exact .halt hskip hseparator hclose hread hstops

/-- What was found before stays in front of what a run finds, and changes nothing else. -/
theorem run_behind (o : ReadOptions) (declarations : Array Declaration)
    (diagnostics : Array Fault) (s : Session) :
    (s.behind declarations diagnostics).run o =
      ((s.run o).1.behind declarations diagnostics, (s.run o).2) := by
  induction s using run_induction (o := o) with
  | stop s final fault hstep =>
      rw [run_of_stop (advance_behind_stop declarations diagnostics hstep), run_of_stop hstep]
  | go s next hstep ih =>
      rw [run_of_go (advance_behind_go declarations diagnostics hstep), run_of_go hstep, ih]

/-- A run from any state finds what reading its tokens afresh finds, behind what was there. -/
theorem run_eq_behind (o : ReadOptions) (tokens : List Token) (declarations : Array Declaration)
    (diagnostics : Array Fault) :
    run o ⟨tokens, 0, declarations, diagnostics⟩ =
      (((ofTokens tokens).run o).1.behind declarations diagnostics,
        ((ofTokens tokens).run o).2) := by
  rw [← run_behind]
  simp [behind, ofTokens]

end Session

/-- The reading that a run comes to. -/
def Reading.ofRun (r : Session × Option Fault) : Reading :=
  ⟨r.1.declarations.toList, r.1.diagnostics.toList, r.2⟩

theorem readTokens_eq (o : ReadOptions) (tokens : List Token) :
    readTokens o tokens = .ofRun ((Session.ofTokens tokens).run o) :=
  rfl

end HeaderBinding
