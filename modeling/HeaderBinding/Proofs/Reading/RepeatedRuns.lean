import HeaderBinding.Proofs.Reading.ErrorDiscipline

/-!
# A session that is run again

A run goes on where the one before has stopped, with the same list of declarations and of
diagnostics. What keeps repeated runs from going round in circles is that no step and no fault comes
without a token that is not layout, and that a run which has seen the end of the source leaves
nothing to read.
-/

namespace HeaderBinding

/-- Reading has gone from one list of tokens to another, over a token that is not layout. -/
def Passes (tokens rest : List Token) : Prop :=
  ∃ taken, tokens = taken ++ rest ∧ significant taken ≠ []

namespace Passes

variable {tokens between rest : List Token} {t : Token}

/-- The first token that is not layout is taken, whatever is taken behind it. -/
theorem of_skipLayout (hskip : skipLayout tokens = t :: between) (hrest : rest <:+ between) :
    Passes tokens rest := by
  obtain ⟨layout, rfl, -, ht⟩ := skipLayout_eq_cons_iff.mp hskip
  obtain ⟨taken, rfl⟩ := hrest
  refine ⟨layout ++ t :: taken, by simp, ?_⟩
  rw [significant_append, significant_cons ht]
  simp

theorem suffix (h : Passes tokens rest) : rest <:+ tokens := by
  obtain ⟨taken, rfl, -⟩ := h
  exact List.suffix_append taken rest

theorem trans_suffix (h : Passes tokens between) (hrest : rest <:+ between) :
    Passes tokens rest := by
  obtain ⟨taken, rfl, htaken⟩ := h
  obtain ⟨further, rfl⟩ := hrest
  refine ⟨taken ++ further, by simp, ?_⟩
  simp [significant_append, htaken]

theorem length_significant_lt (h : Passes tokens rest) :
    (significant rest).length < (significant tokens).length := by
  obtain ⟨taken, rfl, htaken⟩ := h
  have hpos := List.length_pos_iff.mpr htaken
  rw [significant_append, List.length_append]
  omega

end Passes

theorem length_significant_le {tokens rest : List Token} (h : rest <:+ tokens) :
    (significant rest).length ≤ (significant tokens).length :=
  (h.sublist.filter _).length_le

namespace Session

section

variable {o : ReadOptions} {s next final : Session}

/-! ## One step -/

theorem readConstruct_suffix {t : Token} {tokens rest : List Token} {fault : Fault}
    (h : readConstruct o t tokens = .broken fault rest) : rest <:+ tokens := by
  have hsuffix := readConstruct_rest_suffix o t tokens
  rwa [h] at hsuffix

/-- A step that goes on takes a token. -/
theorem Advance.passes_go (h : Advance o s (.go next)) : Passes s.rest next.rest := by
  cases h with
  | separate hskip => exact .of_skipLayout hskip List.suffix_rfl
  | close hskip => exact .of_skipLayout hskip List.suffix_rfl
  | @declare t tokens rest declaration hskip _ _ hread =>
      have hsuffix := readConstruct_rest_suffix o t tokens
      rw [hread] at hsuffix
      exact .of_skipLayout hskip hsuffix
  | recover hskip _ _ hread =>
      apply Passes.of_skipLayout hskip
      exact (resume_suffix ..).trans (readConstruct_suffix hread)

/-- A step that ends the run with a fault takes a token too. -/
theorem Advance.passes_halt {fault : Fault} (h : Advance o s (.stop final (some fault))) :
    Passes s.rest final.rest := by
  cases h with
  | halt hskip _ _ hread => exact .of_skipLayout hskip (readConstruct_suffix hread)

/-! ## One run -/

theorem run_rest_suffix (s : Session) : (s.run o).1.rest <:+ s.rest := by
  induction s using run_induction (o := o) with
  | stop s final fault hstep =>
      rw [run_of_stop hstep]
      cases fault with
      | some fault => exact hstep.passes_halt.suffix
      | none =>
          cases hstep
          exact List.nil_suffix
  | go s next hstep ih =>
      rw [run_of_go hstep]
      exact ih.trans hstep.passes_go.suffix

/-- A run that ends with a fault has taken a token. -/
theorem run_passes (s : Session) {fault : Fault} (h : (s.run o).2 = some fault) :
    Passes s.rest (s.run o).1.rest := by
  induction s using run_induction (o := o) with
  | stop s final fault' hstep =>
      rw [run_of_stop hstep] at h ⊢
      have hfault : fault' = some fault := h
      subst hfault
      exact hstep.passes_halt
  | go s next hstep ih =>
      rw [run_of_go hstep]
      exact hstep.passes_go.trans_suffix (run_rest_suffix next)

/-- A run without a fault has come to the end of the source. -/
theorem run_rest_of_none (s : Session) (h : (s.run o).2 = none) : (s.run o).1.rest = [] := by
  induction s using run_induction (o := o) with
  | stop s final fault hstep =>
      rw [run_of_stop hstep] at h ⊢
      cases hstep with
      | finish => rfl
      | halt => cases h
  | go s next hstep ih =>
      rw [run_of_go hstep] at h ⊢
      exact ih h

/-- With nothing left to read, a run changes nothing. -/
theorem run_of_rest_nil (h : s.rest = []) : s.run o = (s, none) := by
  have hskip : skipLayout s.rest = [] := by
    rw [h]
    rfl
  have hself : { s with rest := [] } = s := by
    rw [← h]
  rw [run_of_stop (.finish hskip), hself]

/-- Behind the end of the source a run changes nothing, however the source has ended. -/
theorem run_settled (s : Session)
    (h : ∀ fault ∈ (s.run o).2, fault.cause.category = .unterminated) :
    (s.run o).1.run o = ((s.run o).1, none) := by
  apply run_of_rest_nil
  cases hfault : (s.run o).2 with
  | none => exact run_rest_of_none s hfault
  | some fault => exact (run_fault s hfault).2 (h fault hfault)

end

/-! ## All runs -/

/-- The number of the first `n` runs that end with a fault. -/
def failures (o : ReadOptions) (source : Bytes) (n : Nat) : Nat :=
  (List.range n).countP fun k => ((afterRuns o source k).run o).2.isSome

theorem failures_succ (o : ReadOptions) (source : Bytes) (n : Nat) :
    failures o source (n + 1) =
      failures o source n + if ((afterRuns o source n).run o).2.isSome then 1 else 0 := by
  simp [failures, List.range_succ, List.countP_append, List.countP_cons]

/-- Each failure has used up a token: the failures so far and the tokens left are together no more
than the tokens of the source. -/
theorem failures_add_length_le (o : ReadOptions) (source : Bytes) (n : Nat) :
    failures o source n + (significant (afterRuns o source n).rest).length ≤
      (significant (tokenize source)).length := by
  induction n with
  | zero =>
      have hstart : (afterRuns o source 0).rest = tokenize source := rfl
      simp [failures, hstart]
  | succ n ih =>
      rw [failures_succ, afterRuns_succ]
      cases hfault : ((afterRuns o source n).run o).2 with
      | none =>
          have hle := length_significant_le (run_rest_suffix (o := o) (afterRuns o source n))
          simp only [Option.isSome_none, Bool.false_eq_true, ↓reduceIte]
          omega
      | some fault =>
          have hlt := (run_passes (afterRuns o source n) hfault).length_significant_lt
          simp only [Option.isSome_some, ↓reduceIte]
          omega

/-- What one more run does to a session. -/
structure Continues (o : ReadOptions) (s : Session) (run : Session × Option Fault) : Prop where
  /-- Declarations are only added. -/
  declared : s.declarations.toList <+: run.1.declarations.toList
  /-- Diagnostics are only added. -/
  noted : s.diagnostics.toList <+: run.1.diagnostics.toList
  /-- A fault has taken a token. -/
  advanced : run.2.isSome → Passes s.rest run.1.rest
  /-- A run without a fault has read the source to its end. -/
  finished : run.2 = none → run.1.rest = []
  /-- Behind a success or an unterminated construct nothing is left to change. -/
  settled : (∀ fault ∈ run.2, fault.cause.category = .unterminated) →
    run.1.run o = (run.1, none)

theorem continues_run (o : ReadOptions) (s : Session) : Continues o s (s.run o) := by
  obtain ⟨hdeclared, hnoted⟩ := run_prefix o s
  refine ⟨hdeclared, hnoted, ?_, run_rest_of_none s, run_settled s⟩
  intro h
  obtain ⟨fault, hfault⟩ := Option.isSome_iff_exists.mp h
  exact run_passes s hfault

/-- Runs of one session add to what the runs before have found. Every step that does not end a run
takes a token and so does every run that fails, so that no more runs fail than there are tokens. A
run that does not fail has come to the end of the source, and a run behind it or behind an
unterminated construct finds nothing. -/
theorem afterRuns_progress (o : ReadOptions) (source : Bytes) :
    (∀ s next, step o s = .go next → Passes s.rest next.rest) ∧
    ∀ n, Continues o (afterRuns o source n) ((afterRuns o source n).run o) ∧
      ((afterRuns o source n).run o).1 = afterRuns o source (n + 1) ∧
      failures o source n ≤ (significant (tokenize source)).length := by
  constructor
  · intro s next h
    exact (step_eq_iff.mp h).passes_go
  · intro n
    refine ⟨continues_run o _, (afterRuns_succ o source n).symm, ?_⟩
    have hle := failures_add_length_le o source n
    omega

end Session

end HeaderBinding
