import HeaderBinding.Proofs.Reading.FaultPlaces
import HeaderBinding.Proofs.Reading.RepeatedRuns

/-!
# The constructs of a run and the order of their faults

A run comes to one construct after another, between separators and the braces that close linkage
blocks. The fault of a construct is at one of its tokens, behind which the next construct starts, so
the faults of a run stand in the order of the source.
-/

namespace HeaderBinding

/-- A construct that a run comes to: its first token, and the outcome of reading it. -/
structure Attempt where
  start : Token
  outcome : Outcome (Option Declaration)
deriving Repr, DecidableEq

namespace Attempt

/-- The declaration that was read. -/
def declaration? (a : Attempt) : Option Declaration :=
  match a.outcome with
  | .done declaration _ => declaration
  | .broken _ _ => none

/-- The fault that was found. -/
def fault? (a : Attempt) : Option Fault :=
  match a.outcome with
  | .done _ _ => none
  | .broken fault _ => some fault

end Attempt

namespace Session

/-- The construct that a step comes to. A separator is none, and neither is a brace that closes a
linkage block. -/
def attempt? (o : ReadOptions) (s : Session) : Option Attempt :=
  match skipLayout s.rest with
  | [] => none
  | t :: tokens =>
    if t.kind = .newline ∨ t.kind = .semicolon then none
    else if t.kind = .rightBrace ∧ 0 < s.linkage then none
    else some ⟨t, readConstruct o t tokens⟩

/-- The constructs that a run comes to, one after another. -/
def attempts (o : ReadOptions) (s : Session) : List Attempt :=
  (s.attempt? o).toList ++
    match h : step o s with
    | .stop _ _ => []
    | .go next =>
      have := length_rest_lt_of_step h
      attempts o next
termination_by s.rest.length

section

variable {o : ReadOptions} {s next final : Session}

theorem attempts_of_stop {fault : Option Fault} (h : Advance o s (.stop final fault)) :
    s.attempts o = (s.attempt? o).toList := by
  have hstep := step_eq_of_advance h
  rw [attempts]
  split <;> simp_all

theorem attempts_of_go (h : Advance o s (.go next)) :
    s.attempts o = (s.attempt? o).toList ++ next.attempts o := by
  have hstep := step_eq_of_advance h
  rw [attempts]
  split <;> simp_all

theorem attempt?_eq_none {t : Token} {tokens : List Token} (hskip : skipLayout s.rest = t :: tokens)
    (h : (t.kind = .newline ∨ t.kind = .semicolon) ∨ t.kind = .rightBrace ∧ 0 < s.linkage) :
    s.attempt? o = none := by
  rw [attempt?, hskip]
  dsimp only
  split
  · rfl
  · rename_i hseparator
    rw [if_pos (h.resolve_left hseparator)]

theorem attempt?_eq_some {t : Token} {tokens : List Token} (hskip : skipLayout s.rest = t :: tokens)
    (hseparator : ¬ (t.kind = .newline ∨ t.kind = .semicolon))
    (hclose : ¬ (t.kind = .rightBrace ∧ 0 < s.linkage)) :
    s.attempt? o = some ⟨t, readConstruct o t tokens⟩ := by
  rw [attempt?, hskip]
  simp only [if_neg hseparator, if_neg hclose]

/-! ## What a run finds -/

/-- The declarations and the faults of a run are those of its constructs, in their order. -/
theorem run_eq_attempts (s : Session) :
    (s.run o).1.declarations.toList =
        s.declarations.toList ++ (s.attempts o).filterMap Attempt.declaration? ∧
      (s.run o).1.diagnostics.toList ++ (s.run o).2.toList =
        s.diagnostics.toList ++ (s.attempts o).filterMap Attempt.fault? := by
  induction s using run_induction (o := o) with
  | stop s final fault hstep =>
      rw [run_of_stop hstep, attempts_of_stop hstep]
      cases hstep with
      | finish hskip => simp [attempt?, hskip]
      | halt hskip hseparator hclose hread =>
          rw [attempt?_eq_some hskip hseparator hclose, hread]
          simp [Attempt.declaration?, Attempt.fault?]
  | go s next hstep ih =>
      rw [run_of_go hstep, attempts_of_go hstep, ih.1, ih.2]
      cases hstep with
      | separate hskip hseparator => simp [attempt?_eq_none hskip (.inl hseparator)]
      | close hskip hkind hlinkage => simp [attempt?_eq_none hskip (.inr ⟨hkind, hlinkage⟩)]
      | @declare t tokens rest declaration hskip hseparator hclose hread =>
          rw [attempt?_eq_some hskip hseparator hclose, hread]
          cases declaration <;> simp [List.filterMap_cons, Attempt.declaration?, Attempt.fault?]
      | recover hskip hseparator hclose hread =>
          rw [attempt?_eq_some hskip hseparator hclose, hread]
          simp [List.filterMap_cons, Attempt.declaration?, Attempt.fault?]

end

end Session

/-! ## Places -/

/-- The constructs follow one another in the tokens. The fault of a construct is at one of its
tokens, and the later constructs are behind that token. -/
inductive Located (o : ReadOptions) : List Token → List Attempt → Prop where
  | nil (tokens : List Token) : Located o tokens []
  | cons {tokens behind rest : List Token} {start : Token} {later : List Attempt} :
      start :: behind <:+ tokens → rest <:+ behind →
      (∀ fault ∈ (Attempt.mk start (readConstruct o start behind)).fault?,
        ∃ t back, t :: back <:+ start :: behind ∧ fault.position = t.position ∧ rest <:+ back) →
      Located o rest later → Located o tokens (⟨start, readConstruct o start behind⟩ :: later)

theorem Located.mono {o : ReadOptions} {tokens input : List Token} {attempts : List Attempt}
    (h : Located o tokens attempts) (hinput : tokens <:+ input) : Located o input attempts := by
  cases h with
  | nil => exact .nil input
  | cons hstart hrest hfault hlater => exact .cons (hstart.trans hinput) hrest hfault hlater

namespace Session

/-- The tokens in which the next construct is found. A brace that closes a linkage block is not one
of them. -/
def ahead (s : Session) : List Token :=
  match s.rest with
  | [] => []
  | t :: back => if t.kind = .rightBrace ∧ 0 < s.linkage then back else t :: back

section

variable {o : ReadOptions} {s : Session} {t : Token} {tokens : List Token}

/-- All that is left is ahead, or all but a brace that closes a linkage block. -/
theorem ahead_cases (s : Session) :
    s.ahead = s.rest ∨
      ∃ t, skipLayout s.rest = t :: s.ahead ∧ t.kind = .rightBrace ∧ 0 < s.linkage := by
  unfold ahead
  split
  · rename_i hrest
    exact .inl hrest.symm
  · rename_i t back hrest
    rw [hrest]
    split
    · rename_i hclosing
      exact .inr ⟨t, by simp [skipLayout, hclosing.1, TokenKind.isLayout], hclosing⟩
    · exact .inl rfl

theorem ahead_of_closing (hrest : s.rest = t :: tokens) (hkind : t.kind = .rightBrace)
    (hlinkage : 0 < s.linkage) : s.ahead = tokens := by
  simp [ahead, hrest, hkind, hlinkage]

theorem ahead_suffix (s : Session) : s.ahead <:+ s.rest := by
  rcases s.ahead_cases with hall | ⟨t, hskip, -⟩
  · rw [hall]
  · exact suffix_of_skipLayout hskip

/-- The first token that is not layout is ahead, unless it closes a linkage block. -/
theorem cons_suffix_ahead (hskip : skipLayout s.rest = t :: tokens)
    (hclose : ¬ (t.kind = .rightBrace ∧ 0 < s.linkage)) : t :: tokens <:+ s.ahead := by
  rcases s.ahead_cases with hall | ⟨u, hclosing, hkind⟩
  · rw [hall, ← hskip]
    exact skipLayout_suffix s.rest
  · obtain ⟨rfl, -⟩ := List.cons.inj (hclosing.symm.trans hskip)
    exact absurd hkind hclose

theorem suffix_ahead (hskip : skipLayout s.rest = t :: tokens) : tokens <:+ s.ahead := by
  rcases s.ahead_cases with hall | ⟨u, hclosing, -⟩
  · rw [hall]
    exact suffix_of_skipLayout hskip
  · obtain ⟨-, hrest⟩ := List.cons.inj (hclosing.symm.trans hskip)
    rw [hrest]

/-- The constructs of a run are located in what is ahead of it. -/
theorem attempts_located (o : ReadOptions) (s : Session) : Located o s.ahead (s.attempts o) := by
  induction s using run_induction (o := o) with
  | stop s final fault hstep =>
      rw [attempts_of_stop hstep]
      cases hstep with
      | finish hskip =>
          rw [attempt?, hskip]
          exact .nil _
      | @halt t tokens rest fault hskip hseparator hclose hread =>
          rw [attempt?_eq_some hskip hseparator hclose]
          refine .cons (cons_suffix_ahead hskip hclose) List.nil_suffix ?_ (.nil [])
          obtain ⟨u, back, hback, hposition, -⟩ := readConstruct_broken hread
          intro fault' hfault
          rw [Attempt.fault?, hread] at hfault
          cases hfault
          exact ⟨u, back, hback, hposition, List.nil_suffix⟩
  | go s next hstep ih =>
      rw [attempts_of_go hstep]
      have hahead := next.ahead_suffix
      cases hstep with
      | separate hskip hseparator =>
          rw [attempt?_eq_none hskip (.inl hseparator)]
          exact ih.mono (hahead.trans (suffix_ahead hskip))
      | close hskip hkind hlinkage =>
          rw [attempt?_eq_none hskip (.inr ⟨hkind, hlinkage⟩)]
          exact ih.mono (hahead.trans (suffix_ahead hskip))
      | @declare t tokens rest declaration hskip hseparator hclose hread =>
          rw [attempt?_eq_some hskip hseparator hclose]
          have hrest := readConstruct_rest_suffix o t tokens
          rw [hread] at hrest
          refine .cons (cons_suffix_ahead hskip hclose) (hahead.trans hrest) ?_ ih
          intro fault hfault
          rw [Attempt.fault?, hread] at hfault
          cases hfault
      | @recover t tokens rest fault hskip hseparator hclose hread =>
          rw [attempt?_eq_some hskip hseparator hclose]
          have hrest := (resume_suffix (linkageAfter s.linkage fault) t tokens rest fault).trans
            (readConstruct_suffix hread)
          refine .cons (cons_suffix_ahead hskip hclose) (hahead.trans hrest) ?_ ih
          obtain ⟨u, back, hback, hposition, hresume⟩ :=
            exists_resume_suffix hread (linkageAfter s.linkage fault)
          intro fault' hfault
          rw [Attempt.fault?, hread] at hfault
          cases hfault
          refine ⟨u, back, hback, hposition, ?_⟩
          rcases hresume with hresume | ⟨hresume, hkind, hlinkage⟩
          · exact hahead.trans hresume
          · rw [ahead_of_closing hresume hkind hlinkage]

end

end Session

/-! ## Order -/

/-- The tokens of a source are in the order of their offsets. -/
theorem pairwise_offset_tokenize (source : Bytes) :
    (tokenize source).Pairwise (·.position.offset < ·.position.offset) := by
  have hne := (Lexer.emits_tokenize source).text_ne_nil
  have hplaced := placed_tokenize source
  generalize tokenize source = tokens at hne hplaced
  generalize 0 = offset at hplaced
  induction tokens generalizing offset with
  | nil => exact .nil
  | cons t tokens ih =>
      obtain ⟨hfirst, hothers⟩ := hplaced
      refine List.pairwise_cons.mpr ⟨fun u hu => ?_, ih ?_ _ hothers⟩
      · have hlength := List.length_pos_iff.mpr (hne t List.mem_cons_self)
        have hle := hothers.le_offset u hu
        omega
      · exact fun u hu => hne u (List.mem_cons_of_mem t hu)

namespace Located

variable {o : ReadOptions} {tokens : List Token} {attempts : List Attempt}

/-- Each construct is read from its first token on. -/
theorem start_suffix (h : Located o tokens attempts) :
    ∀ a ∈ attempts, ∃ behind, a.start :: behind <:+ tokens ∧
      a.outcome = readConstruct o a.start behind := by
  induction h with
  | nil => exact List.forall_mem_nil _
  | @cons tokens behind rest start later hstart hrest _ _ ih =>
      refine List.forall_mem_cons.mpr ⟨⟨behind, hstart, rfl⟩, fun a ha => ?_⟩
      obtain ⟨behind', hsuffix, hread⟩ := ih a ha
      have hlater := hrest.trans ((List.suffix_cons start behind).trans hstart)
      exact ⟨behind', hsuffix.trans hlater, hread⟩

/-- The fault of a construct is at a token that is its first one or behind that. -/
theorem fault_position (h : Located o tokens attempts)
    (hordered : tokens.Pairwise (·.position.offset < ·.position.offset)) :
    ∀ a ∈ attempts, ∀ fault ∈ a.fault?, ∃ t ∈ tokens, fault.position = t.position ∧
      a.start.position.offset ≤ t.position.offset := by
  induction h with
  | nil => exact List.forall_mem_nil _
  | @cons tokens behind rest start later hstart hrest hfault _ ih =>
      have hconstruct := hordered.sublist hstart.sublist
      refine List.forall_mem_cons.mpr ⟨fun fault hf => ?_, fun a ha fault hf => ?_⟩
      · obtain ⟨t, back, hback, hposition, -⟩ := hfault fault hf
        have ht := hback.subset List.mem_cons_self
        refine ⟨t, hstart.subset ht, hposition, ?_⟩
        rcases List.mem_cons.mp ht with rfl | ht
        · exact Nat.le_refl _
        · exact Nat.le_of_lt ((List.pairwise_cons.mp hconstruct).1 t ht)
      · have hsuffix := hrest.trans ((List.suffix_cons _ _).trans hstart)
        obtain ⟨t, ht, hposition⟩ := ih (hordered.sublist hsuffix.sublist) a ha fault hf
        exact ⟨t, hsuffix.subset ht, hposition⟩

/-- The fault of a construct is before the constructs that follow. -/
theorem pairwise_fault_start (h : Located o tokens attempts)
    (hordered : tokens.Pairwise (·.position.offset < ·.position.offset)) :
    attempts.Pairwise fun a b =>
      ∀ fault ∈ a.fault?, fault.position.offset < b.start.position.offset := by
  induction h with
  | nil => exact .nil
  | @cons tokens behind rest start later hstart hrest hfault hlater ih =>
      have hconstruct := hordered.sublist hstart.sublist
      refine List.pairwise_cons.mpr ⟨fun b hb fault hf => ?_, ih ?_⟩
      · obtain ⟨t, back, hback, hposition, hbehind⟩ := hfault fault hf
        obtain ⟨_, hstart', -⟩ := hlater.start_suffix b hb
        have hmem := (hstart'.trans hbehind).subset List.mem_cons_self
        rw [hposition]
        exact (List.pairwise_cons.mp (hconstruct.sublist hback.sublist)).1 b.start hmem
      · exact hconstruct.sublist (hrest.trans (List.suffix_cons _ _)).sublist

/-- The faults of constructs are in the order of the source. -/
theorem pairwise_faults (h : Located o tokens attempts)
    (hordered : tokens.Pairwise (·.position.offset < ·.position.offset)) :
    (attempts.filterMap Attempt.fault?).Pairwise (·.position.offset < ·.position.offset) := by
  rw [List.pairwise_filterMap]
  refine (h.pairwise_fault_start hordered).imp_of_mem ?_
  intro a b ha hb hbefore fault hfault later hlater
  obtain ⟨t, -, hposition, hle⟩ := h.fault_position hordered b hb later hlater
  rw [hposition]
  exact Nat.lt_of_lt_of_le (hbefore fault hfault) hle

end Located

/-- The declarations and the faults of a reading are those of its constructs, each read from its
first token on. A fault is at a token of the source that is not before the first token of its
construct, and before the first token of every later one; so the faults stand in the order of the
source. -/
theorem readHeader_faults_located (o : ReadOptions) (source : Bytes) :
    let constructs := (Session.ofSource source).attempts o
    let reading := readHeader o source
    let faults := reading.diagnostics ++ reading.fault.toList
    constructs.filterMap Attempt.declaration? = reading.declarations ∧
      constructs.filterMap Attempt.fault? = faults ∧
      (∀ a ∈ constructs, ∃ tokens, a.start :: tokens <:+ tokenize source ∧
        a.outcome = readConstruct o a.start tokens) ∧
      (∀ a ∈ constructs, ∀ fault ∈ a.fault?, ∃ t ∈ tokenize source,
        fault.position = t.position ∧ a.start.position.offset ≤ t.position.offset) ∧
      (constructs.Pairwise fun a b =>
        ∀ fault ∈ a.fault?, fault.position.offset < b.start.position.offset) ∧
      faults.Pairwise (·.position.offset < ·.position.offset) := by
  intro constructs reading faults
  have hlocated : Located o (tokenize source) constructs :=
    (Session.attempts_located o _).mono (Session.ahead_suffix _)
  have hordered := pairwise_offset_tokenize source
  have hfound := Session.run_eq_attempts (o := o) (Session.ofSource source)
  have hfaults : constructs.filterMap Attempt.fault? = faults := hfound.2.symm
  refine ⟨hfound.1.symm, hfaults, hlocated.start_suffix, hlocated.fault_position hordered,
    hlocated.pairwise_fault_start hordered, ?_⟩
  rw [← hfaults]
  exact hlocated.pairwise_faults hordered

/-- An enum without a body is refused at the brace behind it, which then closes the linkage block; the
prototype starts behind that brace. -/
theorem readHeader_faults_located_brace :
    let o : ReadOptions := ⟨true, false, false⟩
    let source := ascii "extern \"C\" \x7b enum E \x7d int f(void);"
    let constructs := (Session.ofSource source).attempts o
    constructs.map (·.start.position.offset) = [0, 13, 22] ∧
      ∃ a ∈ constructs, ∃ fault ∈ a.fault?,
        a.start.position.offset = 13 ∧ fault.position.offset = 20 ∧
        (∃ t ∈ tokenize source, fault.position = t.position ∧
          a.start.position.offset ≤ t.position.offset) ∧
        (readHeader o source).diagnostics.Pairwise (·.position.offset < ·.position.offset) := by
  intro o source constructs
  have hstarts : constructs.map (·.start.position.offset) = [0, 13, 22] := by decide +kernel
  have hrefused : ∃ a ∈ constructs, ∃ fault ∈ a.fault?,
      a.start.position.offset = 13 ∧ fault.position.offset = 20 := by
    decide +kernel
  obtain ⟨a, ha, fault, hfault, hstart, hoffset⟩ := hrefused
  obtain ⟨-, -, -, hlocated, -, hordered⟩ := readHeader_faults_located o source
  refine ⟨hstarts, a, ha, fault, hfault, hstart, hoffset, hlocated a ha fault hfault, ?_⟩
  exact (List.pairwise_append.mp hordered).1

end HeaderBinding
