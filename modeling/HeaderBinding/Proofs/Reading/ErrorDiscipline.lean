import HeaderBinding.Proofs.Reading.Collecting
import HeaderBinding.Proofs.Reading.WellBuilt
import Mathlib.Logic.Function.Iterate

/-!
# How errors are told

The only errors of the readers are faults, each of one category that its message starts with. None
of the checks that could fail in another way does: what is built is well built, and every construct
takes at least its first token. A session tells faults apart by its mode, however often it is run.
-/

namespace HeaderBinding

open Outcome

/-! ## Categories -/

/-- A message starts with the title of its category and of no other. -/
theorem SyntaxError.title_prefix_iff (cause : SyntaxError) (category : Category) :
    ascii category.title ++ ascii ": " <+: cause.message ↔ cause.category = category := by
  have hapart : ∀ a b : Category,
      ascii a.title ++ ascii ": " <+: ascii b.title ++ ascii ": " → a = b := by
    intro a b
    cases a <;> cases b <;> decide
  have hown : ascii cause.category.title ++ ascii ": " <+: cause.message :=
    List.prefix_append _ _
  constructor
  · intro h
    rcases List.prefix_or_prefix_of_prefix h hown with h | h
    · exact (hapart _ _ h).symm
    · exact hapart _ _ h
  · rintro rfl
    exact hown

/-! ## Progress -/

theorem Token.Placed.le_offset {offset : Nat} {tokens : List Token}
    (h : Token.Placed offset tokens) :
    ∀ t ∈ tokens, offset ≤ t.position.offset := by
  induction tokens generalizing offset with
  | nil => exact nofun
  | cons t tokens ih =>
      obtain ⟨hfirst, hothers⟩ := h
      intro u hu
      rcases List.mem_cons.mp hu with rfl | hu
      · omega
      · have := ih hothers u hu
        omega

/-- Behind a construct the source goes on at a place behind its start. -/
theorem readConstruct_advances {o : ReadOptions} {source : Bytes} {t : Token} {tokens : List Token}
    (h : t :: tokens <:+ tokenize source) :
    ∀ next ∈ (readConstruct o t tokens).rest.head?, t.position.offset < next.position.offset := by
  obtain ⟨front, hfront⟩ := h
  have hplaced := placed_tokenize source
  rw [← hfront, Token.placed_append] at hplaced
  obtain ⟨hstart, hbehind⟩ := hplaced.2
  have htext : t.text ≠ [] := by
    apply (Lexer.emits_tokenize source).text_ne_nil
    rw [← hfront]
    simp
  have hlength := List.length_pos_iff.mpr htext
  intro next hnext
  have hmem : next ∈ tokens :=
    (readConstruct_rest_suffix o t tokens).subset (List.mem_of_mem_head? hnext)
  have hle := hbehind.le_offset next hmem
  omega

/-! ## Sessions -/

namespace Session

/-- What a run passes over is never an unterminated construct. -/
theorem run_diagnostics_category {o : ReadOptions} (s : Session)
    (h : ∀ fault ∈ s.diagnostics, fault.cause.category ≠ .unterminated) :
    ∀ fault ∈ (s.run o).1.diagnostics, fault.cause.category ≠ .unterminated := by
  induction s using run_induction (o := o) with
  | stop s final fault hstep =>
      rw [run_of_stop hstep]
      cases hstep <;> exact h
  | go s next hstep ih =>
      rw [run_of_go hstep]
      apply ih
      cases hstep with
      | separate | close | declare => exact h
      | recover _ _ _ _ hstops =>
          intro fault hfault
          rcases Array.mem_push.mp hfault with hfault | rfl
          · exact h fault hfault
          · simp [stops] at hstops
            exact hstops.2

/-- A fault that ends a run is one that stops it, and with an unterminated construct nothing is left
unread. -/
theorem run_fault {o : ReadOptions} (s : Session) {fault : Fault} (h : (s.run o).2 = some fault) :
    stops o fault = true ∧ (fault.cause.category = .unterminated → (s.run o).1.rest = []) := by
  induction s using run_induction (o := o) with
  | stop s final fault' hstep =>
      rw [run_of_stop hstep] at h ⊢
      cases hstep with
      | finish => cases h
      | @halt t tokens rest fault' _ _ _ hread hstops =>
          cases h
          have hsound : (readConstruct o t tokens).Sound _ :=
            readConstruct_sound (P := fun _ => True) fun _ _ _ => trivial
          rw [hread] at hsound
          exact ⟨hstops, hsound⟩
  | go s next hstep ih =>
      rw [run_of_go hstep] at h ⊢
      exact ih h

/-- What a run may answer, and what it may leave noted. -/
structure Disciplined (o : ReadOptions) (result : Session × Option Fault) : Prop where
  /-- A session that does not collect notes nothing. -/
  noted : o.collect = false → result.1.diagnostics = #[]
  /-- A collecting session is stopped by nothing but an unterminated construct. -/
  stopped : o.collect = true → ∀ fault ∈ result.2, fault.cause.category = .unterminated
  /-- An unterminated construct takes the whole source. -/
  consumed : ∀ fault ∈ result.2, fault.cause.category = .unterminated → result.1.rest = []
  /-- What is passed over is terminated. -/
  passed : ∀ fault ∈ result.1.diagnostics, fault.cause.category ≠ .unterminated

/-- The session after a number of runs. -/
def afterRuns (o : ReadOptions) (source : Bytes) (n : Nat) : Session :=
  (fun s => (run o s).1)^[n] (ofSource source)

theorem afterRuns_succ (o : ReadOptions) (source : Bytes) (n : Nat) :
    afterRuns o source (n + 1) = ((afterRuns o source n).run o).1 :=
  Function.iterate_succ_apply' _ n _

theorem afterRuns_diagnostics {o : ReadOptions} (ho : o.collect = false) (source : Bytes)
    (n : Nat) : (afterRuns o source n).diagnostics = #[] := by
  induction n with
  | zero => rfl
  | succ n ih => rw [afterRuns_succ, run_diagnostics ho, ih]

theorem afterRuns_diagnostics_category (o : ReadOptions) (source : Bytes) (n : Nat) :
    ∀ fault ∈ (afterRuns o source n).diagnostics, fault.cause.category ≠ .unterminated := by
  induction n with
  | zero => exact nofun
  | succ n ih =>
      rw [afterRuns_succ]
      exact run_diagnostics_category _ ih

theorem disciplined_run (o : ReadOptions) (source : Bytes) (n : Nat) :
    Disciplined o ((afterRuns o source n).run o) where
  noted ho := by rw [run_diagnostics ho, afterRuns_diagnostics ho]
  stopped ho fault hfault := by
    have hstops := (run_fault _ hfault).1
    simpa [stops, ho] using hstops
  consumed fault hfault := (run_fault _ hfault).2
  passed := run_diagnostics_category _ (afterRuns_diagnostics_category o source n)

end Session

/-! ## Single constructs -/

section

variable {o : ReadOptions} {source : Bytes}

theorem exists_of_map_eq_ok {ε α β : Type} {f : α → β} {x : Except ε α} {b : β}
    (h : x.map f = .ok b) : ∃ a, x = .ok a ∧ f a = b := by
  cases x with
  | error e => cases h
  | ok a => exact ⟨a, rfl, Except.ok.inj h⟩

theorem Outcome.Sound.alone {α : Type} {p : α → Prop} {x : Outcome α} {value : α}
    (h : x.Sound p) (hvalue : x.alone = .ok value) : p value := by
  cases x with
  | done read rest =>
      obtain ⟨_, -, rfl⟩ := exists_of_map_eq_ok hvalue
      exact h
  | broken fault rest => cases hvalue

theorem parseEnum_named {e : Enum} (h : parseEnum o source = .ok e) :
    (Declaration.enum e).Named Bytes.IsName := by
  unfold parseEnum at h
  split at h
  · cases h
  · rename_i start tokens hskip
    split at h
    · exact (readEnum_sound ((names_tokenize source).suffix (suffix_of_skipLines hskip))).alone h
    · cases h

theorem readBareBody_sound {P : Bytes → Prop} {description : Bytes} {finish : Position}
    {tokens : List Token} (h : Names P tokens) :
    (readBareBody o description finish tokens).Sound (∀ a ∈ ·, a.Named P) := by
  unfold readBareBody
  split
  · exact nofun
  · rename_i t rest hskip
    dsimp only
    split
    · exact readMembers_sound nofun names_nil (h.suffix (suffix_of_skipLines hskip))
    · exact readMembers_sound nofun names_nil (h.suffix (hskip ▸ skipLines_suffix tokens))

/-- The name is not one of the source, so it may be a keyword. -/
theorem parseStruct_wellBuilt {name : Bytes} {s : Struct} (h : parseStruct o name source = .ok s) :
    (Declaration.struct s).WellBuilt := by
  unfold parseStruct at h
  split at h
  · rename_i hname
    obtain ⟨members, hmembers, rfl⟩ := exists_of_map_eq_ok h
    have hnamed := (readBareBody_sound (names_tokenize source)).alone hmembers
    refine ⟨?_, fun a ha => (hnamed a ha).wellBuilt⟩
    simp [Struct.make, hname]
  · cases h

theorem parsePrototype_named {p : Prototype} (h : parsePrototype o source = .ok p) :
    (Declaration.prototype p).Named Bytes.IsName := by
  unfold parsePrototype at h
  split at h
  · cases h
  · rename_i start tokens hskip
    split at h
    · cases h
    · rename_i keyword _
      have hsound : (readPrototype o start.position keyword tokens).Sound _ :=
        readPrototype_sound ((names_tokenize source).suffix (suffix_of_skipLines hskip))
      split at h
      · cases h
      · rename_i p' rest hread
        rw [hread] at hsound
        split at h
        · split at h
          · cases h
          · obtain ⟨_, -, rfl⟩ := exists_of_map_eq_ok h
            exact hsound
        · obtain ⟨_, -, rfl⟩ := exists_of_map_eq_ok h
          exact hsound

end

/-! ## All readers -/

/-- Wherever a reader puts something together from a source, its parts pass the checks for them. -/
structure PassesChecks (o : ReadOptions) (source : Bytes) : Prop where
  /-- A member or a parameter, from any of the tokens. -/
  argument : ∀ malformed first others a, first :: others ⊆ tokenize source →
    Argument.ofTokens o malformed first others = .ok a → a.WellBuilt
  /-- A prototype, also one that is refused for what follows it. -/
  prototype : ∀ start keyword tokens p rest, tokens ⊆ tokenize source →
    readPrototype o start keyword tokens = .done p rest → (Declaration.prototype p).WellBuilt
  /-- The declaration of a construct. -/
  construct : ∀ t tokens d rest, tokens ⊆ tokenize source →
    readConstruct o t tokens = .done (some d) rest → d.WellBuilt
  /-- The declaration of a directive. -/
  statement : ∀ d, parseStatement source = .ok (some d) → d.WellBuilt
  singleEnum : ∀ e, parseEnum o source = .ok e → (Declaration.enum e).WellBuilt
  singleStruct : ∀ name s, parseStruct o name source = .ok s → (Declaration.struct s).WellBuilt
  singlePrototype : ∀ p, parsePrototype o source = .ok p → (Declaration.prototype p).WellBuilt

theorem passesChecks (o : ReadOptions) (source : Bytes) : PassesChecks o source := by
  have hnames {tokens : List Token} (h : tokens ⊆ tokenize source) : Names Bytes.IsName tokens :=
    fun t ht => names_tokenize source t (h ht)
  constructor
  case argument =>
    intro malformed first others a htokens h
    exact (ofTokens_named h (hnames htokens)).wellBuilt
  case prototype =>
    intro start keyword tokens p rest htokens h
    have hsound : (readPrototype o start keyword tokens).Sound _ :=
      readPrototype_sound (hnames htokens)
    rw [h] at hsound
    exact Declaration.Named.wellBuilt hsound
  case construct =>
    intro t tokens d rest htokens h
    exact (readConstruct_named (hnames htokens) h).wellBuilt
  case statement =>
    intro d h
    exact (parseStatement_named h d rfl).wellBuilt
  case singleEnum =>
    intro e h
    exact (parseEnum_named h).wellBuilt
  case singleStruct =>
    intro name s h
    exact parseStruct_wellBuilt h
  case singlePrototype =>
    intro p h
    exact (parsePrototype_named h).wellBuilt

/-- The errors of all readers are faults by their types, and a fault belongs to the one category
that its message names. A session tells them as its mode asks, in its first run and in every later
one. No construct leaves the source where it started, and no reader builds what the checks of
declarations refuse. -/
theorem readers_error_discipline (o : ReadOptions) (source : Bytes) :
    (∀ (cause : SyntaxError) (category : SyntaxError.Category),
      ascii category.title ++ ascii ": " <+: cause.message ↔ cause.category = category) ∧
    (∀ n, Session.Disciplined o ((Session.afterRuns o source n).run o)) ∧
    (∀ t tokens, t :: tokens <:+ tokenize source →
      ∀ next ∈ (readConstruct o t tokens).rest.head?, t.position.offset < next.position.offset) ∧
    PassesChecks o source := by
  refine ⟨SyntaxError.title_prefix_iff, Session.disciplined_run o source, ?_, passesChecks o source⟩
  intro t tokens h
  exact readConstruct_advances h

end HeaderBinding
