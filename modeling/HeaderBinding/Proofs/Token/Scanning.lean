import HeaderBinding.Proofs.Token.Lexicon
import HeaderBinding.Token.Lexer

/-!
# Scanning for the longest text

A scan reads byte by byte and keeps the rules that can still match. What one byte does to the rules
is what it does to the texts of the lexicon; so the match that a scan ends with is the longest text
at its start, and the byte that it stops at is the first that no text goes on with.
-/

namespace HeaderBinding

/-! ## What the lexicon says about a text -/

namespace Lexicon

variable {es : List LexicalEntry} {s u : Bytes} {kind : TokenKind}

/-- Some entry holds the text. -/
def Word (es : List LexicalEntry) (s : Bytes) : Prop :=
  ∃ e ∈ es, s ∈ e.texts

/-- Some text starts with the bytes. -/
def Viable (es : List LexicalEntry) (s : Bytes) : Prop :=
  ∃ t, Word es t ∧ s <+: t

/-- The first entry that holds the text is of a kind. -/
def FirstKind (es : List LexicalEntry) (s : Bytes) (kind : TokenKind) : Prop :=
  ∃ before e behind, es = before ++ e :: behind ∧ e.kind = kind ∧ s ∈ e.texts ∧
    ∀ e' ∈ before, s ∉ e'.texts

/-- No text stands at the start of the bytes. -/
def Unmatched (es : List LexicalEntry) (s : Bytes) : Prop :=
  ∀ u, u <+: s → u ≠ [] → ¬ Word es u

/-- The longest text at the start of the bytes, and its kind. -/
structure LongestWord (es : List LexicalEntry) (s u : Bytes) (kind : TokenKind) : Prop where
  starts : u <+: s
  ne_nil : u ≠ []
  kind_eq : FirstKind es u kind
  longest : ∀ v, v <+: s → Word es v → v.length ≤ u.length

/-- The shortest start of the bytes that no text goes on with. -/
structure ShortestDead (es : List LexicalEntry) (s u : Bytes) : Prop where
  starts : u <+: s
  dead : ¬ Viable es u
  shortest : ∀ v, v <+: s → ¬ Viable es v → u.length ≤ v.length

/-- The bytes given up where no text stands: up to the first that no text goes on with, or all of
them if there is none. -/
def InvalidPiece (es : List LexicalEntry) (s u : Bytes) : Prop :=
  ShortestDead es s u ∨ (∀ v, v <+: s → Viable es v) ∧ u = s

/-- Invalid pieces one behind another, until a text stands or the bytes end. -/
inductive InvalidRun (es : List LexicalEntry) : Bytes → Bytes → Prop where
  | finish : InvalidRun es [] []
  | word {s : Bytes} : ¬ Unmatched es s → InvalidRun es s []
  | piece {u s text : Bytes} : Unmatched es (u ++ s) → u ≠ [] → InvalidPiece es (u ++ s) u →
      InvalidRun es s text → InvalidRun es (u ++ s) (u ++ text)

theorem firstKind_cons {e : LexicalEntry} :
    FirstKind (e :: es) s kind ↔
      e.kind = kind ∧ s ∈ e.texts ∨ s ∉ e.texts ∧ FirstKind es s kind := by
  constructor
  · rintro ⟨before, e', behind, hes, hkind, hs, hbefore⟩
    cases before with
    | nil =>
        obtain ⟨rfl, rfl⟩ := List.cons.inj hes
        exact .inl ⟨hkind, hs⟩
    | cons e₀ before =>
        obtain ⟨rfl, rfl⟩ := List.cons.inj hes
        obtain ⟨he, hbefore⟩ := List.forall_mem_cons.mp hbefore
        exact .inr ⟨he, before, e', behind, rfl, hkind, hs, hbefore⟩
  · rintro (⟨hkind, hs⟩ | ⟨he, before, e', behind, rfl, hkind, hs, hbefore⟩)
    · exact ⟨[], e, es, rfl, hkind, hs, by simp⟩
    · exact ⟨e :: before, e', behind, rfl, hkind, hs, List.forall_mem_cons.mpr ⟨he, hbefore⟩⟩

theorem not_firstKind_nil : ¬ FirstKind [] s kind := by
  rintro ⟨before, e, behind, h, _⟩
  simp at h

theorem word_iff_firstKind : Word es s ↔ ∃ kind, FirstKind es s kind := by
  constructor
  · rintro ⟨e, he, hs⟩
    induction es with
    | nil => simp at he
    | cons e₀ es ih =>
        by_cases h₀ : s ∈ e₀.texts
        · exact ⟨e₀.kind, firstKind_cons.mpr (.inl ⟨rfl, h₀⟩)⟩
        · rcases List.mem_cons.mp he with rfl | he
          · exact absurd hs h₀
          · obtain ⟨kind, hkind⟩ := ih he
            exact ⟨kind, firstKind_cons.mpr (.inr ⟨h₀, hkind⟩)⟩
  · rintro ⟨kind, before, e, behind, rfl, _, hs, _⟩
    exact ⟨e, by simp, hs⟩

theorem FirstKind.unique {kind' : TokenKind} (h : FirstKind es s kind)
    (h' : FirstKind es s kind') : kind = kind' := by
  induction es with
  | nil => exact absurd h not_firstKind_nil
  | cons e es ih =>
      rcases firstKind_cons.mp h with ⟨rfl, hs⟩ | ⟨hs, h⟩
      · rcases firstKind_cons.mp h' with ⟨rfl, _⟩ | ⟨hs', _⟩
        · rfl
        · exact absurd hs hs'
      · rcases firstKind_cons.mp h' with ⟨rfl, hs'⟩ | ⟨_, h'⟩
        · exact absurd hs' hs
        · exact ih h h'

theorem Word.viable (h : Word es s) (hu : u <+: s) : Viable es u :=
  ⟨s, h, hu⟩

end Lexicon

/-! ## One byte of a scan -/

namespace Lexer

open Lexicon

variable {b : UInt8} {s u : Bytes} {kind : TokenKind} {rules : List LexicalRule}

theorem advance_cons (rule : LexicalRule) :
    advance b (rule :: rules) =
      if (rule.pattern.derivative b).isVoid then advance b rules
      else { rule with pattern := rule.pattern.derivative b } :: advance b rules := by
  simp only [advance, List.map_cons, List.filter_cons, Bool.not_eq_true']
  cases (rule.pattern.derivative b).isVoid <;> rfl

theorem firstKind_advance :
    FirstKind ((advance b rules).map LexicalRule.entry) s kind ↔
      FirstKind (rules.map LexicalRule.entry) (b :: s) kind := by
  induction rules with
  | nil => exact iff_of_false not_firstKind_nil not_firstKind_nil
  | cons rule rules ih =>
      have hrule : s ∈ (rule.pattern.derivative b).language ↔ b :: s ∈ rule.entry.texts :=
        Pattern.matches_derivative_iff
      rw [advance_cons, List.map_cons, firstKind_cons, ← hrule]
      split
      · rename_i hvoid
        have hnone : s ∉ (rule.pattern.derivative b).language := by
          intro hs
          have := Pattern.isVoid_eq_false_iff.mpr ⟨s, hs⟩
          simp [hvoid] at this
        simp [ih, hnone]
      · rw [List.map_cons, firstKind_cons, ih]
        rfl

theorem word_advance :
    Word ((advance b rules).map LexicalRule.entry) s ↔
      Word (rules.map LexicalRule.entry) (b :: s) := by
  simp only [word_iff_firstKind, firstKind_advance]

theorem viable_advance :
    Viable ((advance b rules).map LexicalRule.entry) s ↔
      Viable (rules.map LexicalRule.entry) (b :: s) := by
  simp only [Viable, word_advance]
  constructor
  · rintro ⟨t, ht, hs⟩
    exact ⟨b :: t, ht, (List.cons_prefix_cons).mpr ⟨rfl, hs⟩⟩
  · rintro ⟨t, ht, hs⟩
    obtain ⟨t, rfl, htail⟩ := List.cons_prefix_iff.mp hs
    exact ⟨t, ht, htail⟩

/-- Rules that are left after a byte can still match. -/
theorem advance_isEmpty_eq_true_iff :
    (advance b rules).isEmpty = true ↔ ¬ Viable (rules.map LexicalRule.entry) [b] := by
  rw [← viable_advance, List.isEmpty_iff]
  constructor
  · intro h
    rw [h]
    rintro ⟨t, ⟨e, he, _⟩, _⟩
    simp at he
  · intro h
    apply List.eq_nil_iff_forall_not_mem.mpr
    intro rule hrule
    have hlive : rule.pattern.isVoid = false := by
      simpa using (List.mem_filter.mp hrule).2
    obtain ⟨t, ht⟩ := Pattern.isVoid_eq_false_iff.mp hlive
    exact h ⟨t, ⟨rule.entry, List.mem_map_of_mem hrule, ht⟩, List.nil_prefix⟩

theorem accepted?_eq_some_iff :
    accepted? rules = some kind ↔ FirstKind (rules.map LexicalRule.entry) [] kind := by
  induction rules with
  | nil => exact iff_of_false (by simp [accepted?]) not_firstKind_nil
  | cons rule rules ih =>
      have hrule : rule.pattern.nullable = true ↔ [] ∈ rule.entry.texts := Pattern.nullable_iff
      rw [List.map_cons, firstKind_cons, ← ih, ← hrule]
      cases h : rule.pattern.nullable <;> simp [accepted?, h, LexicalRule.entry]

theorem accepted?_eq_none_iff :
    accepted? rules = none ↔ ¬ Word (rules.map LexicalRule.entry) [] := by
  rw [word_iff_firstKind, Option.eq_none_iff_forall_ne_some]
  simp only [ne_eq, accepted?_eq_some_iff, not_exists]

/-! ## One byte before a scan -/

theorem longestWord_cons
    (h : LongestWord ((advance b rules).map LexicalRule.entry) s u kind) :
    LongestWord (rules.map LexicalRule.entry) (b :: s) (b :: u) kind where
  starts := List.cons_prefix_cons.mpr ⟨rfl, h.starts⟩
  ne_nil := List.cons_ne_nil b u
  kind_eq := firstKind_advance.mp h.kind_eq
  longest := by
    intro v hv hword
    cases v with
    | nil => exact Nat.zero_le _
    | cons a v =>
        obtain ⟨rfl, htail⟩ := List.cons_prefix_cons.mp hv
        exact Nat.succ_le_succ (h.longest v htail (word_advance.mpr hword))

/-- A byte that is a text is the longest one if no text goes on behind it. -/
theorem longestWord_singleton (h : Unmatched ((advance b rules).map LexicalRule.entry) s)
    (hkind : accepted? (advance b rules) = some kind) :
    LongestWord (rules.map LexicalRule.entry) (b :: s) [b] kind where
  starts := List.cons_prefix_cons.mpr ⟨rfl, List.nil_prefix⟩
  ne_nil := List.cons_ne_nil b []
  kind_eq := firstKind_advance.mp (accepted?_eq_some_iff.mp hkind)
  longest := by
    intro v hv hword
    cases v with
    | nil => exact Nat.zero_le _
    | cons a v =>
        obtain ⟨rfl, htail⟩ := List.cons_prefix_cons.mp hv
        by_cases hnil : v = []
        · simp [hnil]
        · exact absurd (word_advance.mpr hword) (h v htail hnil)

theorem unmatched_cons (h : Unmatched ((advance b rules).map LexicalRule.entry) s)
    (hnone : accepted? (advance b rules) = none) :
    Unmatched (rules.map LexicalRule.entry) (b :: s) := by
  intro v hv hne hword
  cases v with
  | nil => exact hne rfl
  | cons a v =>
      obtain ⟨rfl, htail⟩ := List.cons_prefix_cons.mp hv
      by_cases hnil : v = []
      · subst hnil
        exact accepted?_eq_none_iff.mp hnone (word_advance.mpr hword)
      · exact h v htail hnil (word_advance.mpr hword)

theorem unmatched_of_isEmpty (h : (advance b rules).isEmpty = true) :
    Unmatched (rules.map LexicalRule.entry) (b :: s) := by
  intro v hv hne hword
  cases v with
  | nil => exact hne rfl
  | cons a v =>
      obtain ⟨rfl, _⟩ := List.cons_prefix_cons.mp hv
      exact advance_isEmpty_eq_true_iff.mp h
        (hword.viable (List.cons_prefix_cons.mpr ⟨rfl, List.nil_prefix⟩))

theorem shortestDead_cons (hrules : Viable (rules.map LexicalRule.entry) [])
    (h : ShortestDead ((advance b rules).map LexicalRule.entry) s u) :
    ShortestDead (rules.map LexicalRule.entry) (b :: s) (b :: u) where
  starts := List.cons_prefix_cons.mpr ⟨rfl, h.starts⟩
  dead := fun hviable => h.dead (viable_advance.mpr hviable)
  shortest := by
    intro v hv hdead
    cases v with
    | nil => exact absurd hrules hdead
    | cons a v =>
        obtain ⟨rfl, htail⟩ := List.cons_prefix_cons.mp hv
        exact Nat.succ_le_succ (h.shortest v htail fun hviable => hdead (viable_advance.mp hviable))

theorem shortestDead_of_isEmpty (hrules : Viable (rules.map LexicalRule.entry) [])
    (h : (advance b rules).isEmpty = true) :
    ShortestDead (rules.map LexicalRule.entry) (b :: s) [b] where
  starts := List.cons_prefix_cons.mpr ⟨rfl, List.nil_prefix⟩
  dead := advance_isEmpty_eq_true_iff.mp h
  shortest := by
    intro v hv hdead
    cases v with
    | nil => exact absurd hrules hdead
    | cons a v => simp

theorem viable_cons (hrules : Viable (rules.map LexicalRule.entry) [])
    (h : ∀ v, v <+: s → Viable ((advance b rules).map LexicalRule.entry) v) :
    ∀ v, v <+: b :: s → Viable (rules.map LexicalRule.entry) v := by
  intro v hv
  cases v with
  | nil => exact hrules
  | cons a v =>
      obtain ⟨rfl, htail⟩ := List.cons_prefix_cons.mp hv
      exact viable_advance.mp (h v htail)

/-! ## A whole scan -/

/-- Reading on finds the longest text behind what was read, or keeps the match it came with. -/
theorem scanRest_accepted (live : List LexicalRule) (count : Nat)
    (best : Option (TokenKind × Nat)) (s : Bytes) :
    (∃ u kind, LongestWord (live.map LexicalRule.entry) s u kind ∧
        (scanRest live count best s).accepted = some (kind, count + u.length)) ∨
      Unmatched (live.map LexicalRule.entry) s ∧ (scanRest live count best s).accepted = best := by
  induction s generalizing live count best with
  | nil =>
      refine .inr ⟨?_, rfl⟩
      intro u hu hne
      exact absurd (List.prefix_nil.mp hu) hne
  | cons b s ih =>
      simp only [scanRest]
      split
      · rename_i hempty
        exact .inr ⟨unmatched_of_isEmpty hempty, rfl⟩
      · rcases ih (advance b live) (count + 1)
          (((accepted? (advance b live)).map (·, count + 1)).or best) with
          ⟨u, kind, hlongest, hfound⟩ | ⟨hunmatched, hfound⟩
        · refine .inl ⟨b :: u, kind, longestWord_cons hlongest, ?_⟩
          rw [hfound, List.length_cons, Nat.add_right_comm, Nat.add_assoc]
        · rw [hfound]
          cases haccepted : accepted? (advance b live) with
          | some kind => exact .inl ⟨[b], kind, longestWord_singleton hunmatched haccepted, rfl⟩
          | none => exact .inr ⟨unmatched_cons hunmatched haccepted, rfl⟩

/-- Reading on ends at the first byte that no text goes on with. -/
theorem scanRest_read (live : List LexicalRule) (count : Nat) (best : Option (TokenKind × Nat))
    (s : Bytes) (hlive : Viable (live.map LexicalRule.entry) []) :
    (∃ u, ShortestDead (live.map LexicalRule.entry) s u ∧
        (scanRest live count best s).read = count + u.length) ∨
      (∀ v, v <+: s → Viable (live.map LexicalRule.entry) v) ∧
        (scanRest live count best s).read = count + s.length := by
  induction s generalizing live count best with
  | nil =>
      refine .inr ⟨?_, rfl⟩
      intro v hv
      rwa [List.prefix_nil.mp hv]
  | cons b s ih =>
      simp only [scanRest]
      split
      · rename_i hempty
        exact .inl ⟨[b], shortestDead_of_isEmpty hlive hempty, rfl⟩
      · rename_i hempty
        have hnext : Viable ((advance b live).map LexicalRule.entry) [] := by
          rw [viable_advance]
          exact not_not.mp (mt advance_isEmpty_eq_true_iff.mpr hempty)
        rcases ih (advance b live) (count + 1)
          (((accepted? (advance b live)).map (·, count + 1)).or best) hnext with
          ⟨u, hdead, hread⟩ | ⟨hviable, hread⟩
        · refine .inl ⟨b :: u, shortestDead_cons hlive hdead, ?_⟩
          rw [hread, List.length_cons, Nat.add_right_comm, Nat.add_assoc]
        · refine .inr ⟨viable_cons hlive hviable, ?_⟩
          rw [hread, List.length_cons, Nat.add_right_comm, Nat.add_assoc]

theorem viable_entries_nil : Viable entries [] := by
  refine ⟨utf8 "#".toList, ?_, List.nil_prefix⟩
  have hmem : declare .directiveMarker (text "#") ∈ entries := by simp [entries]
  exact ⟨_, hmem, "#".toList, rfl, rfl⟩

theorem scan_accepted (b : UInt8) (s : Bytes) :
    (∃ u kind, LongestWord entries (b :: s) (b :: u) kind ∧
        (scan b s).accepted = some (kind, u.length)) ∨
      Unmatched entries (b :: s) ∧ (scan b s).accepted = none := by
  rw [← LexicalRule.map_entry_all]
  simp only [scan]
  split
  · rename_i hempty
    exact .inr ⟨unmatched_of_isEmpty hempty, rfl⟩
  · rcases scanRest_accepted (advance b LexicalRule.all) 0
      ((accepted? (advance b LexicalRule.all)).map (·, 0)) s with
      ⟨u, kind, hlongest, hfound⟩ | ⟨hunmatched, hfound⟩
    · exact .inl ⟨u, kind, longestWord_cons hlongest, by rw [hfound, Nat.zero_add]⟩
    · rw [hfound]
      cases haccepted : accepted? (advance b LexicalRule.all) with
      | some kind => exact .inl ⟨[], kind, longestWord_singleton hunmatched haccepted, rfl⟩
      | none => exact .inr ⟨unmatched_cons hunmatched haccepted, rfl⟩

theorem scan_read (b : UInt8) (s : Bytes) :
    InvalidPiece entries (b :: s) (b :: s.take (scan b s).read) := by
  have hrules := viable_entries_nil
  rw [← LexicalRule.map_entry_all] at hrules ⊢
  simp only [scan]
  split
  · rename_i hempty
    exact .inl (shortestDead_of_isEmpty hrules hempty)
  · rename_i hempty
    have hnext : Viable ((advance b LexicalRule.all).map LexicalRule.entry) [] := by
      rw [viable_advance]
      exact not_not.mp (mt advance_isEmpty_eq_true_iff.mpr hempty)
    rcases scanRest_read (advance b LexicalRule.all) 0
      ((accepted? (advance b LexicalRule.all)).map (·, 0)) s hnext with
      ⟨u, hdead, hread⟩ | ⟨hviable, hread⟩
    · have htake : s.take u.length = u := (List.prefix_iff_eq_take.mp hdead.starts).symm
      rw [hread, Nat.zero_add, htake]
      exact .inl (shortestDead_cons hrules hdead)
    · rw [hread, Nat.zero_add, List.take_length]
      exact .inr ⟨viable_cons hrules hviable, rfl⟩

end Lexer

end HeaderBinding
