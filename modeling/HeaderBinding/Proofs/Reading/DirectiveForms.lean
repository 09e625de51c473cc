import HeaderBinding.Proofs.Reading.DataModel

/-!
# The forms of directives

A directive is a mark, a word that no word byte follows, and what belongs to the word: a target in
delimiters, a name behind blanks, or anything at all behind `endif`. The forms are declared here
without regard to how they are read. Reading accepts them and nothing else, and refuses a text for
what its word promises.
-/

namespace HeaderBinding

/-- The byte before the name of an include. -/
def IncludeKind.opening : IncludeKind → UInt8
  | .custom => 0x22
  | .standard => 0x3C

theorem strip?_eq_some_iff {start s rest : Bytes} :
    Bytes.strip? start s = some rest ↔ s = start ++ rest := by
  induction start generalizing s with
  | nil => simp [Bytes.strip?]
  | cons a start ih =>
      cases s with
      | nil => simp [Bytes.strip?]
      | cons b s =>
          rw [Bytes.strip?, List.cons_append, List.cons.injEq]
          split
          · rename_i hab
            simp [ih, hab]
          · rename_i hab
            simp [Ne.symm hab]

namespace Directive

/-! ## Blanks and words -/

/-- Blanks within a directive: tab, LF, FF, CR and space. -/
def blanks : Bytes := [0x09, 0x0A, 0x0C, 0x0D, 0x20]

/-- Nothing but blanks, and maybe nothing at all. -/
def Gap (s : Bytes) : Prop := ∀ b ∈ s, b ∈ blanks

/-- A word that ends before the text ends there: no word byte follows. -/
def Boundary (s : Bytes) : Prop := ∀ b ∈ s.head?, isWord b = false

variable {s t rest gap word name : Bytes} {b : UInt8}

theorem isBlank_iff : isBlank b = true ↔ b ∈ blanks := by
  simp [isBlank, blanks, or_assoc]

theorem isWord_of_mem_blanks (h : b ∈ blanks) : isWord b = false := by
  have hblanks : ∀ b ∈ blanks, isWord b = false := by decide +kernel
  exact hblanks b h

theorem Boundary.of_gap (h : Gap gap) (hne : gap ≠ []) (s : Bytes) : Boundary (gap ++ s) := by
  obtain ⟨b, gap, rfl⟩ := List.exists_cons_of_ne_nil hne
  rintro _ ⟨⟩
  exact isWord_of_mem_blanks (h b List.mem_cons_self)

theorem exists_gap_skipBlanks (s : Bytes) : ∃ gap, Gap gap ∧ s = gap ++ skipBlanks s := by
  refine ⟨s.takeWhile isBlank, ?_, List.takeWhile_append_dropWhile.symm⟩
  intro b hb
  exact isBlank_iff.mp (List.mem_takeWhile_imp hb)

/-- Blanks are skipped up to the first byte that is none. -/
theorem skipBlanks_append (hgap : Gap gap) (hs : ∀ b ∈ s.head?, b ∉ blanks) :
    skipBlanks (gap ++ s) = s := by
  rw [skipBlanks, List.dropWhile_append_of_pos fun b hb => isBlank_iff.mpr (hgap b hb)]
  cases s with
  | nil => rfl
  | cons b s =>
      have hb : ¬ isBlank b = true := isBlank_iff.not.mpr (hs b rfl)
      rw [List.dropWhile_cons_of_neg hb]

/-- Before a boundary, a run of word bytes is all of them. -/
theorem takeWhile_isWord (hword : ∀ b ∈ word, isWord b = true) (hrest : Boundary rest) :
    (word ++ rest).takeWhile isWord = word := by
  rw [List.takeWhile_append_of_pos hword]
  cases rest with
  | nil => simp
  | cons b rest => simp [hrest b rfl]

/-- A run of word bytes ends at a boundary. -/
theorem exists_boundary (s : Bytes) : ∃ rest, Boundary rest ∧ s = s.takeWhile isWord ++ rest := by
  refine ⟨s.dropWhile isWord, ?_, List.takeWhile_append_dropWhile.symm⟩
  intro b hb
  have hend := List.head?_dropWhile_not isWord s
  rwa [hb] at hend

theorem afterWord?_eq_some_iff :
    afterWord? word s = some rest ↔ s = word ++ rest ∧ Boundary rest := by
  have hboundary (rest : Bytes) : (rest.head?.all fun b => !isWord b) = true ↔ Boundary rest := by
    simp [Option.all_eq_true, Boundary]
  rw [afterWord?]
  cases hstrip : Bytes.strip? word s with
  | none =>
      have hno : s ≠ word ++ rest := fun h => by simp [strip?_eq_some_iff.mpr h] at hstrip
      simp [hno]
  | some behind =>
      obtain rfl := strip?_eq_some_iff.mp hstrip
      dsimp only
      split
      · rename_i hall
        simp only [Option.some.injEq, List.append_cancel_left_eq]
        exact ⟨fun h => ⟨h, h ▸ (hboundary behind).mp hall⟩, And.left⟩
      · rename_i hall
        simp only [List.append_cancel_left_eq, reduceCtorEq, false_iff, not_and]
        rintro rfl hrest
        exact hall ((hboundary behind).mpr hrest)

/-! ## The forms -/

/-- The words of directives. -/
def words : List Bytes := [ascii "include", ascii "ifndef", ascii "define", ascii "endif"]

/-- A directive of a word and what follows the word: the mark, blanks, and the word up to where it
ends. -/
inductive Opens (word : Bytes) : Bytes → Bytes → Prop where
  | mk {gap rest : Bytes} (hgap : Gap gap) (hrest : Boundary rest) :
      Opens word (0x23 :: (gap ++ (word ++ rest))) rest

/-- A directive and what it declares. -/
inductive Declares : Bytes → Option Declaration → Prop where
  | inclusion {kind : IncludeKind} {gap between name rest : Bytes} (hgap : Gap gap)
      (hbetween : Gap between) (hne : name ≠ []) (hname : kind.closing ∉ name) :
      Declares
        (0x23 :: (gap ++ (ascii "include" ++
          (between ++ kind.opening :: (name ++ kind.closing :: rest)))))
        (some (.inclusion ⟨name, kind⟩))
  | macroName {kind : MacroKind} {gap between name rest : Bytes} (hgap : Gap gap)
      (hbetween : Gap between) (hne : between ≠ []) (hname : name.isIdentifier = true)
      (hrest : Boundary rest) :
      Declares (0x23 :: (gap ++ (kind.directive ++ (between ++ (name ++ rest)))))
        (some (.macroName ⟨name, kind⟩))
  | endif {gap rest : Bytes} (hgap : Gap gap) (hrest : Boundary rest) :
      Declares (0x23 :: (gap ++ (ascii "endif" ++ rest))) none

/-- What is wrong with a text that is no directive, by the word it opens with. -/
inductive Refused (s : Bytes) : SyntaxError → Prop where
  | invalidInclude {rest : Bytes} (h : Opens (ascii "include") s rest) : Refused s .invalidInclude
  | noMacroName {kind : MacroKind} {rest : Bytes} (h : Opens kind.directive s rest) :
      Refused s .noMacroName
  | invalidDirective (hinclude : ∀ rest, ¬ Opens (ascii "include") s rest)
      (hkinds : ∀ (kind : MacroKind) rest, ¬ Opens kind.directive s rest) :
      Refused s .invalidDirective

theorem all_isWord_of_mem_words (h : word ∈ words) : ∀ b ∈ word, isWord b = true := by
  have hwords : ∀ word ∈ words, ∀ b ∈ word, isWord b = true := by decide +kernel
  exact hwords word h

theorem directive_mem_words (kind : MacroKind) : kind.directive ∈ words := by
  cases kind <;> decide

theorem head?_notMem_blanks (h : word ∈ words) (rest : Bytes) :
    ∀ b ∈ (word ++ rest).head?, b ∉ blanks := by
  have hwords : ∀ word ∈ words, word ≠ [] := by decide
  rw [List.head?_append_of_ne_nil _ (hwords word h)]
  intro b hb hblank
  have hb' := all_isWord_of_mem_words h b (List.mem_of_head? hb)
  rw [isWord_of_mem_blanks hblank] at hb'
  cases hb'

theorem opens_iff (h : word ∈ words) :
    Opens word (0x23 :: s) rest ↔ afterWord? word (skipBlanks s) = some rest := by
  rw [afterWord?_eq_some_iff]
  constructor
  · intro hopens
    cases hopens with
    | mk hgap hrest => exact ⟨skipBlanks_append hgap (head?_notMem_blanks h rest), hrest⟩
  · rintro ⟨hword, hrest⟩
    obtain ⟨gap, hgap, hs⟩ := exists_gap_skipBlanks s
    rw [hs, hword]
    exact .mk hgap hrest

theorem Opens.exists_mark (h : Opens word t rest) : ∃ s, t = 0x23 :: s := by
  cases h
  exact ⟨_, rfl⟩

/-- A directive has one word, the whole run of word bytes behind the blanks. -/
theorem Opens.unique {word' rest' : Bytes} (hword : word ∈ words) (hword' : word' ∈ words)
    (h : Opens word t rest) (h' : Opens word' t rest') : word = word' := by
  obtain ⟨s, rfl⟩ := h.exists_mark
  obtain ⟨hs, hrest⟩ := afterWord?_eq_some_iff.mp ((opens_iff hword).mp h)
  obtain ⟨hs', hrest'⟩ := afterWord?_eq_some_iff.mp ((opens_iff hword').mp h')
  rw [← takeWhile_isWord (all_isWord_of_mem_words hword) hrest, ← hs, hs',
    takeWhile_isWord (all_isWord_of_mem_words hword') hrest']

/-! ## What is read behind the word -/

theorem enclosed?_eq_some_iff {close : UInt8} :
    enclosed? close s = some name ↔
      name ≠ [] ∧ close ∉ name ∧ ∃ rest, s = name ++ close :: rest := by
  constructor
  · intro h
    refine ⟨enclosed?_ne_nil h, notMem_of_enclosed? h, ?_⟩
    unfold enclosed? at h
    dsimp only at h
    split at h
    · cases h
    · rename_i hlength
      cases h
      have hsplit := List.takeWhile_append_dropWhile (p := (· != close)) (l := s)
      cases hrest : s.dropWhile (· != close) with
      | nil =>
          -- The name would be all of the text.
          rw [hrest, List.append_nil] at hsplit
          rw [hsplit] at hlength
          simp at hlength
      | cons b rest =>
          have hb := List.head?_dropWhile_not (· != close) s
          rw [hrest] at hb
          obtain rfl : b = close := by simpa using hb
          exact ⟨rest, by rw [← hrest, hsplit]⟩
  · rintro ⟨hne, hclose, rest, rfl⟩
    have hinside : ∀ b ∈ name, (b != close) = true := by
      intro b hb
      simpa using ne_of_mem_of_not_mem hb hclose
    have htake : (name ++ close :: rest).takeWhile (· != close) = name := by
      rw [List.takeWhile_append_of_pos hinside]
      simp
    rw [enclosed?, htake]
    simp [hne]

theorem target?_eq_some_iff {i : Include} :
    target? s = some i ↔
      i.name ≠ [] ∧ i.kind.closing ∉ i.name ∧
        ∃ rest, s = i.kind.opening :: (i.name ++ i.kind.closing :: rest) := by
  constructor
  · intro h
    have hvalid := target?_valid h
    refine ⟨hvalid.ne_nil, hvalid.ends, ?_⟩
    unfold target? at h
    split at h
    · obtain ⟨name, hname, rfl⟩ := Option.map_eq_some_iff.mp h
      obtain ⟨-, -, rest, rfl⟩ := enclosed?_eq_some_iff.mp hname
      exact ⟨rest, rfl⟩
    · obtain ⟨name, hname, rfl⟩ := Option.map_eq_some_iff.mp h
      obtain ⟨-, -, rest, rfl⟩ := enclosed?_eq_some_iff.mp hname
      exact ⟨rest, rfl⟩
    · cases h
  · rintro ⟨hne, hclose, rest, rfl⟩
    obtain ⟨name, kind⟩ := i
    have hname : enclosed? kind.closing (name ++ kind.closing :: rest) = some name :=
      enclosed?_eq_some_iff.mpr ⟨hne, hclose, rest, rfl⟩
    cases kind with
    | custom => exact Option.map_eq_some_iff.mpr ⟨name, hname, rfl⟩
    | standard => exact Option.map_eq_some_iff.mpr ⟨name, hname, rfl⟩

theorem isWord_of_isIdentifier (h : name.isIdentifier = true) :
    name ≠ [] ∧ ∀ b ∈ name, isWord b = true := by
  cases name with
  | nil => cases h
  | cons b name =>
      rw [Bytes.isIdentifier, Bool.and_eq_true, List.all_eq_true] at h
      exact ⟨by simp, List.forall_mem_cons.mpr ⟨by simp [isWord, h.1], h.2⟩⟩

theorem macroName?_eq_some_iff :
    macroName? s = some name ↔
      name.isIdentifier = true ∧ ∃ between rest, Gap between ∧ between ≠ [] ∧ Boundary rest ∧
        s = between ++ (name ++ rest) := by
  constructor
  · intro h
    unfold macroName? at h
    split at h
    · rename_i b s
      dsimp only at h
      split at h
      · rename_i hboth
        cases h
        obtain ⟨hblank, hidentifier⟩ := Bool.and_eq_true_iff.mp hboth
        obtain ⟨gap, hgap, hs⟩ := exists_gap_skipBlanks s
        obtain ⟨rest, hrest, hname⟩ := exists_boundary (skipBlanks s)
        refine ⟨hidentifier, b :: gap, rest, ?_, by simp, hrest, ?_⟩
        · exact List.forall_mem_cons.mpr ⟨isBlank_iff.mp hblank, hgap⟩
        · rw [← hname, List.cons_append, ← hs]
      · cases h
    · cases h
  · rintro ⟨hname, between, rest, hbetween, hne, hrest, rfl⟩
    obtain ⟨b, between, rfl⟩ := List.exists_cons_of_ne_nil hne
    obtain ⟨hb, hothers⟩ := List.forall_mem_cons.mp hbetween
    obtain ⟨hnil, hwords⟩ := isWord_of_isIdentifier hname
    have hstart : ∀ c ∈ (name ++ rest).head?, c ∉ blanks := by
      rw [List.head?_append_of_ne_nil _ hnil]
      intro c hc hblank
      have hword := hwords c (List.mem_of_head? hc)
      rw [isWord_of_mem_blanks hblank] at hword
      cases hword
    rw [List.cons_append, macroName?, skipBlanks_append hothers hstart,
      takeWhile_isWord hwords hrest, isBlank_iff.mpr hb, hname]
    rfl

/-! ## Reading by the word -/

/-- What an include comes to from what follows its word. -/
def includeFrom (s : Bytes) : Except SyntaxError (Option Declaration) :=
  match target? (skipBlanks s) with
  | some i => .ok (some (.inclusion i))
  | none => .error .invalidInclude

theorem afterWord?_of_opens {word' : Bytes} (hword : word ∈ words) (hword' : word' ∈ words)
    (hne : word ≠ word') (h : Opens word (0x23 :: s) rest) :
    afterWord? word' (skipBlanks s) = none := by
  cases hafter : afterWord? word' (skipBlanks s) with
  | none => rfl
  | some rest' => exact absurd (h.unique hword hword' ((opens_iff hword').mpr hafter)) hne

theorem read_of_include (h : Opens (ascii "include") t rest) : read t = includeFrom rest := by
  obtain ⟨s, rfl⟩ := h.exists_mark
  rw [read, (opens_iff (by decide)).mp h]
  rfl

theorem read_of_macroKind {kind : MacroKind} (h : Opens kind.directive t rest) :
    read t = macroFrom kind rest := by
  obtain ⟨s, rfl⟩ := h.exists_mark
  have hafter := (opens_iff (directive_mem_words kind)).mp h
  have hinclude : afterWord? (ascii "include") (skipBlanks s) = none :=
    afterWord?_of_opens (directive_mem_words kind) (by decide) (by cases kind <;> decide) h
  rw [read, hinclude]
  cases kind with
  | includeGuard => rw [show afterWord? (ascii "ifndef") (skipBlanks s) = _ from hafter]
  | define =>
      have hguard : afterWord? (ascii "ifndef") (skipBlanks s) = none :=
        afterWord?_of_opens (directive_mem_words .define) (by decide) (by decide) h
      rw [hguard, show afterWord? (ascii "define") (skipBlanks s) = _ from hafter]

theorem read_of_endif (h : Opens (ascii "endif") t rest) : read t = .ok none := by
  obtain ⟨s, rfl⟩ := h.exists_mark
  have hother (word : Bytes) (hword : word ∈ words) (hne : ascii "endif" ≠ word) :=
    afterWord?_of_opens (by decide) hword hne h
  rw [read, hother (ascii "include") (by decide) (by decide),
    hother (ascii "ifndef") (by decide) (by decide),
    hother (ascii "define") (by decide) (by decide), (opens_iff (by decide)).mp h]

theorem read_of_not_opens (h : ∀ word ∈ words, ∀ rest, ¬ Opens word t rest) :
    read t = .error .invalidDirective := by
  unfold read
  split
  · rename_i s
    have hnone (word : Bytes) (hword : word ∈ words) : afterWord? word (skipBlanks s) = none := by
      cases hafter : afterWord? word (skipBlanks s) with
      | none => rfl
      | some rest => exact absurd ((opens_iff hword).mpr hafter) (h word hword rest)
    dsimp only
    rw [hnone (ascii "include") (by decide), hnone (ascii "ifndef") (by decide),
      hnone (ascii "define") (by decide), hnone (ascii "endif") (by decide)]
  · rfl

/-- Every text opens with one of the words, or with none of them. -/
theorem opens_cases (t : Bytes) :
    (∃ rest, Opens (ascii "include") t rest) ∨
      (∃ (kind : MacroKind) (rest : Bytes), Opens kind.directive t rest) ∨
      (∃ rest, Opens (ascii "endif") t rest) ∨ ∀ word ∈ words, ∀ rest, ¬ Opens word t rest := by
  by_contra hnone
  simp only [not_or, not_exists] at hnone
  obtain ⟨hinclude, hkinds, hendif, hsome⟩ := hnone
  refine hsome (List.forall_mem_cons.mpr ⟨hinclude, ?_⟩)
  refine List.forall_mem_cons.mpr ⟨hkinds .includeGuard, ?_⟩
  exact List.forall_mem_cons.mpr ⟨hkinds .define, List.forall_mem_singleton.mpr hendif⟩

/-! ## Reading accepts the forms -/

theorem read_of_declares {d : Option Declaration} (h : Declares t d) : read t = .ok d := by
  cases h with
  | @inclusion kind gap between name rest hgap hbetween hne hname =>
      have hopening : isWord kind.opening = false ∧ kind.opening ∉ blanks := by
        cases kind <;> decide
      have hrest : Boundary (between ++ kind.opening :: (name ++ kind.closing :: rest)) := by
        cases between with
        | nil =>
            rintro _ ⟨⟩
            exact hopening.1
        | cons b between => exact .of_gap hbetween (by simp) _
      have htarget : target? (kind.opening :: (name ++ kind.closing :: rest)) = some ⟨name, kind⟩ :=
        target?_eq_some_iff.mpr ⟨hne, hname, rest, rfl⟩
      rw [read_of_include (.mk hgap hrest), includeFrom, skipBlanks_append hbetween, htarget]
      rintro _ ⟨⟩
      exact hopening.2
  | @macroName kind gap between name rest hgap hbetween hne hname hrest =>
      have hread : macroName? (between ++ (name ++ rest)) = some name :=
        macroName?_eq_some_iff.mpr ⟨hname, between, rest, hbetween, hne, hrest, rfl⟩
      rw [read_of_macroKind (.mk hgap (.of_gap hbetween hne _)), macroFrom, hread]
  | endif hgap hrest => exact read_of_endif (.mk hgap hrest)

theorem declares_of_read {d : Option Declaration} (h : read t = .ok d) : Declares t d := by
  rcases opens_cases t with ⟨rest, hopens⟩ | ⟨kind, rest, hopens⟩ | ⟨rest, hopens⟩ | hnone
  · rw [read_of_include hopens, includeFrom] at h
    cases htarget : target? (skipBlanks rest) with
    | none =>
        rw [htarget] at h
        cases h
    | some i =>
        rw [htarget] at h
        cases h
        obtain ⟨between, hbetween, hrest⟩ := exists_gap_skipBlanks rest
        obtain ⟨hne, hclose, behind, htext⟩ := target?_eq_some_iff.mp htarget
        cases hopens with
        | mk hgap _ =>
            rw [hrest, htext]
            exact .inclusion hgap hbetween hne hclose
  · rw [read_of_macroKind hopens, macroFrom] at h
    cases hname : macroName? rest with
    | none =>
        rw [hname] at h
        cases h
    | some name =>
        rw [hname] at h
        cases h
        obtain ⟨hidentifier, between, behind, hbetween, hne, hbehind, rfl⟩ :=
          macroName?_eq_some_iff.mp hname
        cases hopens with
        | mk hgap _ => exact .macroName hgap hbetween hne hidentifier hbehind
  · rw [read_of_endif hopens] at h
    cases h
    cases hopens with
    | mk hgap hrest => exact .endif hgap hrest
  · rw [read_of_not_opens hnone] at h
    cases h

theorem read_eq_ok_iff {d : Option Declaration} : read t = .ok d ↔ Declares t d :=
  ⟨declares_of_read, read_of_declares⟩

/-- A directive spells the name that it declares. -/
theorem Declares.name_isInfix {d : Declaration} (h : Declares t (some d)) : d.name <:+: t := by
  cases h with
  | @inclusion kind gap between name rest =>
      exact ⟨0x23 :: (gap ++ (ascii "include" ++ (between ++ [kind.opening]))),
        kind.closing :: rest, by simp [Declaration.name]⟩
  | @macroName kind gap between name rest =>
      exact ⟨0x23 :: (gap ++ (kind.directive ++ between)), rest, by simp [Declaration.name]⟩

/-! ## What is refused -/

theorem refused_of_read {cause : SyntaxError} (h : read t = .error cause) : Refused t cause := by
  rcases opens_cases t with ⟨rest, hopens⟩ | ⟨kind, rest, hopens⟩ | ⟨rest, hopens⟩ | hnone
  · rw [read_of_include hopens, includeFrom] at h
    split at h
    · cases h
    · cases h
      exact .invalidInclude hopens
  · rw [read_of_macroKind hopens, macroFrom] at h
    split at h
    · cases h
    · cases h
      exact .noMacroName hopens
  · rw [read_of_endif hopens] at h
    cases h
  · rw [read_of_not_opens hnone] at h
    cases h
    exact .invalidDirective (hnone _ (by decide)) fun kind => hnone _ (directive_mem_words kind)

theorem Refused.unique {cause cause' : SyntaxError} (h : Refused t cause)
    (h' : Refused t cause') : cause = cause' := by
  have hwords {kind : MacroKind} {rest rest' : Bytes} (h : Opens (ascii "include") t rest)
      (h' : Opens kind.directive t rest') : False := by
    have hsame := h.unique (by decide) (directive_mem_words kind) h'
    cases kind <;> exact absurd hsame (by decide)
  cases h with
  | invalidInclude hinclude =>
      cases h' with
      | invalidInclude => rfl
      | noMacroName hkinds => exact (hwords hinclude hkinds).elim
      | invalidDirective hnone => exact absurd hinclude (hnone _)
  | noMacroName hkinds =>
      cases h' with
      | invalidInclude hinclude => exact (hwords hinclude hkinds).elim
      | noMacroName => rfl
      | invalidDirective _ hnone => exact absurd hkinds (hnone _ _)
  | invalidDirective hinclude hkinds =>
      cases h' with
      | invalidInclude h => exact absurd h (hinclude _)
      | noMacroName h => exact absurd h (hkinds _ _)
      | invalidDirective => rfl

theorem Refused.category {cause : SyntaxError} (h : Refused t cause) :
    cause.category = .recognition := by
  cases h <;> rfl

theorem read_eq_error_iff {cause : SyntaxError} :
    read t = .error cause ↔ (∀ d, ¬ Declares t d) ∧ Refused t cause := by
  constructor
  · intro h
    refine ⟨fun d hd => ?_, refused_of_read h⟩
    rw [read_of_declares hd] at h
    cases h
  · rintro ⟨hnone, hrefused⟩
    cases hread : read t with
    | ok d => exact absurd (declares_of_read hread) (hnone d)
    | error cause' => rw [(refused_of_read hread).unique hrefused]

end Directive

open Directive

theorem parseStatement_eq_ok_iff {s : Bytes} {d : Option Declaration} :
    parseStatement s = .ok d ↔ Declares s.trim d := by
  rw [← read_eq_ok_iff, parseStatement]
  cases read s.trim <;> simp [Except.mapError]

/-- A statement is read as the directive that its text without surrounding blanks is, and as only
one. Any other text is refused as unrecognised, with the cause that its word gives. -/
theorem parseStatement_recognises (s : Bytes) :
    (∀ d, parseStatement s = .ok d ↔ Declares s.trim d) ∧
      (∀ d d', Declares s.trim d → Declares s.trim d' → d = d') ∧
      (∀ fault, parseStatement s = .error fault ↔
        (∀ d, ¬ Declares s.trim d) ∧ Refused s.trim fault.cause ∧ fault.detail = s.trim ∧
          fault.position = .unknown) ∧
      (∀ cause, Refused s.trim cause → cause.category = .recognition) ∧
      ∀ cause cause', Refused s.trim cause → Refused s.trim cause' → cause = cause' := by
  refine ⟨fun d => ?_, fun d d' h h' => ?_, fun fault => ?_, fun _ => Refused.category,
    fun _ _ => Refused.unique⟩
  · rw [← read_eq_ok_iff, parseStatement]
    cases read s.trim <;> simp [Except.mapError]
  · have hsame := (read_of_declares h).symm.trans (read_of_declares h')
    exact Except.ok.inj hsame
  · rw [← and_assoc, ← read_eq_error_iff, parseStatement]
    obtain ⟨cause, detail, position⟩ := fault
    cases read s.trim <;> simp [Except.mapError, eq_comm]

end HeaderBinding
