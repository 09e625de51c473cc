import HeaderBinding.Golden.Case
import Mathlib.Data.List.Count
import Mathlib.Data.List.TakeWhile

/-!
# The parts of a test case

Delimiter lines cut the lines of a file into sections. They are read as parts one by one, and a
section of just one empty line reads as the end of the file, as the end behind a last delimiter does.
So a file is a test case exactly if three parts stand before such an end, and its parts are then the
lines of the file as they are.
-/

namespace HeaderBinding

namespace GoldenCase

variable {text : Bytes} {lines part : List Bytes} {found others : List (List Bytes)}
  {overflow : Bool}

/-! ## Delimiter lines -/

theorem drop_length_takeWhile {α : Type} (p : α → Bool) (xs : List α) :
    xs.drop (xs.takeWhile p).length = xs.dropWhile p := by
  have hsplit := congrArg (List.drop (xs.takeWhile p).length)
    (List.takeWhile_append_dropWhile (p := p) (l := xs))
  rw [← hsplit, List.drop_left]

/-- Three or more hyphens, with blanks before and behind them or without. -/
def IsDelimiterLine (line : Bytes) : Prop :=
  ∃ before n after, line = before ++ (List.replicate n 0x2D ++ after) ∧ 3 ≤ n ∧
    (∀ b ∈ before, isDelimiterBlank b = true) ∧ ∀ b ∈ after, isDelimiterBlank b = true

theorem isDelimiter_iff {line : Bytes} : isDelimiter line = true ↔ IsDelimiterLine line := by
  simp only [isDelimiter, Bool.and_eq_true, decide_eq_true_eq, List.all_eq_true,
    drop_length_takeWhile]
  constructor
  · rintro ⟨hthree, hafter⟩
    have hhyphens : (line.dropWhile isDelimiterBlank).takeWhile (· == 0x2D) =
        List.replicate ((line.dropWhile isDelimiterBlank).takeWhile (· == 0x2D)).length 0x2D :=
      List.eq_replicate_of_mem fun b hb => by simpa using List.mem_takeWhile_imp hb
    refine ⟨line.takeWhile isDelimiterBlank, _, _, ?_, hthree, fun b => List.mem_takeWhile_imp,
      hafter⟩
    rw [← hhyphens, List.takeWhile_append_dropWhile, List.takeWhile_append_dropWhile]
  · rintro ⟨before, n, after, rfl, hthree, hbefore, hafter⟩
    obtain ⟨m, rfl⟩ := Nat.exists_eq_add_of_le' hthree
    have hinner : (before ++ (List.replicate (m + 3) 0x2D ++ after)).dropWhile isDelimiterBlank =
        List.replicate (m + 3) 0x2D ++ after := by
      rw [List.dropWhile_append_of_pos hbefore, List.replicate_succ, List.cons_append,
        List.dropWhile_cons_of_neg (by decide)]
    have hhyphens : ∀ b ∈ List.replicate (m + 3) (0x2D : UInt8), (b == 0x2D) = true := by
      intro b hb
      rw [List.eq_of_mem_replicate hb]
      rfl
    have hblank : ∀ b ∈ after.head?, (b == 0x2D) = false := by
      intro b hb
      have hb' := hafter b (List.mem_of_mem_head? hb)
      by_contra hhyphen
      rw [Bool.not_eq_false, beq_iff_eq] at hhyphen
      rw [hhyphen] at hb'
      exact absurd hb' (by decide)
    have hend : after.takeWhile (· == 0x2D) = [] ∧ after.dropWhile (· == 0x2D) = after := by
      cases after with
      | nil => exact ⟨rfl, rfl⟩
      | cons b after => simp [hblank b rfl]
    rw [hinner, List.takeWhile_append_of_pos hhyphens, List.dropWhile_append_of_pos hhyphens,
      hend.1, hend.2]
    exact ⟨by simp, hafter⟩

/-! ## Cutting at delimiter lines -/

/-- The lines of a text between its delimiter lines. -/
def sections (text : Bytes) : List (List Bytes) :=
  (Lines.ofText text).lines.splitOnP isDelimiter

/-- A file is one section, or it starts with a section and the delimiter line behind it. -/
theorem exists_section (lines : List Bytes) :
    ∃ part, (∀ line ∈ part, isDelimiter line = false) ∧
      (lines = part ∨ ∃ delimiter behind,
        isDelimiter delimiter = true ∧ lines = part ++ delimiter :: behind) := by
  refine ⟨lines.takeWhile (!isDelimiter ·), fun line hline => ?_, ?_⟩
  · simpa using List.mem_takeWhile_imp hline
  · have hsplit := List.takeWhile_append_dropWhile (p := (!isDelimiter ·)) (l := lines)
    cases hdrop : lines.dropWhile (!isDelimiter ·) with
    | nil =>
        rw [hdrop, List.append_nil] at hsplit
        exact .inl hsplit.symm
    | cons delimiter behind =>
        have hdelimiter := List.head?_dropWhile_not (!isDelimiter ·) lines
        rw [hdrop] at hdelimiter hsplit
        exact .inr ⟨delimiter, behind, by simpa using hdelimiter, hsplit.symm⟩

/-- The first section is what stands before the first delimiter line, or the whole file. -/
theorem splitOnP_eq_cons_iff :
    lines.splitOnP isDelimiter = part :: others ↔
      (∀ line ∈ part, isDelimiter line = false) ∧
        (lines = part ∧ others = [] ∨ ∃ delimiter behind, isDelimiter delimiter = true ∧
          lines = part ++ delimiter :: behind ∧ behind.splitOnP isDelimiter = others) := by
  constructor
  · intro h
    obtain ⟨front, hfront, rfl | ⟨delimiter, behind, hdelimiter, rfl⟩⟩ := exists_section lines
    · rw [List.splitOnP_eq_singleton hfront] at h
      cases h
      exact ⟨hfront, .inl ⟨rfl, rfl⟩⟩
    · rw [List.splitOnP_append_cons_of_forall_mem hfront _ hdelimiter] at h
      cases h
      exact ⟨hfront, .inr ⟨delimiter, behind, hdelimiter, rfl, rfl⟩⟩
  · rintro ⟨hpart, ⟨rfl, rfl⟩ | ⟨delimiter, behind, hdelimiter, rfl, rfl⟩⟩
    · exact List.splitOnP_eq_singleton hpart
    · exact List.splitOnP_append_cons_of_forall_mem hpart _ hdelimiter _

theorem nextPart_last (hpart : ∀ line ∈ part, isDelimiter line = false) :
    nextPart part = ⟨part, none⟩ := by
  have hall : part.takeWhile (!isDelimiter ·) = part :=
    List.takeWhile_eq_self_iff.mpr fun line hline => by simp [hpart line hline]
  simp [nextPart, hall]

theorem nextPart_append (hpart : ∀ line ∈ part, isDelimiter line = false) {delimiter : Bytes}
    (hdelimiter : isDelimiter delimiter = true) (behind : List Bytes) :
    nextPart (part ++ delimiter :: behind) = ⟨part, some behind⟩ := by
  have hall : (part ++ delimiter :: behind).takeWhile (!isDelimiter ·) = part := by
    rw [List.takeWhile_append_of_pos fun line hline => by simp [hpart line hline]]
    simp [hdelimiter]
  simp [nextPart, hall]

/-! ## Reading sections as parts -/

/-- The parts that sections read as. -/
inductive ReadsAs (overflow : Bool) : List (List Bytes) → List (List Bytes) → Prop where
  /-- Nothing but an empty line is left of the file. -/
  | finish {part : List Bytes} (hpart : part = [] ∨ part = [[]]) (hshort : overflow = false) :
      ReadsAs overflow [part] []
  | last {part : List Bytes} (hne : part ≠ []) (hblank : part ≠ [[]]) (hshort : overflow = false) :
      ReadsAs overflow [part] [part]
  /-- An empty line alone is taken for the end. -/
  | blank {next : List Bytes} {others : List (List Bytes)} :
      ReadsAs overflow ([[]] :: next :: others) []
  | part {part next : List Bytes} {others found : List (List Bytes)} (hblank : part ≠ [[]])
      (hothers : ReadsAs overflow (next :: others) found) :
      ReadsAs overflow (part :: next :: others) (part :: found)

theorem parts_last (hpart : ∀ line ∈ part, isDelimiter line = false) :
    parts overflow part =
      if overflow then .error .lineTooLong
      else if part = [] ∨ part = [[]] then .ok [] else .ok [part] := by
  rw [parts]
  split
  · rw [nextPart_last hpart]
  · rename_i hbehind
    rw [nextPart_last hpart] at hbehind
    cases hbehind

theorem parts_append (hpart : ∀ line ∈ part, isDelimiter line = false) {delimiter : Bytes}
    (hdelimiter : isDelimiter delimiter = true) (behind : List Bytes) :
    parts overflow (part ++ delimiter :: behind) =
      if part = [[]] then .ok [] else (parts overflow behind).map (part :: ·) := by
  rw [parts]
  split
  · rename_i hbehind
    rw [nextPart_append hpart hdelimiter] at hbehind
    cases hbehind
  · rename_i behind' hbehind
    obtain rfl : behind = behind' := by
      simpa [nextPart_append hpart hdelimiter] using hbehind
    simp only [nextPart_append hpart hdelimiter]

/-- By induction on the sections of the lines. -/
theorem parts_eq_ok_iff :
    parts overflow lines = .ok found ↔ ReadsAs overflow (lines.splitOnP isDelimiter) found := by
  generalize hn : lines.length = n
  induction n using Nat.strongRecOn generalizing lines found with
  | _ n ih =>
      obtain ⟨part, hpart, rfl | ⟨delimiter, behind, hdelimiter, rfl⟩⟩ := exists_section lines
      · rw [parts_last hpart, List.splitOnP_eq_singleton hpart]
        constructor
        · intro h
          split_ifs at h with hlong hend
          · cases h
            exact .finish hend (Bool.eq_false_iff.mpr hlong)
          · cases h
            rw [not_or] at hend
            exact .last hend.1 hend.2 (Bool.eq_false_iff.mpr hlong)
        · intro h
          cases h with
          | finish hend hshort => simp [hend, hshort]
          | last hne hblank hshort => simp [hne, hblank, hshort]
      · rw [parts_append hpart hdelimiter,
          List.splitOnP_append_cons_of_forall_mem hpart _ hdelimiter]
        obtain ⟨next, others, hothers⟩ :=
          List.exists_cons_of_ne_nil (List.splitOnP_ne_nil isDelimiter behind)
        have hbehind (found : List (List Bytes)) : parts overflow behind = .ok found ↔
            ReadsAs overflow (behind.splitOnP isDelimiter) found :=
          ih behind.length (by simp [← hn]; omega) rfl
        rw [hothers] at hbehind ⊢
        constructor
        · intro h
          split_ifs at h with hblank
          · cases h
            rw [hblank]
            exact .blank
          · cases hread : parts overflow behind with
            | error e =>
                rw [hread] at h
                cases h
            | ok found' =>
                rw [hread] at h
                cases h
                exact .part hblank ((hbehind found').mp hread)
        · intro h
          cases h with
          | blank => rfl
          | part hblank hread => rw [if_neg hblank, (hbehind _).mpr hread]; rfl

/-! ## Test cases -/

theorem parse_eq_ok_iff_parts {c : GoldenCase} :
    parse text = .ok c ↔ ∃ description source expected,
      parts (Lines.ofText text).overflow (Lines.ofText text).lines =
          .ok [description, source, expected] ∧
        c = ⟨Bytes.join [lineFeed] description, Bytes.join [lineFeed] source,
          Bytes.join [lineFeed] expected, description.length + source.length + 3⟩ := by
  rw [parse]
  constructor
  · intro h
    split at h
    · cases h
    · rename_i description source expected hparts
      cases h
      exact ⟨_, _, _, hparts, rfl⟩
    · cases h
  · rintro ⟨description, source, expected, hparts, rfl⟩
    rw [hparts]

/-- Behind the third part of a test case stands nothing, or what reads as the end of the file. -/
inductive EndsBehind (overflow : Bool) (expected : List Bytes) : List (List Bytes) → Prop where
  | here (hne : expected ≠ []) (hshort : overflow = false) : EndsBehind overflow expected []
  | last {part : List Bytes} (hpart : part = [] ∨ part = [[]]) (hshort : overflow = false) :
      EndsBehind overflow expected [part]
  | blank {next : List Bytes} {others : List (List Bytes)} :
      EndsBehind overflow expected ([[]] :: next :: others)

/-- Three parts are read exactly from three sections that are not an empty line alone and an end
behind them. -/
theorem readsAs_three_iff {description source expected : List Bytes}
    {sections : List (List Bytes)} :
    ReadsAs overflow sections [description, source, expected] ↔
      ∃ behind, sections = description :: source :: expected :: behind ∧
        description ≠ [[]] ∧ source ≠ [[]] ∧ expected ≠ [[]] ∧
        EndsBehind overflow expected behind := by
  constructor
  · intro h
    cases h with
    | part hdescription h =>
        cases h with
        | part hsource h =>
            cases h with
            | last hne hblank hshort => exact ⟨[], rfl, hdescription, hsource, hblank, .here hne hshort⟩
            | part hexpected h =>
                cases h with
                | finish hpart hshort =>
                    exact ⟨_, rfl, hdescription, hsource, hexpected, .last hpart hshort⟩
                | blank => exact ⟨_, rfl, hdescription, hsource, hexpected, .blank⟩
  · rintro ⟨behind, rfl, hdescription, hsource, hexpected, hend⟩
    refine .part hdescription (.part hsource ?_)
    cases hend with
    | here hne hshort => exact .last hne hexpected hshort
    | last hpart hshort => exact .part hexpected (.finish hpart hshort)
    | blank => exact .part hexpected .blank

theorem parse_eq_ok_iff_sections {c : GoldenCase} :
    parse text = .ok c ↔ ∃ description source expected behind,
      sections text = description :: source :: expected :: behind ∧
        description ≠ [[]] ∧ source ≠ [[]] ∧ expected ≠ [[]] ∧
        EndsBehind (Lines.ofText text).overflow expected behind ∧
        c = ⟨Bytes.join [lineFeed] description, Bytes.join [lineFeed] source,
          Bytes.join [lineFeed] expected, description.length + source.length + 3⟩ := by
  rw [parse_eq_ok_iff_parts]
  simp only [parts_eq_ok_iff, readsAs_three_iff, sections]
  constructor
  · rintro ⟨_, _, _, ⟨behind, hsections, hdescription, hsource, hexpected, hend⟩, hc⟩
    exact ⟨_, _, _, behind, hsections, hdescription, hsource, hexpected, hend, hc⟩
  · rintro ⟨_, _, _, behind, hsections, hdescription, hsource, hexpected, hend, hc⟩
    exact ⟨_, _, _, ⟨behind, hsections, hdescription, hsource, hexpected, hend⟩, hc⟩

/-- Two delimiter lines stand between three lists of other lines. -/
def Divided (lines before source after : List Bytes) : Prop :=
  ∃ first second, lines = before ++ first :: (source ++ second :: after) ∧
    IsDelimiterLine first ∧ IsDelimiterLine second ∧
    ∀ line ∈ before ++ source ++ after, ¬ IsDelimiterLine line

theorem divided_iff_splitOnP {before source after : List Bytes} :
    Divided lines before source after ↔
      lines.splitOnP isDelimiter = [before, source, after] := by
  simp only [Divided, ← isDelimiter_iff, Bool.not_eq_true, List.forall_mem_append]
  constructor
  · rintro ⟨first, second, rfl, hfirst, hsecond, ⟨hbefore, hsource⟩, hafter⟩
    rw [List.splitOnP_append_cons_of_forall_mem hbefore _ hfirst,
      List.splitOnP_append_cons_of_forall_mem hsource _ hsecond, List.splitOnP_eq_singleton hafter]
  · intro h
    obtain ⟨hbefore, ⟨-, hnil⟩ | ⟨first, _, hfirst, rfl, hrest⟩⟩ := splitOnP_eq_cons_iff.mp h
    · cases hnil
    obtain ⟨hsource, ⟨-, hnil⟩ | ⟨second, _, hsecond, rfl, hlast⟩⟩ :=
      splitOnP_eq_cons_iff.mp hrest
    · cases hnil
    obtain ⟨hafter, ⟨rfl, -⟩ | ⟨_, _, -, -, hnil⟩⟩ := splitOnP_eq_cons_iff.mp hlast
    · exact ⟨first, second, rfl, hfirst, hsecond, ⟨hbefore, hsource⟩, hafter⟩
    · exact absurd hnil (List.splitOnP_ne_nil _ _)

theorem ofText_of_short (h : ∀ line ∈ Lines.raw text, line.length ≤ Lines.limit) :
    Lines.ofText text = ⟨(Lines.raw text).map Lines.dropReturn, false⟩ := by
  have hall : Lines.held (Lines.raw text) = Lines.raw text :=
    List.takeWhile_eq_self_iff.mpr fun line hline => by simpa using h line hline
  simp [Lines.ofText, hall]

/-- A text is a test case exactly if it starts with three sections, none of them an empty line alone,
and the file ends behind them or is taken to end there, which it is before an empty line alone and
behind a last delimiter. Where no section is an empty line alone and the last one has a line, these
are the texts with two delimiter lines, if all lines can be held. The parts are the lines before,
between and behind the delimiters. -/
theorem parse_threeParts (text : Bytes) (c : GoldenCase) :
    (parse text = .ok c ↔ ∃ description source expected behind,
      sections text = description :: source :: expected :: behind ∧
        description ≠ [[]] ∧ source ≠ [[]] ∧ expected ≠ [[]] ∧
        EndsBehind (Lines.ofText text).overflow expected behind ∧
        c = ⟨Bytes.join [lineFeed] description, Bytes.join [lineFeed] source,
          Bytes.join [lineFeed] expected, description.length + source.length + 3⟩) ∧
      ((∀ line ∈ Lines.raw text, line.length < 65536) → [[]] ∉ sections text →
        (sections text).getLast? ≠ some [] →
        (parse text = .ok c ↔ ∃ description source expected,
          Divided ((Lines.raw text).map Lines.dropReturn) description source expected ∧
            c = ⟨Bytes.join [lineFeed] description, Bytes.join [lineFeed] source,
              Bytes.join [lineFeed] expected, description.length + source.length + 3⟩)) := by
  refine ⟨parse_eq_ok_iff_sections, fun hshort hblank hlast => ?_⟩
  have hlines := ofText_of_short fun line hline => Nat.le_of_lt_succ (hshort line hline)
  have hsections : sections text = ((Lines.raw text).map Lines.dropReturn).splitOnP isDelimiter := by
    rw [sections, hlines]
  rw [parse_eq_ok_iff_sections, hlines]
  simp only [divided_iff_splitOnP, ← hsections]
  constructor
  · rintro ⟨description, source, expected, behind, hparts, -, -, -, hend, rfl⟩
    refine ⟨description, source, expected, ?_, rfl⟩
    rw [hparts] at hblank hlast ⊢
    cases hend with
    | here => rfl
    | last hpart =>
        rcases hpart with rfl | rfl
        · exact absurd rfl hlast
        · exact absurd (by simp) hblank
    | blank => exact absurd (by simp) hblank
  · rintro ⟨description, source, expected, hparts, rfl⟩
    rw [hparts] at hblank hlast ⊢
    simp only [List.mem_cons, List.not_mem_nil, or_false, not_or] at hblank
    refine ⟨description, source, expected, [], rfl, Ne.symm hblank.1, Ne.symm hblank.2.1,
      Ne.symm hblank.2.2, .here ?_ rfl, rfl⟩
    rintro rfl
    exact hlast rfl

/-- A part may be empty, and empty lines in a part stay. -/
theorem parse_threeParts_blanks :
    parse (ascii "---\nint f();\r\n\n \t----\r\n\n\n") =
      .ok ⟨[], ascii "int f();\n", ascii "\n", 5⟩ := by
  refine ((parse_threeParts _ _).2 (by decide +kernel) (by decide +kernel) (by decide +kernel)).mpr
    ⟨[], [ascii "int f();", []], [[], []], ?_, rfl⟩
  rw [divided_iff_splitOnP]
  decide +kernel

/-- A description of one empty line reads as the end of the file, and so nothing is read of a file
with two delimiter lines. A third delimiter line goes unseen as the last line. -/
theorem parse_blank_part :
    (Divided ((Lines.raw (ascii "\n---\nenum E \x7b A \x7d;\n---\ncdef enum E:\n    A\n")).map
          Lines.dropReturn) [[]] [ascii "enum E \x7b A \x7d;"]
        [ascii "cdef enum E:", ascii "    A"] ∧
      parse (ascii "\n---\nenum E \x7b A \x7d;\n---\ncdef enum E:\n    A\n") =
        .error (.wrongPartCount 0)) ∧
      parse (ascii "a\n---\nb\n---\nc\n---\n") = .ok ⟨ascii "a", ascii "b", ascii "c", 5⟩ := by
  refine ⟨⟨?_, by decide +kernel⟩, by decide +kernel⟩
  rw [divided_iff_splitOnP]
  decide +kernel

end GoldenCase

end HeaderBinding
