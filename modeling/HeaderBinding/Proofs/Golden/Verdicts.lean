import HeaderBinding.Golden.Run
import HeaderBinding.Proofs.Golden.Parts
import HeaderBinding.Proofs.Rendering.Lines

/-!
# Verdicts on test cases

A difference is found at the first line at which two texts do not agree, and it is reported by the
number of that line in the file of the test case. The lines of the expected part stand in the file
one after another behind the other parts and the delimiters, so the number leads back to the line
that was expected.
-/

namespace HeaderBinding

/-! ## Texts as lines -/

namespace Bytes

variable {separator : UInt8}

theorem join_split (separator : UInt8) (s : Bytes) : join [separator] (split separator s) = s := by
  induction s with
  | nil => rfl
  | cons b s ih =>
      obtain ⟨piece, others, hs⟩ := List.exists_cons_of_ne_nil (split_ne_nil separator s)
      rw [hs] at ih
      rw [split_cons, hs]
      split
      · rename_i hb
        rw [join_cons_cons, ih, hb, List.nil_append]
      · cases others with
        | nil => simpa [join, List.intercalate] using ih
        | cons second others => rw [join_cons_cons, List.cons_append, ← join_cons_cons, ih]

theorem significantLines_inj {s t : Bytes} :
    s.significantLines = t.significantLines ↔ s.dropTrailing lineFeed = t.dropTrailing lineFeed := by
  refine ⟨fun h => ?_, fun h => by rw [significantLines, significantLines, h]⟩
  rw [← join_split lineFeed (s.dropTrailing lineFeed), ← join_split lineFeed (t.dropTrailing lineFeed)]
  exact congrArg (join [lineFeed]) h

theorem dropTrailing_concat (b a : UInt8) (s : Bytes) :
    dropTrailing b (s ++ [a]) = if a = b then dropTrailing b s else s ++ [a] := by
  rw [dropTrailing, List.reverse_append, List.reverse_singleton, List.singleton_append]
  split
  · rename_i h
    rw [List.dropWhile_cons_of_pos (by simpa using h), dropTrailing]
  · rename_i h
    rw [List.dropWhile_cons_of_neg (by simpa using h), List.reverse_cons, List.reverse_reverse]

/-- Line feeds at the end of a text add only empty lines. -/
theorem getD_significantLines (s : Bytes) (i : Nat) :
    (s.significantLines[i]?).getD [] = ((split lineFeed s)[i]?).getD [] := by
  induction s using List.reverseRecOn with
  | nil => rfl
  | append_singleton s b ih =>
      by_cases hb : b = lineFeed
      · have hsplit : split lineFeed (s ++ [b]) = split lineFeed s ++ [[]] := by
          rw [hb, split_append]
          rfl
        rw [significantLines, dropTrailing_concat, if_pos hb, ← significantLines, ih, hsplit]
        rcases Nat.lt_or_ge i (split lineFeed s).length with hi | hi
        · rw [List.getElem?_append_left hi]
        · rw [List.getElem?_append_right hi, List.getElem?_eq_none hi]
          cases i - (split lineFeed s).length <;> rfl
      · rw [significantLines, dropTrailing_concat, if_neg hb]

end Bytes

theorem Lines.lineFeed_notMem_ofText {text line : Bytes} (h : line ∈ (ofText text).lines) :
    lineFeed ∉ line := by
  obtain ⟨raw, hraw, rfl⟩ := List.mem_map.mp h
  have hpiece : raw ∈ text.split lineFeed := by
    have hmem := (List.takeWhile_sublist _).subset hraw
    unfold Lines.raw at hmem
    dsimp only at hmem
    split at hmem
    · exact (List.dropLast_sublist _).subset hmem
    · exact hmem
  intro hfeed
  refine Bytes.not_mem_of_mem_split hpiece ?_
  unfold dropReturn at hfeed
  split at hfeed
  · exact (List.dropLast_sublist _).subset hfeed
  · exact hfeed

/-! ## First differences -/

/-- Two lists of lines agree on the first `i` lines, and there the next ones are the given ones. A
list that has ended has an empty line there. -/
structure FirstDifference (expected actual : List Bytes) (i : Nat) (e a : Bytes) : Prop where
  le_expected : i ≤ expected.length
  le_actual : i ≤ actual.length
  agree : expected.take i = actual.take i
  differ : expected[i]? ≠ actual[i]?
  expected_eq : e = (expected[i]?).getD []
  actual_eq : a = (actual[i]?).getD []

namespace LineDifference

variable {line : Nat} {expected actual : List Bytes} {d : LineDifference}

theorem between_eq_none_iff : between line expected actual = none ↔ expected = actual := by
  induction expected generalizing line actual with
  | nil => cases actual <;> simp [between]
  | cons e es ih =>
      cases actual with
      | nil => simp [between]
      | cons a as => by_cases h : e = a <;> simp [between, h, ih]

theorem ofTexts_eq_none_iff {expected actual : Bytes} :
    ofTexts expected actual = none ↔
      actual.dropTrailing lineFeed = expected.dropTrailing lineFeed := by
  rw [ofTexts, between_eq_none_iff, eq_comm, Bytes.significantLines_inj]

/-- By induction on the lines both lists have. -/
theorem firstDifference_of_between (h : between line expected actual = some d) :
    ∃ i : Nat, d.line = line + i ∧ FirstDifference expected actual i d.expected d.actual := by
  induction expected generalizing line actual with
  | nil =>
      cases actual with
      | nil => cases h
      | cons a as =>
          cases h
          exact ⟨0, by simp, ⟨by simp, by simp, rfl, by simp, rfl, rfl⟩⟩
  | cons e es ih =>
      cases actual with
      | nil =>
          cases h
          exact ⟨0, by simp, ⟨by simp, by simp, rfl, by simp, rfl, rfl⟩⟩
      | cons a as =>
          rw [between] at h
          split at h
          · rename_i hsame
            obtain ⟨i, hline, hfirst⟩ := ih h
            refine ⟨i + 1, by rw [hline]; omega, ?_⟩
            exact ⟨Nat.succ_le_succ hfirst.le_expected, Nat.succ_le_succ hfirst.le_actual,
              by rw [List.take_succ_cons, List.take_succ_cons, hsame, hfirst.agree],
              by simpa using hfirst.differ, by simpa using hfirst.expected_eq,
              by simpa using hfirst.actual_eq⟩
          · rename_i hdiffer
            cases h
            exact ⟨0, by simp, ⟨by simp, by simp, rfl, by simpa using hdiffer, rfl, rfl⟩⟩

/-- The actual text has ended, and empty lines at the end of the expected one do not count. -/
example : ofTexts (ascii "a\nend\n\n") (ascii "a\n") = some ⟨2, ascii "end", []⟩ := by
  decide +kernel

end LineDifference

/-! ## Lines of the file -/

namespace GoldenCase

variable {text : Bytes} {description source expected : List Bytes} {behind : List (List Bytes)}

/-- The first three sections stand in the file with one line between each two. -/
theorem exists_lines_of_sections
    (h : sections text = description :: source :: expected :: behind) :
    ∃ first second others,
      (Lines.ofText text).lines =
        description ++ first :: (source ++ second :: (expected ++ others)) := by
  obtain ⟨-, ⟨-, hnil⟩ | ⟨first, _, -, hlines, hrest⟩⟩ := splitOnP_eq_cons_iff.mp h
  · cases hnil
  obtain ⟨-, ⟨-, hnil⟩ | ⟨second, _, -, rfl, hlast⟩⟩ := splitOnP_eq_cons_iff.mp hrest
  · cases hnil
  obtain ⟨-, ⟨hend, -⟩ | ⟨third, others, -, rfl, -⟩⟩ := splitOnP_eq_cons_iff.mp hlast
  · exact ⟨first, second, [], by rw [hlines, hend, List.append_nil]⟩
  · exact ⟨first, second, third :: others, hlines⟩

theorem ofText_lines_prefix (text : Bytes) :
    (Lines.ofText text).lines <+: (Lines.raw text).map Lines.dropReturn :=
  (List.takeWhile_prefix _).map Lines.dropReturn

/-- A line of the expected part is found in the file by its number. -/
theorem getElem?_of_sections (h : sections text = description :: source :: expected :: behind)
    {i : Nat} (hi : i < expected.length) :
    ((Lines.raw text).map Lines.dropReturn)[description.length + source.length + 2 + i]? =
      some expected[i] := by
  obtain ⟨first, second, others, hlines⟩ := exists_lines_of_sections h
  obtain ⟨behind, hraw⟩ := ofText_lines_prefix text
  have hplace : (Lines.ofText text).lines[description.length + source.length + 2 + i]? =
      some expected[i] := by
    have hfront : (Lines.ofText text).lines =
        (description ++ first :: (source ++ [second])) ++ (expected ++ others) := by
      simp [hlines]
    have hlength : (description ++ first :: (source ++ [second])).length =
        description.length + source.length + 2 := by
      simp only [List.length_append, List.length_cons, List.length_nil]
      omega
    rw [hfront, ← hlength, List.getElem?_append_right (Nat.le_add_right _ _),
      Nat.add_sub_cancel_left, List.getElem?_append_left hi, List.getElem?_eq_getElem hi]
  obtain ⟨hplace', -⟩ := List.getElem?_eq_some_iff.mp hplace
  rw [← hraw, List.getElem?_append_left hplace', hplace]

/-- The lines of the expected text are those of the part, as far as it goes. -/
theorem getD_significantLines_of_sections
    (h : sections text = description :: source :: expected :: behind) {i : Nat}
    (hi : i < expected.length) :
    ((Bytes.join [lineFeed] expected).significantLines[i]?).getD [] = expected[i] := by
  obtain ⟨first, second, others, hlines⟩ := exists_lines_of_sections h
  have hfeed : ∀ line ∈ expected, lineFeed ∉ line := by
    intro line hline
    have hmem : line ∈ (Lines.ofText text).lines := by simp [hlines, hline]
    exact Lines.lineFeed_notMem_ofText hmem
  have hne : expected ≠ [] := List.ne_nil_of_length_pos (Nat.zero_lt_of_lt hi)
  rw [Bytes.getD_significantLines, Bytes.split_join hne hfeed, List.getElem?_eq_getElem hi,
    Option.getD_some]

/-! ## Verdicts -/

variable {o : ReadOptions} {style : List ModuleOption} {path : Bytes} {c : GoldenCase}

/-- The `i`-th line of the expected part, counted from 0, is the given line of the file, counted
from 1. There may be no such line in the part. -/
def ExpectedAt (text : Bytes) (i : Nat) (number : Int) (line : Bytes) : Prop :=
  ∃ part, (sections text)[2]? = some part ∧
    (i < part.length → ∃ n : Nat, number = n + 1 ∧
      ((Lines.raw text).map Lines.dropReturn)[n]? = some line)

/-- A result says what came of a test case. -/
structure IsVerdict (o : ReadOptions) (style : List ModuleOption) (path : Bytes) (c : GoldenCase)
    (r : GoldenResult) : Prop where
  path_eq : r.path = path
  /-- A case passes if its header is read and rendered as expected up to line feeds at the end. -/
  passes_iff : r.failure = none ↔ (readHeader o c.source).fault = none ∧
    (renderModule style (readHeader o c.source).declarations).dropTrailing lineFeed =
      c.expected.dropTrailing lineFeed
  broken : ∀ fault, (readHeader o c.source).fault = some fault →
    r.failure = some (.broken (Diagnostic.ofFault fault))
  /-- A header that is read but not rendered as expected has its first difference reported. -/
  mismatch : (readHeader o c.source).fault = none → r.failure ≠ none →
    ∃ (d : LineDifference) (i : Nat), r.failure = some (.mismatch d) ∧
      d.line = c.expectedLine + i ∧
      FirstDifference c.expected.significantLines
        (renderModule style (readHeader o c.source).declarations).significantLines
        i d.expected d.actual ∧
      ∀ text, parse text = .ok c → ExpectedAt text i d.line d.expected

/-- What was expected at a first difference stands in the file where the difference is reported. -/
theorem expectedAt_of_parse {text e a : Bytes} {actual : List Bytes} {i : Nat}
    (hparse : parse text = .ok c)
    (hfirst : FirstDifference c.expected.significantLines actual i e a) :
    ExpectedAt text i (c.expectedLine + i) e := by
  obtain ⟨description, source, expected, behind, hsections, -, -, -, -, rfl⟩ :=
    parse_eq_ok_iff_sections.mp hparse
  refine ⟨expected, by rw [hsections]; rfl, fun hi => ?_⟩
  refine ⟨description.length + source.length + 2 + i, ?_, ?_⟩
  · push_cast
    omega
  · rw [getElem?_of_sections hsections hi, hfirst.expected_eq,
      getD_significantLines_of_sections hsections hi]

theorem run_of_fault {fault : Fault} (h : (readHeader o c.source).fault = some fault) :
    c.run o style path = ⟨path, some (.broken (Diagnostic.ofFault fault))⟩ := by
  simp only [run, h]

theorem run_of_read (h : (readHeader o c.source).fault = none) :
    c.run o style path =
      ⟨path, (LineDifference.ofTexts c.expected
        (renderModule style (readHeader o c.source).declarations)).map
          fun d => .mismatch { d with line := d.line + c.expectedLine - 1 }⟩ := by
  simp only [run, h]
  split <;> rename_i hdifference <;> rw [hdifference] <;> rfl

theorem isVerdict_run (o : ReadOptions) (style : List ModuleOption) (path : Bytes)
    (c : GoldenCase) : IsVerdict o style path c (c.run o style path) := by
  cases hread : (readHeader o c.source).fault with
  | some fault =>
      rw [run_of_fault hread]
      exact {
        path_eq := rfl
        passes_iff := by simp [hread]
        broken := by
          intro fault' hfault
          rw [hread] at hfault
          cases hfault
          rfl
        mismatch := by
          intro hnone
          rw [hread] at hnone
          cases hnone }
  | none =>
      rw [run_of_read hread]
      exact {
        path_eq := rfl
        passes_iff := by simp [hread, LineDifference.ofTexts_eq_none_iff]
        broken := by
          intro fault hfault
          rw [hread] at hfault
          cases hfault
        mismatch := by
          intro _ hfailure
          obtain ⟨found, hfound⟩ :=
            Option.ne_none_iff_exists'.mp (mt (congrArg (Option.map _)) hfailure)
          obtain ⟨i, hline, hfirst⟩ := LineDifference.firstDifference_of_between hfound
          have hnumber : found.line + c.expectedLine - 1 = c.expectedLine + i := by
            rw [hline]
            omega
          refine ⟨_, i, congrArg (Option.map _) hfound, hnumber, hfirst, fun text hparse => ?_⟩
          rw [hnumber]
          exact expectedAt_of_parse hparse hfirst }

/-- Each test case has its result, in the order of the cases, and each result is right about its
case and says where the file of the case differs from what came out. -/
theorem runGoldenCases_verdicts (o : ReadOptions) (style : List ModuleOption)
    (cases : List (Bytes × GoldenCase)) :
    List.Forall₂ (fun file => IsVerdict o style file.1 file.2) cases
      (runGoldenCases o style cases) := by
  induction cases with
  | nil => exact .nil
  | cons file others ih => exact .cons (isVerdict_run o style file.1 file.2) ih

end GoldenCase

end HeaderBinding
