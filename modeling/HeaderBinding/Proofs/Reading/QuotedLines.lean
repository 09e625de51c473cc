import HeaderBinding.Diagnostic
import HeaderBinding.Proofs.FileSystem.Evaluation
import HeaderBinding.Proofs.Reading.DataModel
import HeaderBinding.Proofs.Reading.FaultOrder
import HeaderBinding.Proofs.Rendering.Lines
import HeaderBinding.Proofs.Token.Rows
import Mathlib.Data.List.DropRight

/-!
# The line that a fault quotes

A diagnostic quotes a line by its number, and a fault knows the place of a token. Where the rows of
tokens count lines, the quoted line is the one that the token starts on.
-/

namespace HeaderBinding

/-! ## The line around a byte -/

namespace Bytes

theorem length_split (separator : UInt8) (s : Bytes) :
    (split separator s).length = s.count separator + 1 := by
  induction s with
  | nil => rfl
  | cons b s ih =>
      rw [split_cons]
      split
      · rename_i hb
        rw [List.length_cons, ih, hb, List.count_cons_self]
      · rename_i hb
        rw [List.count_cons_of_ne hb, ← ih]
        cases hs : split separator s with
        | nil => exact absurd hs (split_ne_nil separator s)
        | cons piece others => rfl

theorem head?_split (separator : UInt8) (s : Bytes) :
    (split separator s).head? = some (s.takeWhile (· != separator)) := by
  induction s with
  | nil => rfl
  | cons b s ih =>
      rw [split_cons]
      split
      · rename_i hb
        simp [hb]
      · rename_i hb
        cases hs : split separator s with
        | nil => exact absurd hs (split_ne_nil separator s)
        | cons piece others =>
            rw [hs] at ih
            simpa [hb] using ih

/-- The separators before a byte number the piece it is in. -/
theorem getElem?_split_append (separator : UInt8) (front back : Bytes) :
    (split separator (front ++ back))[front.count separator]? =
      some (front.rtakeWhile (· != separator) ++ back.takeWhile (· != separator)) := by
  induction front using List.reverseRecOn generalizing back with
  | nil =>
      rw [List.nil_append, List.count_nil, ← List.head?_eq_getElem?, head?_split,
        List.rtakeWhile_nil, List.nil_append]
  | append_singleton front b ih =>
      rw [List.append_assoc, List.singleton_append, List.count_append]
      by_cases hb : b = separator
      · subst hb
        rw [split_append, List.rtakeWhile_concat_neg _ _ _ (by simp), List.nil_append,
          List.count_singleton_self, ← length_split, List.getElem?_append_right (Nat.le_refl _),
          Nat.sub_self, ← List.head?_eq_getElem?, head?_split]
      · rw [List.rtakeWhile_concat_pos _ _ _ (by simpa using hb), List.append_assoc,
          List.count_singleton, if_neg (by simpa using hb), Nat.add_zero, ih,
          List.takeWhile_cons_of_pos (by simpa using hb), List.singleton_append]

end Bytes

namespace Lines

/-- The line of the byte at an offset: back to the line feed before it, and on to the next one. A
line feed belongs to the line it ends. -/
def around (s : Bytes) (offset : Nat) : Bytes :=
  (s.take offset).rtakeWhile (· != lineFeed) ++ (s.drop offset).takeWhile (· != lineFeed)

/-- The end of a text is as good as an empty line. -/
theorem getD_raw (s : Bytes) (n : Nat) : (raw s)[n]?.getD [] = (s.split lineFeed)[n]?.getD [] := by
  rw [raw]
  split
  · rename_i hlast
    obtain ⟨pieces, hpieces⟩ := List.getLast?_eq_some_iff.mp hlast
    rw [hpieces, List.dropLast_concat, List.getElem?_append]
    split
    · rfl
    · rename_i hn
      rw [List.getElem?_eq_none (Nat.le_of_not_lt hn)]
      cases n - pieces.length <;> rfl
  · rfl

theorem held_raw {s : Bytes} (h : ∀ line ∈ s.split lineFeed, line.length ≤ limit) :
    held (raw s) = raw s := by
  refine List.takeWhile_eq_self_iff.mpr fun line hline => ?_
  have hmem : line ∈ s.split lineFeed := by
    rw [raw] at hline
    split at hline
    · exact List.mem_of_mem_dropLast hline
    · exact hline
  simpa using h line hmem

/-- The line that is found behind as many others as there are line feeds before a byte is the line
of the byte. -/
theorem get?_around {s : Bytes} (h : ∀ line ∈ s.split lineFeed, line.length ≤ limit)
    (offset : Nat) :
    (get? s ((s.take offset).count lineFeed)).getD [] = dropReturn (around s offset) := by
  have hline := Bytes.getElem?_split_append lineFeed (s.take offset) (s.drop offset)
  rw [List.take_append_drop] at hline
  calc (get? s ((s.take offset).count lineFeed)).getD []
    _ = ((raw s)[(s.take offset).count lineFeed]?.map dropReturn).getD (dropReturn []) := by
        rw [get?_eq_getElem?, ofText, held_raw h, List.getElem?_map]
        rfl
    _ = dropReturn (around s offset) := by
        rw [Option.getD_map, getD_raw, hline]
        rfl

end Lines

/-! ## Faults of a session -/

namespace Session

/-- What a run reports is known before it or is at a token that was left to read. -/
theorem run_fault_position {o : ReadOptions} {source : Bytes} {s : Session}
    (hrest : s.rest <:+ tokenize source) {fault : Fault}
    (h : fault ∈ (s.run o).1.diagnostics.toList ++ (s.run o).2.toList) :
    fault ∈ s.diagnostics.toList ∨ ∃ t ∈ tokenize source, fault.position = t.position := by
  have hlocated : Located o (tokenize source) (s.attempts o) :=
    (attempts_located o s).mono (s.ahead_suffix.trans hrest)
  rw [(run_eq_attempts s).2] at h
  rcases List.mem_append.mp h with hbefore | hfound
  · exact .inl hbefore
  · obtain ⟨a, ha, hfault⟩ := List.mem_filterMap.mp hfound
    obtain ⟨t, ht, hposition, -⟩ :=
      hlocated.fault_position (pairwise_offset_tokenize source) a ha fault hfault
    exact .inr ⟨t, ht, hposition⟩

/-- In every run, each fault is at a token of the source. -/
theorem afterRuns_fault_position {o : ReadOptions} {source : Bytes} {n : Nat} {fault : Fault}
    (h : fault ∈ ((afterRuns o source n).run o).1.diagnostics.toList ++
      ((afterRuns o source n).run o).2.toList) :
    ∃ t ∈ tokenize source, fault.position = t.position := by
  have hnoted : ∀ fault ∈ (afterRuns o source n).diagnostics.toList,
      ∃ t ∈ tokenize source, fault.position = t.position := by
    clear h
    induction n with
    | zero => exact List.forall_mem_nil _
    | succ n ih =>
        intro fault hfault
        rw [afterRuns_succ] at hfault
        rcases run_fault_position (afterRuns_rest_suffix o source n)
          (List.mem_append_left _ hfault) with hbefore | hfound
        · exact ih fault hbefore
        · exact hfound
  rcases run_fault_position (afterRuns_rest_suffix o source n) h with hbefore | hfound
  · exact hnoted fault hbefore
  · exact hfound

end Session

/-! ## Quoting -/

theorem Diagnostic.lineAt_eq {fs : FileSystem} {path content : Bytes}
    (hread : fs.read path = .ok content) (n : Nat) :
    Diagnostic.lineAt fs path (1 + n : Nat) = (Lines.get? content n).getD [] := by
  have hpath : path ≠ [] := by
    rintro rfl
    cases hread
  have hrow : ¬ (path.isEmpty = true ∨ ((1 + n : Nat) : Int) ≤ 0) := by
    simp only [List.isEmpty_iff, hpath, false_or]
    omega
  have hcount : ((1 + n : Nat) : Int).toNat - 1 = n := by omega
  rw [Diagnostic.lineAt, if_neg hrow, hread, hcount]

/-- A diagnostic with a file is written as without one, and below it the quoted line if that is not
empty. -/
theorem Diagnostic.text_path (fs : FileSystem) (d : Diagnostic) (path : Bytes) :
    let line := Diagnostic.lineAt fs path d.row
    ({ d with path := path } : Diagnostic).text fs =
      ({ d with path := [] } : Diagnostic).text fs ++
        if line.isEmpty then [] else lineFeed :: ascii "    " ++ line := by
  simp [Diagnostic.text, Diagnostic.lineAt]

/-- In a source whose comments are closed and whose lines can be held, the row of a fault is the
number of its line, and with the file of the source the text of the fault quotes that line without a
carriage return at its end. -/
theorem fault_quotes_its_line (o : ReadOptions) (source : Bytes) (n : Nat)
    (hclosed : CommentsClosed (tokenize source))
    (hlines : ∀ line ∈ source.split lineFeed, line.length < 64 * 1024) :
    let run := (Session.afterRuns o source n).run o
    ∀ fault ∈ run.1.diagnostics.toList ++ run.2.toList,
      let d := Diagnostic.ofFault fault
      let line := Lines.dropReturn (Lines.around source fault.position.offset)
      fault.position.offset < source.length ∧
        fault.position.row = 1 + (source.take fault.position.offset).count lineFeed ∧
        ∀ fs path name, fs.read path = .ok source →
          (d.setSource path name).text fs = (d.setSource [] name).text fs ++
            if line.isEmpty then [] else lineFeed :: ascii "    " ++ line := by
  intro run fault hfault d line
  obtain ⟨t, ht, hposition⟩ := Session.afterRuns_fault_position hfault
  have hrow := row_tokenize hclosed ht
  rw [← hposition] at hrow
  refine ⟨?_, hrow, ?_⟩
  · obtain ⟨_, _, -, -, hbehind⟩ := exists_split_at_offset ht
    have htext := (Lexer.emits_tokenize source).text_ne_nil t ht
    rw [hposition]
    by_contra hle
    rw [List.drop_eq_nil_of_le (Nat.le_of_not_lt hle)] at hbehind
    exact htext (List.append_eq_nil_iff.mp hbehind.symm).1
  · intro fs path name hread
    have hline : Diagnostic.lineAt fs path d.row = line := by
      have hnumber : d.row = (1 + (source.take fault.position.offset).count lineFeed : Nat) :=
        congrArg Int.ofNat hrow
      rw [hnumber, Diagnostic.lineAt_eq hread]
      refine Lines.get?_around (fun line hmem => ?_) fault.position.offset
      exact Nat.le_of_lt_succ (hlines line hmem)
    rw [← hline]
    exact Diagnostic.text_path fs (d.setSource [] name) path

/-- The line behind a comment of two lines, with a carriage return at its end. -/
theorem fault_quotes_its_line_third :
    let source := ascii "/* a\n*/\n  int x;\r\n"
    let fs : FileSystem := ⟨[([ascii "a"], .file source 1)], []⟩
    let fault : Fault := ⟨.scalarVariable, ascii "int x", ⟨10, 3, 3⟩⟩
    (readHeader .default source).fault = some fault ∧
      ((Diagnostic.ofFault fault).setSource (ascii "/a") []).text fs =
        ((Diagnostic.ofFault fault).setSource [] []).text fs ++ ascii "\n      int x;" := by
  intro source fs fault
  have hfault : (readHeader .default source).fault = some fault := by decide +kernel
  have hmem : fault ∈ ((Session.afterRuns .default source 0).run .default).1.diagnostics.toList ++
      ((Session.afterRuns .default source 0).run .default).2.toList :=
    List.mem_append_right _ (Option.mem_toList.mpr hfault)
  have hread : fs.read (ascii "/a") = .ok source := by
    rw [FileSystem.read, FileSystem.find_eq_overLinks]
    decide +kernel
  obtain ⟨-, -, hquoted⟩ := fault_quotes_its_line .default source 0 (by decide +kernel)
    (by decide +kernel) fault hmem
  exact ⟨hfault, hquoted fs (ascii "/a") [] hread⟩

end HeaderBinding
