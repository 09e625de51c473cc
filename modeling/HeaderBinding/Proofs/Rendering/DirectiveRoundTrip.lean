import HeaderBinding.Proofs.Reading.LayoutIndependence
import HeaderBinding.Proofs.Rendering.DirectiveComments

/-!
# The comment of a directive is a directive

Comments start with the mark of directives, and what the comment of a directive says is the word and
what belongs to it. Reading the comment therefore gives back what was written, whatever stood around
the directive that was read first: a name may hold blanks, line breaks, malformed bytes and the
delimiters of the other sort of include, but never the delimiter that ends it.
-/

namespace HeaderBinding

namespace Directive

variable {t : Bytes} {d : Declaration}

theorem Declares.isDirective (h : Declares t (some d)) : d.isDirective = true := by
  cases h <;> rfl

/-- What a directive declares is declared again by its comment. -/
theorem Declares.remark (h : Declares t (some d)) :
    Declares (ascii "# " ++ d.remark) (some d) := by
  have hblank : Gap [0x20] := by
    intro b hb
    rw [List.mem_singleton.mp hb]
    decide
  cases h with
  | @inclusion kind _ _ name _ _ _ hne hname =>
      have hform : ascii "# " ++ (Declaration.inclusion ⟨name, kind⟩).remark =
          0x23 :: ([0x20] ++ (ascii "include" ++
            ([0x20] ++ kind.opening :: (name ++ kind.closing :: [])))) := by
        simp [Declaration.remark, ascii]
      rw [hform]
      exact .inclusion hblank hblank hne hname
  | @macroName kind _ _ name _ _ _ _ hname _ =>
      have hform : ascii "# " ++ (Declaration.macroName ⟨name, kind⟩).remark =
          0x23 :: ([0x20] ++ (kind.directive ++ ([0x20] ++ (name ++ [])))) := by
        simp [Declaration.remark, ascii]
      rw [hform]
      exact .macroName hblank hblank (by simp) hname (by simp [Boundary])

theorem not_blank_of_isWord {b : UInt8} (h : isWord b = true) : Blank.isByte b = false := by
  have hblanks : ∀ e ∈ Blank.encodings, e.any isWord = false := by decide
  rw [Bool.eq_false_iff]
  intro hblank
  have hmem : [b] ∈ Blank.encodings := by simpa [Blank.isByte] using hblank
  have hword := hblanks [b] hmem
  rw [List.any_cons, h] at hword
  cases hword

/-- The comment starts with its mark and ends with a delimiter or a word byte. -/
theorem Declares.bounded (h : Declares t (some d)) : Bytes.Bounded (ascii "# " ++ d.remark) where
  ne_nil := by simp [ascii]
  head := by
    rintro b ⟨⟩
    decide
  last := by
    cases h with
    | @inclusion kind _ _ name =>
        have hlast : (ascii "# " ++ (Declaration.inclusion ⟨name, kind⟩).remark).getLast? =
            some kind.closing := by
          simp [Declaration.remark, List.getLast?_append, List.getLast?_cons]
        rw [hlast]
        rintro b ⟨⟩
        cases kind <;> decide
    | @macroName kind _ _ name _ _ _ _ hname =>
        obtain ⟨hne, hwords⟩ := isWord_of_isIdentifier hname
        rw [Declaration.remark, ← List.append_assoc, List.getLast?_append_of_ne_nil _ hne]
        intro b hb
        have hword := hwords b (List.mem_of_getLast? hb)
        exact ⟨ascii_of_isWord hword, not_blank_of_isWord hword⟩

/-- Of the comment at any depth, only the indentation is cut off. -/
theorem Declares.trim_render (h : Declares t (some d)) (depth : Int) :
    Bytes.trim (d.render .cython depth) = ascii "# " ++ d.remark := by
  have hindent : ∀ b ∈ Format.cython.indentation depth, b ∈ lineBlanks := by
    intro b hb
    rw [Format.indentation, Bytes.repeated_eq_flatten] at hb
    obtain ⟨unit, hunit, hb⟩ := List.mem_flatten.mp hb
    have hspaces : Format.cython.indent = List.replicate 4 0x20 := by decide
    rw [List.eq_of_mem_replicate hunit, hspaces] at hb
    rw [List.eq_of_mem_replicate hb]
    decide
  have htrim : Bytes.trim (Format.cython.indentation depth ++ (ascii "# " ++ d.remark ++ [])) =
      ascii "# " ++ d.remark :=
    trim_append_bounded hindent h.bounded (List.forall_mem_nil _)
  rw [List.append_nil] at htrim
  rw [Declaration.render_of_isDirective h.isDirective]
  exact htrim

/-- What a statement declares, written as a comment at a depth. -/
def normalise? (depth : Int) (s : Bytes) : Option Bytes :=
  match parseStatement s with
  | .ok (some d) => some (d.render .cython depth)
  | _ => none

theorem normalise?_of_parseStatement {s : Bytes} (h : parseStatement s = .ok (some d))
    (depth : Int) : normalise? depth s = some (d.render .cython depth) := by
  rw [normalise?, h]

end Directive

open Directive

/-- The comment of what was read is read as the same, at any depth. -/
theorem parseStatement_render_of_ok {s : Bytes} {d : Declaration}
    (h : parseStatement s = .ok (some d)) (depth : Int) :
    parseStatement (d.render .cython depth) = .ok (some d) := by
  have hdeclares := parseStatement_eq_ok_iff.mp h
  rw [parseStatement_eq_ok_iff, hdeclares.trim_render]
  exact hdeclares.remark

/-- A statement that declares something declares an include or a macro, and the comment that is
written for it, at any depth, is a statement that declares the same. So a statement that was
normalised at one depth is normalised at another as if it had not been before. -/
theorem parseStatement_render_parseStatement (s : Bytes) :
    (∀ d depth, parseStatement s = .ok (some d) →
      d.isDirective = true ∧ parseStatement (d.render .cython depth) = .ok (some d)) ∧
    ∀ depth depth', (normalise? depth s).bind (normalise? depth') = normalise? depth' s := by
  constructor
  · intro d depth h
    exact ⟨(parseStatement_eq_ok_iff.mp h).isDirective, parseStatement_render_of_ok h depth⟩
  · intro depth depth'
    unfold normalise?
    split
    · rename_i d h
      exact normalise?_of_parseStatement (parseStatement_render_of_ok h depth) depth'
    · rfl

/-- The name of an include in angle brackets holds quotes, a line break and a malformed byte; what
follows it is dropped. -/
theorem parseStatement_render_parseStatement_quotes :
    let s := ascii "\t#\n include<\"a\"\n" ++ 0xFF :: ascii "> \"b\""
    let d := Declaration.inclusion ⟨ascii "\"a\"\n" ++ [0xFF], .standard⟩
    parseStatement s = .ok (some d) ∧
      d.render .cython 1 = ascii "    # include <\"a\"\n" ++ 0xFF :: ascii ">" ∧
      parseStatement (d.render .cython 1) = .ok (some d) := by
  intro s d
  have hs : parseStatement s = .ok (some d) := by decide +kernel
  exact ⟨hs, by decide, ((parseStatement_render_parseStatement s).1 d 1 hs).2⟩

end HeaderBinding
