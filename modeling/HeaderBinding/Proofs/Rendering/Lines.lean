import HeaderBinding.BindingModule
import HeaderBinding.Proofs.FileSystem.Path
import HeaderBinding.Text.Lines
import Mathlib.Data.List.Basic

/-!
# The lines of a module

A module is written in parts, each ended by a line feed. Cutting its text into lines gives the lines
of the parts one after another, so what is known of the lines of a declaration is known of the lines
of every module that holds it.
-/

namespace HeaderBinding

namespace Bytes

variable {separator : UInt8}

/-- A text is cut at a separator whatever stands before and behind it. -/
theorem split_append (separator : UInt8) (s t : Bytes) :
    split separator (s ++ separator :: t) = split separator s ++ split separator t := by
  induction s with
  | nil => rw [List.nil_append, split_cons, if_pos rfl, show split separator [] = [[]] from rfl,
      List.singleton_append]
  | cons b s ih =>
      rw [List.cons_append, split_cons, split_cons, ih]
      split
      · rfl
      · cases hs : split separator s with
        | nil => exact absurd hs (split_ne_nil separator s)
        | cons piece others => rfl

/-- The bytes before the first separator go into the first piece. -/
theorem exists_split_append {front : Bytes} (h : separator ∉ front) (s : Bytes) :
    ∃ piece others, split separator s = piece :: others ∧
      split separator (front ++ s) = (front ++ piece) :: others := by
  induction front with
  | nil =>
      obtain ⟨piece, others, hs⟩ := List.exists_cons_of_ne_nil (split_ne_nil separator s)
      exact ⟨piece, others, hs, hs⟩
  | cons b front ih =>
      obtain ⟨hb, hfront⟩ := not_or.mp (mt List.mem_cons.mpr h)
      obtain ⟨piece, others, hs, hsplit⟩ := ih hfront
      refine ⟨piece, others, hs, ?_⟩
      rw [List.cons_append, split_cons, if_neg (Ne.symm hb), hsplit]
      rfl

/-- Joined texts are cut where they were joined and within themselves. -/
theorem split_join_cons (separator : UInt8) (first : Bytes) (others : List Bytes) :
    split separator (join [separator] (first :: others)) =
      (first :: others).flatMap (split separator) := by
  induction others generalizing first with
  | nil => simp [join, List.intercalate]
  | cons second others ih => rw [join_cons_cons, split_append, ih, ← List.flatMap_cons]

/-- The pieces of a text hold only bytes of it. -/
theorem mem_of_mem_split {s piece : Bytes} {b : UInt8} (h : piece ∈ split separator s)
    (hb : b ∈ piece) : b ∈ s := by
  induction s generalizing piece with
  | nil =>
      rw [show piece = [] by simpa [split] using h] at hb
      cases hb
  | cons a s ih =>
      rw [split_cons] at h
      split at h
      · rcases List.mem_cons.mp h with rfl | h
        · cases hb
        · exact List.mem_cons_of_mem a (ih h hb)
      · cases hs : split separator s with
        | nil => exact absurd hs (split_ne_nil separator s)
        | cons first others =>
            rw [hs] at h ih
            rcases List.mem_cons.mp h with rfl | h
            · rcases List.mem_cons.mp hb with rfl | hb
              · exact List.mem_cons_self
              · exact List.mem_cons_of_mem a (ih List.mem_cons_self hb)
            · exact List.mem_cons_of_mem a (ih (List.mem_cons_of_mem first h) hb)

end Bytes

namespace Lines

/-- The text of lines, each ended by a line feed. -/
def text (lines : List Bytes) : Bytes :=
  lines.flatMap (· ++ [lineFeed])

theorem text_append (lines others : List Bytes) :
    text (lines ++ others) = text lines ++ text others :=
  List.flatMap_append

theorem text_cons (line : Bytes) (lines : List Bytes) :
    text (line :: lines) = line ++ lineFeed :: text lines := by
  simp [text]

/-- What follows such a text starts a line. -/
theorem getLast?_text (lines : List Bytes) : ∀ b ∈ (text lines).getLast?, b = lineFeed := by
  induction lines using List.reverseRecOn with
  | nil => nofun
  | append_singleton lines line _ =>
      intro b hb
      have hend : text (lines ++ [line]) = (text lines ++ line) ++ [lineFeed] := by simp [text]
      rw [hend, List.getLast?_concat] at hb
      cases hb
      rfl

theorem raw_append (s t : Bytes) : raw (s ++ lineFeed :: t) = s.split lineFeed ++ raw t := by
  have hne := Bytes.split_ne_nil lineFeed t
  rw [raw, Bytes.split_append, List.getLast?_append_of_ne_nil _ hne,
    List.dropLast_append_of_ne_nil hne, raw]
  split <;> rfl

/-- Parts that are written as lines come out as their own lines. -/
theorem raw_text (parts : List Bytes) :
    raw (text parts) = parts.flatMap (Bytes.split lineFeed) := by
  induction parts with
  | nil => rfl
  | cons part parts ih => rw [text_cons, raw_append, ih, List.flatMap_cons]

end Lines

theorem Format.notMem_indentation {f : Format} {b : UInt8} (h : b ∉ f.indent) (depth : Int) :
    b ∉ f.indentation depth := by
  rw [Format.indentation, Bytes.repeated_eq_flatten]
  intro hmem
  obtain ⟨unit, hunit, hb⟩ := List.mem_flatten.mp hmem
  rw [List.eq_of_mem_replicate hunit] at hb
  exact h hb

@[simp] theorem Format.indentation_zero (f : Format) : f.indentation 0 = [] := by
  simp [Format.indentation, Bytes.repeated_eq_flatten]

theorem Argument.render_eq (f : Format) (depth : Int) (a : Argument) :
    a.render f depth = f.indentation depth ++ a.render f 0 := by
  simp [Argument.render]

theorem Prototype.render_eq (f : Format) (depth : Int) (p : Prototype) :
    p.render f depth = f.indentation depth ++ p.render f 0 := by
  simp [Prototype.render]

namespace ModuleStyle

/-- Declarations stand one level deep inside a block. -/
def depth (style : ModuleStyle) : Int := if style.externFrom.isEmpty then 0 else 1

/-- The declarations that are written. -/
def kept (style : ModuleStyle) (declarations : List Declaration) : List Declaration :=
  declarations.filter fun d => !(style.omitDirectives && d.isDirective)

/-- The line that opens the block for a header. -/
def heading (style : ModuleStyle) : Bytes :=
  ascii "cdef extern from \"" ++ style.externFrom ++ ascii "\":"

/-- The lines before the declarations. -/
def preamble (style : ModuleStyle) : List Bytes :=
  style.bannerLines ++ if style.externFrom.isEmpty then [] else [style.heading]

theorem entries_eq (style : ModuleStyle) (declarations : List Declaration) :
    style.entries declarations =
      (style.kept declarations).map (·.render style.format style.depth) :=
  rfl

theorem render_eq (style : ModuleStyle) (declarations : List Declaration) :
    style.render declarations =
      Lines.text (style.bannerLines ++ style.body (style.entries declarations)) :=
  rfl

theorem render_of_entries_ne_nil {style : ModuleStyle} {declarations : List Declaration}
    (h : style.entries declarations ≠ []) :
    style.render declarations = Lines.text (style.preamble ++ style.entries declarations) := by
  rw [render_eq, preamble, List.append_assoc, body]
  split
  · rfl
  · simp [h, heading]

/-- No option changes the mark of comments. -/
theorem comment_ofOptions (options : List ModuleOption) :
    (ofOptions options).format.comment = ascii "#" := by
  have happly (style : ModuleStyle) (option : ModuleOption) :
      (style.apply option).format.comment = style.format.comment := by
    cases option <;> rfl
  have hfold (style : ModuleStyle) :
      (options.foldl apply style).format.comment = style.format.comment := by
    induction options generalizing style with
    | nil => rfl
    | cons option options ih => rw [List.foldl_cons, ih, happly]
  rw [ofOptions, settled]
  split
  · exact hfold default
  · exact hfold default

end ModuleStyle

end HeaderBinding
