import HeaderBinding.FileSystem.Path
import Mathlib.Data.List.Flatten
import Mathlib.Data.List.Induction

/-!
# Components of clean paths

An absolute path that is clean has plain components: no empty one, no `.` and no `..`. Splitting
such a path gives its components back, and cleaning does not change it.
-/

namespace HeaderBinding

namespace Bytes

variable {separator : UInt8} {s : Bytes}

theorem not_mem_of_mem_split {piece : Bytes} (h : piece ∈ split separator s) :
    separator ∉ piece := by
  induction s generalizing piece with
  | nil =>
      rw [show piece = [] by simpa [split] using h]
      exact List.not_mem_nil
  | cons b s ih =>
      rw [split_cons] at h
      split at h
      · rcases List.mem_cons.mp h with rfl | h
        · exact List.not_mem_nil
        · exact ih h
      · rename_i hb
        cases hs : split separator s with
        | nil => exact absurd hs (split_ne_nil separator s)
        | cons first others =>
            rw [hs] at h ih
            rcases List.mem_cons.mp h with rfl | h
            · intro hmem
              rcases List.mem_cons.mp hmem with rfl | hmem
              · exact hb rfl
              · exact ih List.mem_cons_self hmem
            · exact ih (List.mem_cons_of_mem first h)

theorem split_of_not_mem (h : separator ∉ s) : split separator s = [s] := by
  induction s with
  | nil => rfl
  | cons b s ih =>
      obtain ⟨hb, hs⟩ := not_or.mp (mt List.mem_cons.mpr h)
      rw [split_cons, if_neg (Ne.symm hb), ih hs]

theorem split_append_cons {first : Bytes} (h : separator ∉ first) :
    split separator (first ++ separator :: s) = first :: split separator s := by
  induction first with
  | nil => rw [List.nil_append, split_cons, if_pos rfl]
  | cons b first ih =>
      obtain ⟨hb, hfirst⟩ := not_or.mp (mt List.mem_cons.mpr h)
      rw [List.cons_append, split_cons, if_neg (Ne.symm hb), ih hfirst]

theorem join_cons_cons (first second : Bytes) (others : List Bytes) :
    join [separator] (first :: second :: others) =
      first ++ separator :: join [separator] (second :: others) := by
  simp [join, List.intercalate]

/-- Joined pieces are cut where they were joined. -/
theorem split_join {pieces : List Bytes} (hne : pieces ≠ [])
    (h : ∀ piece ∈ pieces, separator ∉ piece) :
    split separator (join [separator] pieces) = pieces := by
  induction pieces with
  | nil => exact absurd rfl hne
  | cons first others ih =>
      obtain ⟨hfirst, hothers⟩ := List.forall_mem_cons.mp h
      cases others with
      | nil =>
          rw [show join [separator] [first] = first by simp [join, List.intercalate]]
          exact split_of_not_mem hfirst
      | cons second others =>
          rw [join_cons_cons, split_append_cons hfirst, ih (List.cons_ne_nil _ _) hothers]

end Bytes

namespace Path

/-- A component that names something below a directory. -/
structure Plain (component : Bytes) : Prop where
  ne_nil : component ≠ []
  ne_dot : component ≠ ascii "."
  ne_parent : component ≠ ascii ".."
  no_slash : slash ∉ component

variable {l : List Bytes} {c : Bytes}

theorem not_slash_of_mem_components {path : Bytes} (h : c ∈ components path) : slash ∉ c :=
  Bytes.not_mem_of_mem_split h

theorem components_absolute (hne : l ≠ []) (h : ∀ c ∈ l, slash ∉ c) :
    components (absolute l) = [] :: l := by
  rw [components, absolute, Bytes.split_cons, if_pos rfl, Bytes.split_join hne h]

/-! ## Cleaning -/

theorem cleanStep_plain (rooted : Bool) (kept : List Bytes) (hne : c ≠ []) (hdot : c ≠ ascii ".")
    (hparent : c ≠ ascii "..") : cleanStep rooted kept c = c :: kept := by
  unfold cleanStep
  rw [if_neg (not_or.mpr ⟨hne, hdot⟩), if_neg hparent]

theorem cleanComponents_append_plain (hne : c ≠ []) (hdot : c ≠ ascii ".")
    (hparent : c ≠ ascii "..") :
    cleanComponents true (l ++ [c]) = cleanComponents true l ++ [c] := by
  rw [cleanComponents, List.foldl_append, List.foldl_cons, List.foldl_nil,
    cleanStep_plain _ _ hne hdot hparent, List.reverse_cons, cleanComponents]

/-- The components kept below the root, in reverse: none is empty, the place itself or a parent. -/
def Kept (kept : List Bytes) : Prop :=
  ∀ c ∈ kept, c ≠ [] ∧ c ≠ ascii "." ∧ c ≠ ascii ".."

/-- Below the root a parent takes the component before it away. -/
theorem cleanStep_parent {kept : List Bytes} (h : Kept kept) :
    cleanStep true kept (ascii "..") = kept.tail := by
  unfold cleanStep
  rw [if_neg (by decide), if_pos rfl]
  cases kept with
  | nil => rfl
  | cons last others =>
      have hlast := (h last List.mem_cons_self).2.2
      simp [hlast]

theorem Kept.cleanStep {kept : List Bytes} (h : Kept kept) : Kept (cleanStep true kept c) := by
  by_cases hskip : c = [] ∨ c = ascii "."
  · unfold Path.cleanStep
    rwa [if_pos hskip]
  · by_cases hparent : c = ascii ".."
    · rw [hparent, cleanStep_parent h]
      intro c hc
      exact h c (List.mem_of_mem_tail hc)
    · obtain ⟨hne, hdot⟩ := not_or.mp hskip
      rw [cleanStep_plain _ _ hne hdot hparent]
      exact List.forall_mem_cons.mpr ⟨⟨hne, hdot, hparent⟩, h⟩

theorem kept_foldl_cleanStep : Kept (l.foldl (Path.cleanStep true) []) := by
  induction l using List.reverseRecOn with
  | nil => exact fun c hc => absurd hc List.not_mem_nil
  | append_singleton l c ih =>
      rw [List.foldl_append]
      exact ih.cleanStep

theorem cleanComponents_append_parent :
    cleanComponents true (l ++ [ascii ".."]) = (cleanComponents true l).dropLast := by
  rw [cleanComponents, List.foldl_append, List.foldl_cons, List.foldl_nil,
    cleanStep_parent kept_foldl_cleanStep, cleanComponents, List.dropLast_reverse]

theorem cleanComponents_append_skip (h : c = [] ∨ c = ascii ".") :
    cleanComponents true (l ++ [c]) = cleanComponents true l := by
  rw [cleanComponents, List.foldl_append, List.foldl_cons, List.foldl_nil, cleanComponents]
  unfold cleanStep
  rw [if_pos h]

/-- Cleaning only leaves components out. -/
theorem cleanComponents_sublist : (cleanComponents true l).Sublist l := by
  induction l using List.reverseRecOn with
  | nil => exact List.Sublist.refl _
  | append_singleton l c ih =>
      by_cases hskip : c = [] ∨ c = ascii "."
      · rw [cleanComponents_append_skip hskip]
        exact ih.trans (List.sublist_append_left l [c])
      · by_cases hparent : c = ascii ".."
        · rw [hparent, cleanComponents_append_parent]
          exact (List.dropLast_sublist _).trans (ih.trans (List.sublist_append_left l _))
        · obtain ⟨hne, hdot⟩ := not_or.mp hskip
          rw [cleanComponents_append_plain hne hdot hparent]
          exact ih.append (List.Sublist.refl [c])

theorem cleanComponents_of_kept (h : Kept l) : cleanComponents true l = l := by
  induction l using List.reverseRecOn with
  | nil => rfl
  | append_singleton l c ih =>
      obtain ⟨hne, hdot, hparent⟩ := h c (by simp)
      rw [cleanComponents_append_plain hne hdot hparent]
      rw [ih fun c hc => h c (List.mem_append_left _ hc)]

theorem kept_cleanComponents : Kept (cleanComponents true l) :=
  fun c hc => kept_foldl_cleanStep c (List.mem_reverse.mp hc)

theorem kept_of_plain (h : ∀ c ∈ l, Plain c) : Kept l :=
  fun c hc => ⟨(h c hc).ne_nil, (h c hc).ne_dot, (h c hc).ne_parent⟩

/-! ## Absolute paths -/

theorem absolute_eq_flatMap (hne : l ≠ []) : absolute l = l.flatMap (slash :: ·) := by
  induction l with
  | nil => exact absurd rfl hne
  | cons first others ih =>
      cases others with
      | nil => simp [absolute, Bytes.join, List.intercalate]
      | cons second others =>
          rw [absolute, Bytes.join_cons_cons, List.flatMap_cons, ← ih (List.cons_ne_nil _ _),
            absolute, List.cons_append]

/-- Fewer components make a shorter path with no new bytes. -/
theorem absolute_sublist {l' : List Bytes} (h : l'.Sublist l) :
    (absolute l').Sublist (absolute l) := by
  by_cases hne : l' = []
  · subst hne
    exact (List.nil_sublist _).cons_cons slash
  · have hne' : l ≠ [] := by
      rintro rfl
      exact hne (List.sublist_nil.mp h)
    rw [absolute_eq_flatMap hne, absolute_eq_flatMap hne']
    exact h.flatMap _

/-- The components of a clean absolute path are plain, and cleaning gives them back. -/
theorem cleanComponents_components_absolute (h : ∀ c ∈ l, Plain c) :
    cleanComponents true (components (absolute l)) = l := by
  cases l with
  | nil => decide
  | cons first others =>
      rw [components_absolute (List.cons_ne_nil _ _) fun c hc => (h c hc).no_slash]
      exact cleanComponents_of_kept (kept_of_plain h)

theorem clean_absolute (h : ∀ c ∈ l, Plain c) : clean (absolute l) = absolute l := by
  rw [clean, if_pos (by rfl), cleanComponents_components_absolute h]

end Path

end HeaderBinding
