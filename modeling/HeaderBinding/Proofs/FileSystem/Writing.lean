import HeaderBinding.Proofs.FileSystem.Growth

/-!
# Writing files

A file is written to the place that its path leads to, over the links on the way. As file systems
grow, the place stays the same, and what was written to it is read from the path.
-/

namespace HeaderBinding

namespace FileSystem

variable {fs g : FileSystem} {path : Bytes} {location : Location}

/-! ## Places to write to -/

/-- A file is at a place, or it can be made there. -/
def TakesFile (fs : FileSystem) (location : Location) : Prop :=
  fs.node? location = none ∨ ∃ content modified, fs.node? location = some (.file content modified)

theorem Grows.takesFile (h : fs.Grows g) (hplace : g.TakesFile location) :
    fs.TakesFile location := by
  cases hnode : fs.node? location with
  | none => exact .inl hnode
  | some node =>
      obtain ⟨node', hnode', hsort⟩ := h.node? hnode
      obtain hfree | ⟨content, modified, hfile⟩ := hplace
      · cases hfree.symm.trans hnode'
      · cases hfile.symm.trans hnode'
        cases hsort <;> exact .inr ⟨_, _, hnode⟩

theorem TakesFile.grows_put {content : Bytes} {modified : Int} (h : fs.TakesFile location)
    (hne : location ≠ []) : fs.Grows (fs.put location (.file content modified)) := by
  refine FileSystem.grows_put hne fun old hold => ?_
  obtain hfree | ⟨_, _, hfile⟩ := h
  · cases hfree.symm.trans hold
  · cases hfile.symm.trans hold
    exact .file

/-- The place to write to is not the root and takes a file, and once there is one the path leads to it.
By induction on the steps along the components. -/
theorem target_spec {links : Nat} {here : Location} {cs : List Bytes}
    (h : fs.target links here cs = .ok location) :
    location ≠ [] ∧ fs.TakesFile location ∧
      ∀ g content modified, fs.Grows g → g.node? location = some (.file content modified) →
        g.walk .follow links here cs = .ok location := by
  fun_induction FileSystem.target fs links here cs with
  | case1 | case2 | case5 | case6 | case8 | case9 | case13 => cases h
  | case3 links here c cs hhere hskip ih =>
      obtain ⟨hne, hplace, hwalk⟩ := ih h
      refine ⟨hne, hplace, fun g content modified hgrows hfile => ?_⟩
      rw [walk_cons, hgrows.turn (turn_of_skip (by simpa using hhere) hskip)]
      exact hwalk g content modified hgrows hfile
  | case4 links here cs hhere hskip ih =>
      obtain ⟨hne, hplace, hwalk⟩ := ih h
      refine ⟨hne, hplace, fun g content modified hgrows hfile => ?_⟩
      rw [walk_cons, hgrows.turn (turn_of_parent (by simpa using hhere))]
      exact hwalk g content modified hgrows hfile
  | case7 links here c cs hhere hskip hparent hslash hlong hnode hend =>
      cases h
      refine ⟨by simp, .inl hnode, fun g content modified hgrows hfile => ?_⟩
      rw [List.isEmpty_iff.mp hend, walk_cons,
        turn_of_name (hgrows.isDirectory (by simpa using hhere)) (by tauto) hlong, hfile]
      exact walk_nil
  | case12 links here c cs hhere hskip hparent hslash hlong content modified hnode hend =>
      cases h
      refine ⟨by simp, .inr ⟨_, _, hnode⟩, fun g content modified hgrows hfile => ?_⟩
      rw [List.isEmpty_iff.mp hend, walk_cons,
        turn_of_name (hgrows.isDirectory (by simpa using hhere)) (by tauto) hlong, hfile]
      exact walk_nil
  | case10 here c cs hhere hskip hparent hslash hlong path hnode links ih =>
      obtain ⟨hne, hplace, hwalk⟩ := ih h
      refine ⟨hne, hplace, fun g content modified hgrows hfile => ?_⟩
      rw [walk_cons, turn_of_name (hgrows.isDirectory (by simpa using hhere)) (by tauto) hlong,
        hgrows.link hnode]
      simpa using hwalk g content modified hgrows hfile
  | case11 links here c cs hhere hskip hparent hslash hlong hnode ih =>
      obtain ⟨hne, hplace, hwalk⟩ := ih h
      refine ⟨hne, hplace, fun g content modified hgrows hfile => ?_⟩
      rw [walk_cons, turn_of_name (hgrows.isDirectory (by simpa using hhere)) (by tauto) hlong,
        hgrows.directory hnode]
      exact hwalk g content modified hgrows hfile

/-- Writing goes to the same place where more is there, if that place still takes a file. -/
theorem Grows.target (h : fs.Grows g) {links : Nat} {here : Location} {cs : List Bytes}
    (htarget : fs.target links here cs = .ok location) (hplace : g.TakesFile location) :
    g.target links here cs = .ok location := by
  fun_induction FileSystem.target fs links here cs with
  | case1 | case2 | case5 | case6 | case8 | case9 | case13 => cases htarget
  | case3 links here c cs hhere hskip ih =>
      rw [FileSystem.target, if_neg (by simpa using h.isDirectory (by simpa using hhere)),
        if_pos hskip]
      exact ih htarget
  | case4 links here cs hhere hskip ih =>
      rw [FileSystem.target, if_neg (by simpa using h.isDirectory (by simpa using hhere)),
        if_neg hskip, if_pos rfl]
      exact ih htarget
  | case7 links here c cs hhere hskip hparent hslash hlong hnode hend =>
      cases htarget
      rw [FileSystem.target, if_neg (by simpa using h.isDirectory (by simpa using hhere)),
        if_neg hskip, if_neg hparent, if_neg hslash, if_neg hlong]
      obtain hfree | ⟨_, _, hfile⟩ := hplace
      · simp [hfree, hend]
      · simp [hfile, hend]
  | case12 links here c cs hhere hskip hparent hslash hlong content modified hnode hend =>
      cases htarget
      obtain ⟨_, hfile, hsort⟩ := h.node? hnode
      rw [FileSystem.target, if_neg (by simpa using h.isDirectory (by simpa using hhere)),
        if_neg hskip, if_neg hparent, if_neg hslash, if_neg hlong, hfile]
      cases hsort <;> simp [hend]
  | case10 here c cs hhere hskip hparent hslash hlong path hnode links ih =>
      rw [FileSystem.target, if_neg (by simpa using h.isDirectory (by simpa using hhere)),
        if_neg hskip, if_neg hparent, if_neg hslash, if_neg hlong, h.link hnode]
      simpa using ih htarget
  | case11 links here c cs hhere hskip hparent hslash hlong hnode ih =>
      rw [FileSystem.target, if_neg (by simpa using h.isDirectory (by simpa using hhere)),
        if_neg hskip, if_neg hparent, if_neg hslash, if_neg hlong, h.directory hnode]
      exact ih htarget

theorem writePlace_eq_ok_iff : fs.writePlace path = .ok location ↔
    refused? path = none ∧
      fs.target linkLimit (fs.origin path) (Path.components path) = .ok location := by
  unfold FileSystem.writePlace
  cases refused? path <;> simp

theorem Grows.writePlace (h : fs.Grows g) (hwrite : fs.writePlace path = .ok location)
    (hplace : g.TakesFile location) : g.writePlace path = .ok location := by
  rw [writePlace_eq_ok_iff] at hwrite ⊢
  exact ⟨hwrite.1, by rw [h.origin]; exact h.target hwrite.2 hplace⟩

theorem ne_nil_of_writePlace (h : fs.writePlace path = .ok location) : location ≠ [] :=
  (target_spec (writePlace_eq_ok_iff.mp h).2).1

theorem takesFile_of_writePlace (h : fs.writePlace path = .ok location) : fs.TakesFile location :=
  (target_spec (writePlace_eq_ok_iff.mp h).2).2.1

/-- A path that was written to leads to the place from then on. -/
theorem find_of_writePlace {content : Bytes} {modified : Int}
    (hwrite : fs.writePlace path = .ok location) (h : fs.Grows g)
    (hfile : g.node? location = some (.file content modified)) :
    g.find path = .ok (location, .file content modified) := by
  obtain ⟨hrefused, htarget⟩ := writePlace_eq_ok_iff.mp hwrite
  have hwalk := (target_spec htarget).2.2 g content modified h hfile
  have hlocate : g.locate .follow path = .ok location :=
    locate_eq_ok_iff.mpr ⟨hrefused, by rw [h.origin]; exact hwalk⟩
  exact find_eq_ok_iff.mpr ⟨hlocate, hfile⟩

theorem read_of_find {content : Bytes} {modified : Int}
    (h : fs.find path = .ok (location, .file content modified)) : fs.read path = .ok content := by
  rw [FileSystem.read, h]

end FileSystem

end HeaderBinding
