import HeaderBinding.Proofs.FileSystem.Canonical
import HeaderBinding.Proofs.FileSystem.Growth
import HeaderBinding.Proofs.Rendering.Lines
import Mathlib.Data.List.TakeWhile

/-!
# Making directories

What is made for a path in one file system is made for it in every file system that it has grown to,
as long as nothing else has come to stand where a directory is needed.
-/

namespace HeaderBinding

/-! ## The last name of a path -/

namespace Bytes

theorem exists_dropTrailing (b : UInt8) (s : Bytes) :
    ∃ k, s = s.dropTrailing b ++ List.replicate k b := by
  refine ⟨(s.reverse.takeWhile (· == b)).length, ?_⟩
  have htail : s.reverse.takeWhile (· == b) =
      List.replicate (s.reverse.takeWhile (· == b)).length b :=
    List.eq_replicate_of_mem fun a ha => by simpa using List.mem_takeWhile_imp ha
  have hsplit := congrArg List.reverse
    (List.takeWhile_append_dropWhile (p := (· == b)) (l := s.reverse))
  rw [List.reverse_append, List.reverse_reverse, htail, List.reverse_replicate] at hsplit
  exact hsplit.symm

theorem split_replicate (b : UInt8) (k : Nat) :
    split b (List.replicate k b) = List.replicate (k + 1) [] := by
  induction k with
  | zero => rfl
  | succ k ih => rw [List.replicate_succ, split_cons, if_pos rfl, ih, ← List.replicate_succ]

/-- Separators behind a piece add empty pieces. -/
theorem split_append_replicate {b : UInt8} {s : Bytes} (h : b ∉ s) (k : Nat) :
    split b (s ++ List.replicate k b) = s :: List.replicate k [] := by
  cases k with
  | zero => rw [List.replicate_zero, List.append_nil, split_of_not_mem h, List.replicate_zero]
  | succ k => rw [List.replicate_succ, split_append_cons h, split_replicate]

end Bytes

/-- A path is cut at its last slash. -/
theorem Path.exists_splitLast (path : Bytes) :
    path = (splitLast path).1 ++ (splitLast path).2 ∧ slash ∉ (splitLast path).2 ∧
      ((splitLast path).1 = [] ∨ ∃ front, (splitLast path).1 = front ++ [slash]) := by
  have hcut : path = (path.reverse.dropWhile (· != slash)).reverse ++
      (path.reverse.takeWhile (· != slash)).reverse := by
    rw [← List.reverse_append, List.takeWhile_append_dropWhile, List.reverse_reverse]
  have hfirst : (splitLast path).1 = (path.reverse.dropWhile (· != slash)).reverse := by
    have hlength := congrArg List.length hcut
    rw [List.length_append] at hlength
    calc (splitLast path).1
        = path.take (path.reverse.dropWhile (· != slash)).reverse.length := by
          unfold splitLast
          dsimp only
          congr 1
          omega
      _ = _ := (congrArg (List.take _) hcut).trans List.take_left
  refine ⟨?_, ?_, ?_⟩
  · rw [hfirst]
    exact hcut
  · intro h
    have h' := List.mem_takeWhile_imp (List.mem_reverse.mp h)
    simp at h'
  · rw [hfirst]
    cases hdrop : path.reverse.dropWhile (· != slash) with
    | nil => exact .inl rfl
    | cons b front =>
        have hb := List.head?_dropWhile_not (· != slash) path.reverse
        rw [hdrop] at hb
        simp only [List.head?_cons, bne_eq_false_iff_eq] at hb
        exact .inr ⟨front.reverse, by simp [hb]⟩

namespace FileSystem

variable {fs fs' g M : FileSystem} {path : Bytes} {location above : Location} {last : LastLink}

/-- The components of a path, of what stands before its last name, and of its parent. -/
theorem exists_components (path : Bytes) :
    ∃ (cs : List Bytes) (k : Nat),
      Path.components path = cs ++ (splitName path).2 :: List.replicate k [] ∧
      Path.components (splitName path).1 = cs ++ [[]] ∧
      ∀ parent, parentPath? path = some parent → Path.components parent = cs := by
  obtain ⟨k, hpath⟩ := Bytes.exists_dropTrailing Path.slash path
  obtain ⟨hcut, hname, hfront⟩ := Path.exists_splitLast (path.dropTrailing Path.slash)
  rw [← splitName] at hcut hname hfront
  have hrest := Bytes.split_append_replicate hname k
  rcases hfront with hnil | ⟨front, hfront⟩
  · refine ⟨[], k, ?_, by rw [hnil]; rfl, ?_⟩
    · rw [hnil, List.nil_append] at hcut
      rw [hcut] at hpath
      rw [← hrest, List.nil_append, ← hpath, Path.components]
    · intro parent hparent
      simp [parentPath?, hnil] at hparent
  · refine ⟨Path.components front, k, ?_, ?_, ?_⟩
    · rw [hfront, List.append_assoc, List.singleton_append] at hcut
      rw [hcut, List.append_assoc, List.cons_append] at hpath
      rw [← hrest, Path.components, Path.components, ← Bytes.split_append, ← hpath]
    · rw [hfront, Path.components, Bytes.split_append]
      rfl
    · intro parent hparent
      unfold parentPath? at hparent
      dsimp only at hparent
      split at hparent
      · cases hparent
      · cases hparent
        rw [hfront, List.dropLast_concat]

theorem exists_append_of_parentPath {parent : Bytes} (h : parentPath? path = some parent) :
    ∃ rest, path = parent ++ rest ∧ parent ≠ [] := by
  obtain ⟨k, hpath⟩ := Bytes.exists_dropTrailing Path.slash path
  obtain ⟨hcut, -, -⟩ := Path.exists_splitLast (path.dropTrailing Path.slash)
  rw [← splitName] at hcut
  unfold parentPath? at h
  dsimp only at h
  split at h
  · cases h
  · rename_i hlength
    cases h
    have hne : (splitName path).1 ≠ [] := by
      intro hnil
      simp [hnil] at hlength
    refine ⟨[(splitName path).1.getLast hne] ++ (splitName path).2 ++
      List.replicate k Path.slash, ?_, ?_⟩
    · rw [← List.append_assoc, ← List.append_assoc, List.dropLast_append_getLast hne]
      rwa [← hcut]
    · apply List.ne_nil_of_length_pos
      rw [List.length_dropLast]
      omega

/-! ## The place of a new node -/

/-- A name that a node of its own can have. -/
structure NodeName (name : Bytes) : Prop where
  proper : ¬(name = [] ∨ name = ascii "." ∨ name = ascii "..")
  short : ¬nameLimit < name.length

theorem holder_eq_ok_iff : fs.holder path = .ok above ↔
    refused? path = none ∧ fs.isDirectory above = true ∧
      fs.walk .follow linkLimit (fs.origin path) (Path.components (splitName path).1) =
        .ok above := by
  unfold FileSystem.holder
  cases refused? path with
  | some error => simp
  | none =>
      cases fs.walk .follow linkLimit (fs.origin path) (Path.components (splitName path).1) with
      | error error => simp
      | ok there =>
          dsimp only
          split
          · rename_i hdirectory
            simp only [Except.ok.injEq, true_and]
            exact ⟨fun h => h ▸ ⟨hdirectory, rfl⟩, fun h => h.2⟩
          · rename_i hdirectory
            simp only [reduceCtorEq, Except.ok.injEq, true_and, false_iff, not_and]
            rintro h rfl
            exact hdirectory h

theorem newPlace_eq_ok_iff : fs.newPlace path = .ok location ↔
    ∃ above, fs.holder path = .ok above ∧ NodeName (splitName path).2 ∧
      fs.node? (above ++ [(splitName path).2]) = none ∧
      above ++ [(splitName path).2] = location := by
  unfold FileSystem.newPlace
  cases fs.holder path with
  | error error => simp
  | ok above =>
      simp only [Except.ok.injEq, exists_eq_left']
      split_ifs with hproper hshort hfree
      · simp only [false_iff, not_and]
        exact fun h => absurd hproper h.proper
      · simp only [false_iff, not_and]
        exact fun h => absurd hshort h.short
      · simp only [false_iff, not_and]
        rintro - hnone
        simp [hnone] at hfree
      · simp only [Except.ok.injEq]
        exact ⟨fun h => ⟨⟨hproper, hshort⟩, by simpa using hfree, h⟩, fun h => h.2.2⟩

theorem Grows.holder (h : fs.Grows g) (hholder : fs.holder path = .ok above) :
    g.holder path = .ok above := by
  rw [holder_eq_ok_iff] at hholder ⊢
  obtain ⟨hrefused, hdirectory, hwalk⟩ := hholder
  exact ⟨hrefused, h.isDirectory hdirectory, by rw [h.origin]; exact h.walk hwalk⟩

/-- Slashes at the end of a path ask for a directory. -/
theorem walk_replicate_nil {links : Nat} {here : Location} (h : fs.isDirectory here = true)
    (k : Nat) : fs.walk last links here (List.replicate k []) = .ok here := by
  induction k with
  | zero => exact walk_nil
  | succ k ih =>
      rw [List.replicate_succ, walk_cons, turn_of_skip h (.inl rfl)]
      exact ih

/-- A slash behind a part of a path leads nowhere else. -/
theorem follows_of_walk_slash {links : Nat} {here there : Location} {cs : List Bytes}
    (h : fs.walk .follow links here (cs ++ [[]]) = .ok there) :
    ∃ links', fs.Follows links here cs links' there := by
  obtain ⟨links', next, hfollows⟩ := exists_follows_of_walk_append (.inr rfl) h
  rw [hfollows.walk_append (.inr rfl)] at h
  have hdirectory := isDirectory_of_walk_cons h
  cases (walk_replicate_nil hdirectory 1).symm.trans h
  exact ⟨links', hfollows⟩

/-- The directory that a path stands in is the place before its last name. -/
theorem exists_walk_of_holder (h : fs.holder path = .ok above) :
    ∃ links k, ∀ last, fs.walk last linkLimit (fs.origin path) (Path.components path) =
      fs.walk last links above ((splitName path).2 :: List.replicate k []) := by
  obtain ⟨-, hdirectory, hwalk⟩ := holder_eq_ok_iff.mp h
  obtain ⟨cs, k, hcomponents, hfront, -⟩ := exists_components path
  rw [hfront] at hwalk
  obtain ⟨links, hfollows⟩ := follows_of_walk_slash hwalk
  exact ⟨links, k, fun last => by rw [hcomponents, hfollows.walk_append (.inl (by simp))]⟩

theorem exists_holder_of_locate (h : fs.locate last path = .ok location) :
    ∃ above, fs.holder path = .ok above := by
  obtain ⟨hrefused, hwalk⟩ := locate_eq_ok_iff.mp h
  obtain ⟨cs, k, hcomponents, hfront, -⟩ := exists_components path
  rw [hcomponents] at hwalk
  obtain ⟨links, next, hfollows⟩ := exists_follows_of_walk_append (.inl (by simp)) hwalk
  rw [hfollows.walk_append (.inl (by simp))] at hwalk
  have hdirectory := isDirectory_of_walk_cons hwalk
  refine ⟨next, holder_eq_ok_iff.mpr ⟨hrefused, hdirectory, ?_⟩⟩
  rw [hfront, hfollows.walk_append (.inr rfl)]
  exact walk_replicate_nil hdirectory 1

/-- What a path leads to, if its last name is that of a node, is there. -/
theorem node?_ne_none_of_locate (h : fs.locate last path = .ok location)
    (hholder : fs.holder path = .ok above) (hname : NodeName (splitName path).2) :
    fs.node? (above ++ [(splitName path).2]) ≠ none := by
  intro hfree
  obtain ⟨links, k, hwalk⟩ := exists_walk_of_holder hholder
  obtain ⟨-, hdirectory, -⟩ := holder_eq_ok_iff.mp hholder
  have hlocate := (locate_eq_ok_iff.mp h).2
  rw [hwalk, walk_cons, turn_of_name hdirectory hname.proper hname.short, hfree] at hlocate
  cases hlocate

theorem newPlace_ne_ok_of_locate {there : Location} (h : fs.locate last path = .ok location) :
    fs.newPlace path ≠ .ok there := by
  intro hnew
  obtain ⟨above, hholder, hname, hfree, -⟩ := newPlace_eq_ok_iff.mp hnew
  exact node?_ne_none_of_locate h hholder hname hfree

/-- A path leads to the directory that stands where its last name says. -/
theorem locate_of_directory (hholder : fs.holder path = .ok above)
    (hname : NodeName (splitName path).2)
    (hnode : fs.node? (above ++ [(splitName path).2]) = some .directory) :
    fs.locate last path = .ok (above ++ [(splitName path).2]) := by
  obtain ⟨links, k, hwalk⟩ := exists_walk_of_holder hholder
  obtain ⟨hrefused, hdirectory, -⟩ := holder_eq_ok_iff.mp hholder
  refine locate_eq_ok_iff.mpr ⟨hrefused, ?_⟩
  rw [hwalk, walk_cons, turn_of_name hdirectory hname.proper hname.short, hnode]
  exact walk_replicate_nil (isDirectory_iff.mpr hnode) k

theorem find_parent {node : FileNode} {parent : Bytes} (h : fs.find path = .ok (location, node))
    (hparent : parentPath? path = some parent) :
    ∃ above, fs.find parent = .ok (above, .directory) := by
  obtain ⟨hlocate, -⟩ := find_eq_ok_iff.mp h
  obtain ⟨above, hholder⟩ := exists_holder_of_locate hlocate
  obtain ⟨hrefused, hdirectory, hwalk⟩ := holder_eq_ok_iff.mp hholder
  obtain ⟨cs, k, -, hfront, hcomponents⟩ := exists_components path
  rw [hfront] at hwalk
  have hlead := walk_follow_eq_ok_iff.mpr (follows_of_walk_slash hwalk)
  obtain ⟨rest, hpath, hne⟩ := exists_append_of_parentPath hparent
  refine ⟨above, find_eq_ok_iff.mpr
    ⟨locate_eq_ok_iff.mpr ⟨?_, ?_⟩, isDirectory_iff.mp hdirectory⟩⟩
  · rw [refused?_eq_none_iff] at hrefused ⊢
    rw [hpath, List.mem_append, List.length_append] at hrefused
    exact ⟨fun h0 => hrefused.1 (.inl h0), hne, by omega⟩
  · have horigin : fs.origin parent = fs.origin path := by
      obtain ⟨b, parent', rfl⟩ := List.exists_cons_of_ne_nil hne
      rw [origin, origin, hpath]
      rfl
    rw [horigin, hcomponents parent hparent]
    exact hlead

/-! ## Added directories -/

/-- New places are directories, and nothing else has changed. -/
structure AddsDirectories (fs g : FileSystem) : Prop where
  workingDirectory : g.workingDirectory = fs.workingDirectory
  node? : ∀ location, g.node? location = fs.node? location ∨
    fs.node? location = none ∧ g.node? location = some .directory

theorem AddsDirectories.refl (fs : FileSystem) : fs.AddsDirectories fs :=
  ⟨rfl, fun _ => .inl rfl⟩

theorem AddsDirectories.trans {g' : FileSystem} (h : fs.AddsDirectories g)
    (h' : g.AddsDirectories g') : fs.AddsDirectories g' where
  workingDirectory := h'.workingDirectory.trans h.workingDirectory
  node? location := by
    rcases h'.node? location with hkept' | ⟨hfree', hnew'⟩
    · rw [hkept']
      exact h.node? location
    · rcases h.node? location with hkept | ⟨-, hnew⟩
      · exact .inr ⟨hkept.symm.trans hfree', hnew'⟩
      · cases hnew.symm.trans hfree'

theorem AddsDirectories.node?_eq {node : FileNode} (h : fs.AddsDirectories g)
    (hnode : fs.node? location = some node) : g.node? location = some node := by
  rcases h.node? location with hkept | ⟨hfree, -⟩
  · exact hkept.trans hnode
  · cases hfree.symm.trans hnode

theorem AddsDirectories.grows (h : fs.AddsDirectories g) : fs.Grows g :=
  ⟨h.workingDirectory, fun hnode => ⟨_, h.node?_eq hnode, .refl _⟩⟩

theorem addsDirectories_put (hne : location ≠ []) (hfree : fs.node? location = none) :
    fs.AddsDirectories (fs.put location .directory) where
  workingDirectory := workingDirectory_put _
  node? there := by
    rw [node?_put hne]
    split_ifs with hthere
    · exact .inr ⟨hthere ▸ hfree, rfl⟩
    · exact .inl rfl

/-! ## One directory -/

theorem ne_nil_of_newPlace (h : fs.newPlace path = .ok location) : location ≠ [] := by
  obtain ⟨above, -, -, -, rfl⟩ := newPlace_eq_ok_iff.mp h
  simp

theorem makeLast_of_isDirectoryAt (h : fs.isDirectoryAt path = true) :
    fs.makeLast path = (fs, none) := by
  obtain ⟨location, hlocate, -⟩ := isDirectoryAt_iff.mp h
  unfold FileSystem.makeLast FileSystem.makeDirectory
  cases hnew : fs.newPlace path with
  | error error => exact if_pos h
  | ok place => exact absurd hnew (newPlace_ne_ok_of_locate hlocate)

theorem makeLast_of_newPlace (h : fs.newPlace path = .ok location) :
    fs.makeLast path = (fs.put location .directory, none) := by
  unfold FileSystem.makeLast FileSystem.makeDirectory
  rw [h]
  rfl

/-- A directory is made, or it is there after all. -/
theorem makeLast_eq_none_iff : fs.makeLast path = (fs', none) ↔
    (∃ location, fs.newPlace path = .ok location ∧ fs.put location .directory = fs') ∨
      fs.isDirectoryAt path = true ∧ fs = fs' := by
  constructor
  · intro h
    cases hnew : fs.newPlace path with
    | ok location =>
        rw [makeLast_of_newPlace hnew] at h
        cases h
        exact .inl ⟨location, rfl, rfl⟩
    | error error =>
        unfold FileSystem.makeLast FileSystem.makeDirectory at h
        rw [hnew] at h
        simp only [Except.map] at h
        split_ifs at h with hdirectory
        · cases h
          exact .inr ⟨hdirectory, rfl⟩
        · cases h
  · rintro (⟨location, hnew, rfl⟩ | ⟨hdirectory, rfl⟩)
    · exact makeLast_of_newPlace hnew
    · exact makeLast_of_isDirectoryAt hdirectory

theorem addsDirectories_of_makeLast (h : fs.makeLast path = (fs', none)) :
    fs.AddsDirectories fs' := by
  obtain ⟨location, hnew, rfl⟩ | ⟨-, rfl⟩ := makeLast_eq_none_iff.mp h
  · obtain ⟨_, _, _, hfree, rfl⟩ := newPlace_eq_ok_iff.mp hnew
    exact addsDirectories_put (ne_nil_of_newPlace hnew) hfree
  · exact .refl fs

/-- What was made is there from then on. -/
theorem isDirectoryAt_of_makeLast (h : fs.makeLast path = (fs', none)) (hM : fs'.Grows M) :
    M.isDirectoryAt path = true := by
  have hgrows := (addsDirectories_of_makeLast h).grows.trans hM
  obtain ⟨location, hnew, rfl⟩ | ⟨hdirectory, -⟩ := makeLast_eq_none_iff.mp h
  · obtain ⟨above, hholder, hname, -, rfl⟩ := newPlace_eq_ok_iff.mp hnew
    have hnode : M.node? (above ++ [(splitName path).2]) = some .directory :=
      hM.directory (node?_put_self (by simp) _)
    exact isDirectoryAt_iff.mpr ⟨_, locate_of_directory (hgrows.holder hholder) hname hnode, hnode⟩
  · exact hgrows.isDirectoryAt hdirectory

/-- A directory can also be made where more is there, if all of it goes with the directory. -/
theorem Grows.makeLast (h : fs.Grows g) (hmake : fs.makeLast path = (fs', none))
    (hM : g.Grows M) (hM' : fs'.Grows M) :
    ∃ g', g.makeLast path = (g', none) ∧ fs'.Grows g' ∧ g'.Grows M := by
  obtain ⟨location, hnew, rfl⟩ | ⟨hdirectory, rfl⟩ := makeLast_eq_none_iff.mp hmake
  · have hne := ne_nil_of_newPlace hnew
    obtain ⟨above, hholder, hname, -, rfl⟩ := newPlace_eq_ok_iff.mp hnew
    have hplace : M.node? (above ++ [(splitName path).2]) = some .directory :=
      hM'.directory (node?_put_self hne _)
    cases hnode : g.node? (above ++ [(splitName path).2]) with
    | none =>
        have hnew' := newPlace_eq_ok_iff.mpr ⟨above, h.holder hholder, hname, hnode, rfl⟩
        exact ⟨_, makeLast_of_newPlace hnew', h.put hne _, hM.put_left hne hplace (.refl _)⟩
    | some node =>
        rw [hM.node?_eq_directory hplace hnode] at hnode
        have hthere : g.isDirectoryAt path = true :=
          isDirectoryAt_iff.mpr ⟨_, locate_of_directory (h.holder hholder) hname hnode, hnode⟩
        exact ⟨g, makeLast_of_isDirectoryAt hthere, h.put_left hne hnode (.refl _), hM⟩
  · exact ⟨g, makeLast_of_isDirectoryAt (h.isDirectoryAt hdirectory), h, hM⟩

/-! ## Directories above directories -/

variable {bound : Nat}

/-- The directories above a path have been made, if the path has a parent. -/
def MakesAbove (fs : FileSystem) (bound : Nat) (path : Bytes) (above : FileSystem) : Prop :=
  (∃ bound' parent, bound = bound' + 1 ∧ parentPath? path = some parent ∧
    fs.makeDirectoriesWithin bound' parent = (above, none)) ∨
  (bound = 0 ∨ parentPath? path = none) ∧ fs = above

/-- A directory is there, or it is made behind the ones above it. -/
theorem makeDirectoriesWithin_eq_none_iff :
    fs.makeDirectoriesWithin bound path = (fs', none) ↔
      (∃ location, fs.find path = .ok (location, .directory)) ∧ fs = fs' ∨
        ∃ error above, fs.find path = .error error ∧ fs.MakesAbove bound path above ∧
          above.makeLast path = (fs', none) := by
  unfold MakesAbove
  rw [FileSystem.makeDirectoriesWithin.eq_def]
  cases hfind : fs.find path with
  | ok found =>
      obtain ⟨location, node⟩ := found
      cases node <;> simp
  | error error =>
      cases bound with
      | zero => simp
      | succ bound =>
          cases hparent : parentPath? path with
          | none => simp
          | some parent =>
              cases habove : fs.makeDirectoriesWithin bound parent with
              | mk above failure => cases failure <;> simp [habove]

/-- By induction on the directories above. -/
theorem addsDirectories_of_makeDirectoriesWithin
    (h : fs.makeDirectoriesWithin bound path = (fs', none)) : fs.AddsDirectories fs' := by
  induction bound using Nat.strong_induction_on generalizing path fs' with
  | _ bound ih =>
      obtain ⟨-, rfl⟩ | ⟨_, above, -, ⟨_, _, rfl, -, habove⟩ | ⟨-, rfl⟩, hlast⟩ :=
        makeDirectoriesWithin_eq_none_iff.mp h
      · exact .refl fs
      · exact (ih _ (Nat.lt_succ_self _) habove).trans (addsDirectories_of_makeLast hlast)
      · exact addsDirectories_of_makeLast hlast

theorem exists_find_of_makeDirectoriesWithin
    (h : fs.makeDirectoriesWithin bound path = (fs', none)) (hM : fs'.Grows M) :
    ∃ location, M.find path = .ok (location, .directory) := by
  obtain ⟨⟨location, hfind⟩, rfl⟩ | ⟨_, above, -, -, hlast⟩ :=
    makeDirectoriesWithin_eq_none_iff.mp h
  · exact ⟨location, hM.find_directory hfind⟩
  · exact find_of_isDirectoryAt (isDirectoryAt_of_makeLast hlast hM)

/-- Above a directory nothing has to be made. -/
theorem MakesAbove.eq_of_find {above : FileSystem} {node : FileNode}
    (h : fs.MakesAbove bound path above) (hfind : fs.find path = .ok (location, node)) :
    fs = above := by
  obtain ⟨bound', parent, rfl, hparent, hmake⟩ | ⟨-, rfl⟩ := h
  · have hthere : fs.makeDirectoriesWithin bound' parent = (fs, none) :=
      makeDirectoriesWithin_eq_none_iff.mpr (.inl ⟨find_parent hfind hparent, rfl⟩)
    cases hthere.symm.trans hmake
    rfl
  · rfl

/-- What stands where a directory can be made is that directory. -/
theorem Grows.find_eq_directory {node : FileNode}
    (hmake : fs.makeDirectoriesWithin bound path = (fs', none)) (hM' : fs'.Grows M)
    (hM : g.Grows M) (hfind : g.find path = .ok (location, node)) : node = .directory := by
  obtain ⟨place, hplace⟩ := exists_find_of_makeDirectoriesWithin hmake hM'
  obtain ⟨hlocate, hdirectory⟩ := find_eq_ok_iff.mp hplace
  obtain ⟨hlocate', hnode⟩ := find_eq_ok_iff.mp hfind
  cases hlocate.symm.trans (hM.locate hlocate')
  exact hM.node?_eq_directory hdirectory hnode

/-- The directories that were made are found where others were made too, and only what is missing of
them has to be made there. By induction on the directories above. -/
theorem Grows.makeDirectoriesWithin (h : fs.Grows g)
    (hmake : fs.makeDirectoriesWithin bound path = (fs', none)) (hM : g.Grows M)
    (hM' : fs'.Grows M) :
    ∃ g', g.makeDirectoriesWithin bound path = (g', none) ∧ fs'.Grows g' ∧ g'.Grows M := by
  induction bound using Nat.strong_induction_on generalizing path fs' with
  | _ bound ih =>
      obtain ⟨⟨location, hfind⟩, rfl⟩ | ⟨_, above, -, habove, hlast⟩ :=
        makeDirectoriesWithin_eq_none_iff.mp hmake
      · have hthere := h.find_directory hfind
        exact ⟨g, makeDirectoriesWithin_eq_none_iff.mpr (.inl ⟨⟨location, hthere⟩, rfl⟩), h, hM⟩
      have hgrows : above.Grows M := (addsDirectories_of_makeLast hlast).grows.trans hM'
      have habove' : ∃ above', g.MakesAbove bound path above' ∧ above.Grows above' ∧
          above'.Grows M := by
        obtain ⟨bound', parent, rfl, hparent, habove⟩ | ⟨hend, rfl⟩ := habove
        · obtain ⟨above', hmade, hkept, hM''⟩ := ih bound' (Nat.lt_succ_self _) habove hgrows
          exact ⟨above', .inl ⟨bound', parent, rfl, hparent, hmade⟩, hkept, hM''⟩
        · exact ⟨g, .inr ⟨hend, rfl⟩, h, hM⟩
      obtain ⟨above', hmade, hkept, hM''⟩ := habove'
      obtain ⟨g', hlast', hkept', hMg'⟩ := hkept.makeLast hlast hM'' hM'
      cases hfind : g.find path with
      | error error =>
          exact ⟨g', makeDirectoriesWithin_eq_none_iff.mpr
            (.inr ⟨error, above', hfind, hmade, hlast'⟩), hkept', hMg'⟩
      | ok found =>
          obtain ⟨location, node⟩ := found
          cases find_eq_directory hmake hM' hM hfind
          -- Nothing is left to be made, and so the steps that would make it change nothing.
          cases hmade.eq_of_find hfind
          obtain ⟨_, hnew, -⟩ | ⟨-, rfl⟩ := makeLast_eq_none_iff.mp hlast'
          · exact absurd hnew (newPlace_ne_ok_of_locate (find_eq_ok_iff.mp hfind).1)
          · exact ⟨g, makeDirectoriesWithin_eq_none_iff.mpr (.inl ⟨⟨location, hfind⟩, rfl⟩),
              hkept', hM⟩

end FileSystem

end HeaderBinding
