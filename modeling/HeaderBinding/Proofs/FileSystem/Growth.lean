import HeaderBinding.FileSystem.Edit
import Mathlib.Data.List.Basic

/-!
# Growing file systems

A file system grows when directories are made and files are written: what was there is still there
and of the same sort. Paths that led somewhere lead to the same place then.
-/

namespace HeaderBinding

/-- Two nodes are the same, or both are files. -/
inductive FileNode.SameSort : FileNode → FileNode → Prop where
  | refl (node : FileNode) : SameSort node node
  | file {content content' : Bytes} {modified modified' : Int} :
      SameSort (.file content modified) (.file content' modified')

theorem FileNode.SameSort.trans {node node' node'' : FileNode} (h : node.SameSort node')
    (h' : node'.SameSort node'') : node.SameSort node'' := by
  cases h with
  | refl => exact h'
  | file => cases h' <;> exact .file

theorem FileNode.SameSort.exists_file {node : FileNode} {content : Bytes} {modified : Int}
    (h : (FileNode.file content modified).SameSort node) :
    ∃ content' modified', node = .file content' modified' := by
  cases h <;> exact ⟨_, _, rfl⟩

namespace FileSystem

variable {fs g : FileSystem} {location here there : Location} {links : Nat} {last : LastLink}
  {c path : Bytes} {cs : List Bytes} {node node' : FileNode}

theorem isDirectory_iff : fs.isDirectory location = true ↔ fs.node? location = some .directory :=
  beq_iff_eq

/-! ## Growth -/

/-- What is there stays and is of the same sort. -/
structure Grows (fs g : FileSystem) : Prop where
  workingDirectory : g.workingDirectory = fs.workingDirectory
  node? : ∀ {location node}, fs.node? location = some node →
    ∃ node', g.node? location = some node' ∧ node.SameSort node'

theorem Grows.refl (fs : FileSystem) : fs.Grows fs :=
  ⟨rfl, fun hnode => ⟨_, hnode, .refl _⟩⟩

theorem Grows.trans {g' : FileSystem} (h : fs.Grows g) (h' : g.Grows g') : fs.Grows g' where
  workingDirectory := h'.workingDirectory.trans h.workingDirectory
  node? hnode := by
    obtain ⟨node', hnode', hsort⟩ := h.node? hnode
    obtain ⟨node'', hnode'', hsort'⟩ := h'.node? hnode'
    exact ⟨node'', hnode'', hsort.trans hsort'⟩

theorem Grows.directory (h : fs.Grows g) (hnode : fs.node? location = some .directory) :
    g.node? location = some .directory := by
  obtain ⟨_, hnode', ⟨⟩⟩ := h.node? hnode
  exact hnode'

theorem Grows.link (h : fs.Grows g) (hnode : fs.node? location = some (.link path)) :
    g.node? location = some (.link path) := by
  obtain ⟨_, hnode', ⟨⟩⟩ := h.node? hnode
  exact hnode'

theorem Grows.isDirectory (h : fs.Grows g) (hdirectory : fs.isDirectory location = true) :
    g.isDirectory location = true :=
  isDirectory_iff.mpr (h.directory (isDirectory_iff.mp hdirectory))

/-- Where a directory has come to stand, there was one before or nothing. -/
theorem Grows.node?_eq_directory (h : fs.Grows g) (hplace : g.node? location = some .directory)
    (hnode : fs.node? location = some node) : node = .directory := by
  obtain ⟨node', hnode', hsort⟩ := h.node? hnode
  cases hplace.symm.trans hnode'
  cases hsort
  rfl

theorem Grows.origin (h : fs.Grows g) (path : Bytes) : g.origin path = fs.origin path := by
  rw [FileSystem.origin, FileSystem.origin, h.workingDirectory]

/-! ## Putting nodes in places -/

theorem lookup_replace (nodes : List (Location × FileNode)) (node : FileNode) (there : Location) :
    (nodes.map fun entry => if entry.1 = location then (location, node) else entry).lookup there =
      if there = location then (nodes.lookup location).map fun _ => node
      else nodes.lookup there := by
  induction nodes with
  | nil => simp
  | cons entry nodes ih =>
      obtain ⟨place, old⟩ := entry
      rw [List.map_cons]
      by_cases hplace : place = location
      · subst hplace
        by_cases hthere : there = place
        · simp [hthere]
        · have hbeq : (there == place) = false := beq_eq_false_iff_ne.mpr hthere
          simp [hthere, hbeq, List.lookup_cons, ih]
      · by_cases hthere : there = place
        · subst hthere
          simp [hplace]
        · have hbeq : (there == place) = false := beq_eq_false_iff_ne.mpr hthere
          have hbeq' : (location == place) = false := beq_eq_false_iff_ne.mpr (Ne.symm hplace)
          simp [hplace, hbeq, hbeq', List.lookup_cons, ih]

theorem node?_eq_lookup (hne : location ≠ []) : fs.node? location = fs.nodes.lookup location := by
  simp [FileSystem.node?, hne]

/-- Only the node at that place changes. -/
theorem node?_put (hne : location ≠ []) (node : FileNode) (there : Location) :
    (fs.put location node).node? there =
      if there = location then some node else fs.node? there := by
  by_cases hroot : there = []
  · simp [FileSystem.node?, hroot, Ne.symm hne]
  · rw [node?_eq_lookup hroot, node?_eq_lookup hroot]
    unfold FileSystem.put
    split
    · rename_i hsome
      obtain ⟨old, hlookup⟩ := Option.isSome_iff_exists.mp hsome
      rw [lookup_replace, hlookup]
      rfl
    · rename_i hnone
      rw [Option.not_isSome_iff_eq_none] at hnone
      rw [List.lookup_append]
      by_cases hthere : there = location
      · simp [hthere, hnone]
      · have hbeq : (there == location) = false := beq_eq_false_iff_ne.mpr hthere
        simp [hthere, hbeq, List.lookup_cons]

theorem node?_put_self (hne : location ≠ []) (node : FileNode) :
    (fs.put location node).node? location = some node := by
  rw [node?_put hne, if_pos rfl]

@[simp] theorem workingDirectory_put (node : FileNode) :
    (fs.put location node).workingDirectory = fs.workingDirectory := by
  unfold FileSystem.put
  split <;> rfl

theorem Grows.put (h : fs.Grows g) (hne : location ≠ []) (node : FileNode) :
    (fs.put location node).Grows (g.put location node) where
  workingDirectory := by simpa using h.workingDirectory
  node? {there old} hnode := by
    rw [node?_put hne] at hnode ⊢
    split_ifs at hnode ⊢
    · exact ⟨old, hnode, .refl old⟩
    · exact h.node? hnode

/-- A node may be put where the other file system has one of its sort. -/
theorem Grows.put_left (h : fs.Grows g) (hne : location ≠ [])
    (hplace : g.node? location = some node') (hsort : node.SameSort node') :
    (fs.put location node).Grows g where
  workingDirectory := by simpa using h.workingDirectory
  node? {there old} hnode := by
    rw [node?_put hne] at hnode
    split_ifs at hnode with hthere
    · cases hnode
      exact ⟨node', hthere ▸ hplace, hsort⟩
    · exact h.node? hnode

theorem grows_put (hne : location ≠ [])
    (hsort : ∀ old, fs.node? location = some old → old.SameSort node) :
    fs.Grows (fs.put location node) where
  workingDirectory := workingDirectory_put _
  node? {there old} hnode := by
    rw [node?_put hne]
    split_ifs with hthere
    · exact ⟨node, rfl, hsort old (hthere ▸ hnode)⟩
    · exact ⟨old, hnode, .refl old⟩

/-! ## Component by component -/

/-- What a component leads to. -/
inductive Turn where
  | place (there : Location)
  /-- A link is followed from the directory it stands in. -/
  | link (target : Bytes)

/-- What a component leads to from a place. -/
def turn (fs : FileSystem) (here : Location) (c : Bytes) : Except PathError Turn :=
  if !fs.isDirectory here then .error .notDirectory
  else if c = [] ∨ c = ascii "." then .ok (.place here)
  else if c = ascii ".." then .ok (.place here.dropLast)
  else if nameLimit < c.length then .error .nameTooLong
  else match fs.node? (here ++ [c]) with
    | none => .error .notFound
    | some (.link target) => .ok (.link target)
    | some _ => .ok (.place (here ++ [c]))

theorem walk_nil : fs.walk last links here [] = .ok here := by
  rw [walk]

/-- A link is kept at the very end only. -/
theorem walk_cons : fs.walk last links here (c :: cs) =
    match fs.turn here c with
    | .error error => .error error
    | .ok (.place next) => fs.walk last links next cs
    | .ok (.link target) =>
      if cs.isEmpty && last == .keep then .ok (here ++ [c])
      else match links with
        | 0 => .error .tooManyLinks
        | links + 1 => fs.walk last links (if Path.isAbsolute target then [] else here)
            (Path.components target ++ cs) := by
  rw [walk, turn]
  repeat' split
  all_goals simp_all

/-- How a path can lead somewhere: over a place or over a link. -/
theorem walk_cons_eq_ok_iff : fs.walk last links here (c :: cs) = .ok there ↔
    (∃ next, fs.turn here c = .ok (.place next) ∧ fs.walk last links next cs = .ok there) ∨
      ∃ target, fs.turn here c = .ok (.link target) ∧
        ((cs = [] ∧ last = .keep) ∧ here ++ [c] = there ∨
          ¬(cs = [] ∧ last = .keep) ∧ ∃ links', links = links' + 1 ∧
            fs.walk last links' (if Path.isAbsolute target then [] else here)
              (Path.components target ++ cs) = .ok there) := by
  rw [walk_cons]
  cases fs.turn here c with
  | error error => simp
  | ok turn =>
      cases turn with
      | place next => simp
      | link target =>
          have hkeep : (cs.isEmpty && last == .keep) = true ↔ cs = [] ∧ last = .keep := by simp
          simp only [hkeep]
          by_cases h : cs = [] ∧ last = .keep
          · simp [h]
          · rw [if_neg h]
            cases links <;> simp [h]

/-- Each step takes a component away or a link that may be followed. -/
theorem walkInduction {motive : Nat → Location → List Bytes → Prop}
    (nil : ∀ links here, motive links here [])
    (cons : ∀ links here c cs, (∀ there, motive links there cs) →
      (∀ links' there cs', links = links' + 1 → motive links' there cs') →
        motive links here (c :: cs))
    (links : Nat) (here : Location) (cs : List Bytes) : motive links here cs := by
  induction links generalizing here cs with
  | zero =>
      induction cs generalizing here with
      | nil => exact nil 0 here
      | cons c cs ih => exact cons 0 here c cs ih nofun
  | succ links ihlinks =>
      induction cs generalizing here with
      | nil => exact nil _ here
      | cons c cs ih =>
          refine cons _ here c cs ih fun links' there cs' hlinks => ?_
          cases hlinks
          exact ihlinks there cs'

/-- A component leads somewhere only from a directory. -/
theorem isDirectory_of_turn {turn : Turn} (h : fs.turn here c = .ok turn) :
    fs.isDirectory here = true := by
  by_contra hhere
  rw [FileSystem.turn, if_pos (by simpa using hhere)] at h
  cases h

theorem isDirectory_of_walk_cons (h : fs.walk last links here (c :: cs) = .ok there) :
    fs.isDirectory here = true := by
  obtain ⟨_, hturn, -⟩ | ⟨_, hturn, -⟩ := walk_cons_eq_ok_iff.mp h
  · exact isDirectory_of_turn hturn
  · exact isDirectory_of_turn hturn

theorem turn_of_skip (hhere : fs.isDirectory here = true) (hskip : c = [] ∨ c = ascii ".") :
    fs.turn here c = .ok (.place here) := by
  rw [turn, if_neg (by simpa using hhere), if_pos hskip]

theorem turn_of_parent (hhere : fs.isDirectory here = true) :
    fs.turn here (ascii "..") = .ok (.place here.dropLast) := by
  rw [turn, if_neg (by simpa using hhere), if_neg (by decide), if_pos rfl]

/-- A component that is a name leads to the node of that name. -/
theorem turn_of_name (hhere : fs.isDirectory here = true)
    (hname : ¬(c = [] ∨ c = ascii "." ∨ c = ascii "..")) (hlong : ¬nameLimit < c.length) :
    fs.turn here c =
      match fs.node? (here ++ [c]) with
      | none => .error .notFound
      | some (.link target) => .ok (.link target)
      | some _ => .ok (.place (here ++ [c])) := by
  simp only [not_or] at hname
  rw [turn, if_neg (by simpa using hhere), if_neg (not_or.mpr ⟨hname.1, hname.2.1⟩),
    if_neg hname.2.2, if_neg hlong]

theorem node?_of_turn_link {target : Bytes} (h : fs.turn here c = .ok (.link target)) :
    fs.node? (here ++ [c]) = some (.link target) := by
  unfold FileSystem.turn at h
  split_ifs at h
  · cases h
  · cases h
  · cases hnode : fs.node? (here ++ [c]) with
    | none => simp [hnode] at h
    | some node => cases node <;> simp_all

/-! ## Paths in parts -/

/-- Components lead from one place to another, all links being followed, and so many links may be
followed from there. -/
inductive Follows (fs : FileSystem) : Nat → Location → List Bytes → Nat → Location → Prop where
  | done {links : Nat} {here : Location} : Follows fs links here [] links here
  | place {links links' : Nat} {here next there : Location} {c : Bytes} {cs : List Bytes}
      (hturn : fs.turn here c = .ok (.place next)) (hrest : Follows fs links next cs links' there) :
      Follows fs links here (c :: cs) links' there
  | link {links links' : Nat} {here there : Location} {c target : Bytes} {cs : List Bytes}
      (hturn : fs.turn here c = .ok (.link target))
      (hrest : Follows fs links (if Path.isAbsolute target then [] else here)
        (Path.components target ++ cs) links' there) :
      Follows fs (links + 1) here (c :: cs) links' there

/-- What follows a part of a path starts where the part leads. -/
theorem Follows.walk_append {links' : Nat} {ds : List Bytes}
    (h : fs.Follows links here cs links' there) (hne : ds ≠ [] ∨ last = .follow) :
    fs.walk last links here (cs ++ ds) = fs.walk last links' there ds := by
  induction h with
  | done => rfl
  | place hturn _ ih =>
      rw [List.cons_append, walk_cons, hturn]
      exact ih
  | @link links _ here there c target cs hturn _ ih =>
      have hfollow : ((cs ++ ds).isEmpty && last == .keep) = false := by
        rcases hne with hne | rfl <;> simp [*]
      rw [List.cons_append, walk_cons, hturn, ← ih, List.append_assoc]
      dsimp only
      rw [hfollow]
      rfl

/-- Every part of a path that leads somewhere leads to a place on the way. -/
theorem exists_follows_of_walk_append {ds : List Bytes} (hne : ds ≠ [] ∨ last = .follow)
    (h : fs.walk last links here (cs ++ ds) = .ok there) :
    ∃ links' next, fs.Follows links here cs links' next := by
  induction links, here, cs using walkInduction with
  | nil links here => exact ⟨links, here, .done⟩
  | cons links here c cs ih ihlink =>
      rw [List.cons_append, walk_cons_eq_ok_iff] at h
      obtain ⟨next, hturn, h⟩ | ⟨target, hturn, ⟨⟨hnil, rfl⟩, -⟩ | ⟨-, links, rfl, h⟩⟩ := h
      · obtain ⟨links', there, hrest⟩ := ih next h
        exact ⟨links', there, .place hturn hrest⟩
      · rcases hne with hne | hfollow
        · exact absurd (List.append_eq_nil_iff.mp hnil).2 hne
        · cases hfollow
      · rw [← List.append_assoc] at h
        obtain ⟨links', there, hrest⟩ := ihlink links _ _ rfl h
        exact ⟨links', there, .link hturn hrest⟩

theorem walk_follow_eq_ok_iff : fs.walk .follow links here cs = .ok there ↔
    ∃ links', fs.Follows links here cs links' there := by
  constructor
  · intro h
    rw [← List.append_nil cs] at h
    obtain ⟨links', next, hfollows⟩ := exists_follows_of_walk_append (.inr rfl) h
    rw [hfollows.walk_append (.inr rfl), walk_nil] at h
    cases h
    exact ⟨links', hfollows⟩
  · rintro ⟨links', hfollows⟩
    have h : fs.walk .follow links here (cs ++ []) = fs.walk .follow links' there [] :=
      hfollows.walk_append (.inr rfl)
    rwa [List.append_nil, walk_nil] at h

/-- Where no link is at the end, none has to be followed there. -/
theorem walk_follow_of_keep (hwalk : fs.walk .keep links here cs = .ok there)
    (hlink : ∀ target, fs.node? there ≠ some (.link target)) :
    fs.walk .follow links here cs = .ok there := by
  induction links, here, cs using walkInduction with
  | nil links here => rwa [walk_nil] at hwalk ⊢
  | cons links here c cs ih ihlink =>
      rw [walk_cons_eq_ok_iff] at hwalk ⊢
      obtain ⟨next, hturn, hwalk⟩ | ⟨target, hturn, ⟨-, rfl⟩ | ⟨-, links, rfl, hwalk⟩⟩ := hwalk
      · exact .inl ⟨next, hturn, ih next hwalk⟩
      · exact absurd (node?_of_turn_link hturn) (hlink target)
      · exact .inr ⟨target, hturn, .inr ⟨by simp, links, rfl, ihlink links _ _ rfl hwalk⟩⟩

/-! ## Paths in a file system that has grown -/

theorem Grows.turn (h : fs.Grows g) {turn : Turn} (hturn : fs.turn here c = .ok turn) :
    g.turn here c = .ok turn := by
  have hhere := isDirectory_of_turn hturn
  rw [FileSystem.turn, if_neg (by simp [hhere])] at hturn
  rw [FileSystem.turn, if_neg (by simp [h.isDirectory hhere])]
  split_ifs at hturn ⊢
  · exact hturn
  · exact hturn
  · cases hnode : fs.node? (here ++ [c]) with
    | none =>
        rw [hnode] at hturn
        cases hturn
    | some node =>
        obtain ⟨node', hnode', hsort⟩ := h.node? hnode
        rw [hnode] at hturn
        rw [hnode']
        cases hsort <;> exact hturn

theorem Grows.walk (h : fs.Grows g) (hwalk : fs.walk last links here cs = .ok there) :
    g.walk last links here cs = .ok there := by
  induction links, here, cs using walkInduction with
  | nil links here => rwa [walk_nil] at hwalk ⊢
  | cons links here c cs ih ihlink =>
      rw [walk_cons_eq_ok_iff] at hwalk ⊢
      obtain ⟨next, hturn, hwalk⟩ | ⟨target, hturn, hkept | ⟨hlast, links, rfl, hwalk⟩⟩ := hwalk
      · exact .inl ⟨next, h.turn hturn, ih next hwalk⟩
      · exact .inr ⟨target, h.turn hturn, .inl hkept⟩
      · exact .inr ⟨target, h.turn hturn, .inr ⟨hlast, links, rfl, ihlink links _ _ rfl hwalk⟩⟩

theorem locate_eq_ok_iff : fs.locate last path = .ok location ↔
    refused? path = none ∧
      fs.walk last linkLimit (fs.origin path) (Path.components path) = .ok location := by
  unfold FileSystem.locate
  cases refused? path <;> simp

theorem find_eq_ok_iff : fs.find path = .ok (location, node) ↔
    fs.locate .follow path = .ok location ∧ fs.node? location = some node := by
  unfold FileSystem.find
  cases fs.locate .follow path with
  | error error => simp
  | ok there =>
      dsimp only
      cases hnode : fs.node? there with
      | none =>
          simp only [reduceCtorEq, Except.ok.injEq, false_iff, not_and]
          rintro rfl
          simp [hnode]
      | some found =>
          simp only [Except.ok.injEq, Prod.mk.injEq]
          constructor
          · rintro ⟨rfl, rfl⟩
            exact ⟨rfl, hnode⟩
          · rintro ⟨rfl, h⟩
            exact ⟨rfl, Option.some.inj (hnode.symm.trans h)⟩

theorem Grows.locate (h : fs.Grows g) (hlocate : fs.locate last path = .ok location) :
    g.locate last path = .ok location := by
  rw [locate_eq_ok_iff] at hlocate ⊢
  exact ⟨hlocate.1, by rw [h.origin]; exact h.walk hlocate.2⟩

theorem Grows.find_directory (h : fs.Grows g) (hfind : fs.find path = .ok (location, .directory)) :
    g.find path = .ok (location, .directory) := by
  obtain ⟨hlocate, hnode⟩ := find_eq_ok_iff.mp hfind
  exact find_eq_ok_iff.mpr ⟨h.locate hlocate, h.directory hnode⟩

theorem isDirectoryAt_iff : fs.isDirectoryAt path = true ↔
    ∃ location, fs.locate .keep path = .ok location ∧ fs.node? location = some .directory := by
  unfold FileSystem.isDirectoryAt
  cases fs.locate .keep path with
  | error error => simp
  | ok location => simp [isDirectory_iff]

theorem Grows.isDirectoryAt (h : fs.Grows g) (hdirectory : fs.isDirectoryAt path = true) :
    g.isDirectoryAt path = true := by
  obtain ⟨location, hlocate, hnode⟩ := isDirectoryAt_iff.mp hdirectory
  exact isDirectoryAt_iff.mpr ⟨location, h.locate hlocate, h.directory hnode⟩

theorem find_of_isDirectoryAt (h : fs.isDirectoryAt path = true) :
    ∃ location, fs.find path = .ok (location, .directory) := by
  obtain ⟨location, hlocate, hnode⟩ := isDirectoryAt_iff.mp h
  obtain ⟨hrefused, hwalk⟩ := locate_eq_ok_iff.mp hlocate
  have hfollow := walk_follow_of_keep hwalk fun target => by simp [hnode]
  exact ⟨location, find_eq_ok_iff.mpr ⟨locate_eq_ok_iff.mpr ⟨hrefused, hfollow⟩, hnode⟩⟩

end FileSystem

end HeaderBinding
