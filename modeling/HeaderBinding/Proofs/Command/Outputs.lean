import HeaderBinding.Proofs.Command.Renderings
import HeaderBinding.Proofs.FileSystem.Directories
import HeaderBinding.Proofs.FileSystem.Evaluation
import HeaderBinding.Proofs.FileSystem.Writing

/-!
# Outputs of a run

The modules of the headers are written one after another, each to a place that depends on its path
and on what links and directories there are. Making directories and writing files between them moves
no place, and so a module is lost only to a later one that has the same place.
-/

namespace HeaderBinding

namespace FileSystem

variable {fs g M : FileSystem} {output path : Bytes} {paths : List Bytes} {location : Location}
  {text : Bytes → Bytes} {tree : Bytes → FileSystem} {place : Bytes → Location} {now : Int}

/-- The path that the module of a header is written to. -/
def outputPath (output path : Bytes) : Bytes :=
  Path.join (outputDirectory output path) (bindingFileName path)

/-- The module of a header can be written: its directory is there or can be made, which gives
`tree`, and there its path leads to `place`. -/
structure HasRoom (fs : FileSystem) (output path : Bytes) (tree : FileSystem) (place : Location) :
    Prop where
  made : fs.makeDirectories (outputDirectory output path) = (tree, none)
  leads : tree.writePlace (outputPath output path) = .ok place

theorem HasRoom.addsDirectories {tree : FileSystem} {place : Location}
    (h : fs.HasRoom output path tree place) : fs.AddsDirectories tree :=
  addsDirectories_of_makeDirectoriesWithin h.made

/-! ## All outputs in one file system -/

theorem lookup_flatMap {α : Type} {nodes : α → List (Location × FileNode)} {xs : List α}
    {node : FileNode} (h : (xs.flatMap nodes).lookup location = some node) :
    ∃ x ∈ xs, (nodes x).lookup location = some node := by
  induction xs with
  | nil => cases h
  | cons x xs ih =>
      rw [List.flatMap_cons, List.lookup_append, Option.or_eq_some_iff] at h
      obtain h | ⟨-, h⟩ := h
      · exact ⟨x, List.mem_cons_self, h⟩
      · obtain ⟨y, hy, hlookup⟩ := ih h
        exact ⟨y, List.mem_cons_of_mem x hy, hlookup⟩

theorem lookup_flatMap_ne_none {α : Type} {nodes : α → List (Location × FileNode)} {xs : List α}
    {x : α} (hx : x ∈ xs) (h : (nodes x).lookup location ≠ none) :
    (xs.flatMap nodes).lookup location ≠ none := by
  intro hnone
  rw [List.lookup_eq_none_iff] at hnone
  refine h (List.lookup_eq_none_iff.mpr fun entry hentry => ?_)
  exact hnone entry (List.mem_flatMap.mpr ⟨x, hx, hentry⟩)

/-- The nodes of a file system, then those of the trees, then files in the places. -/
def withOutputs (fs : FileSystem) (paths : List Bytes) (tree : Bytes → FileSystem)
    (place : Bytes → Location) : FileSystem :=
  ⟨fs.nodes ++ ((paths.flatMap fun path => (tree path).nodes) ++
    paths.flatMap fun path => [(place path, .file [] 0)]), fs.workingDirectory⟩

theorem node?_withOutputs_of_some {node : FileNode} (h : fs.node? location = some node) :
    (fs.withOutputs paths tree place).node? location = some node := by
  by_cases hne : location = []
  · subst hne
    exact h
  · rw [node?_eq_lookup hne] at h ⊢
    rw [withOutputs, List.lookup_append, h]
    rfl

theorem grows_withOutputs : fs.Grows (fs.withOutputs paths tree place) :=
  ⟨rfl, fun hnode => ⟨_, node?_withOutputs_of_some hnode, .refl _⟩⟩

/-- What a tree has beyond the file system is a directory, in whichever tree it is found first. -/
theorem node?_withOutputs_of_tree {node : FileNode}
    (h : ∀ path ∈ paths, fs.AddsDirectories (tree path)) (hpath : path ∈ paths)
    (hnode : (tree path).node? location = some node) :
    (fs.withOutputs paths tree place).node? location = some node := by
  rcases (h path hpath).node? location with hkept | ⟨hfree, hnew⟩
  · exact node?_withOutputs_of_some (hkept.symm.trans hnode)
  · cases hnode.symm.trans hnew
    by_cases hne : location = []
    · subst hne
      rfl
    rw [node?_eq_lookup hne] at hfree hnew ⊢
    rw [withOutputs, List.lookup_append, hfree, List.lookup_append]
    have hsome : (paths.flatMap fun path => (tree path).nodes).lookup location ≠ none :=
      lookup_flatMap_ne_none hpath (by simp [hnew])
    obtain ⟨found, hfound⟩ := Option.ne_none_iff_exists'.mp hsome
    obtain ⟨other, hother, hlookup⟩ := lookup_flatMap hfound
    rw [hfound]
    rcases (h other hother).node? location with hkept | ⟨-, hdirectory⟩
    · rw [node?_eq_lookup hne, node?_eq_lookup hne, hlookup, hfree] at hkept
      cases hkept
    · rw [node?_eq_lookup hne, hlookup] at hdirectory
      rw [hdirectory]
      rfl

theorem tree_grows_withOutputs (h : ∀ path ∈ paths, fs.AddsDirectories (tree path))
    (hpath : path ∈ paths) : (tree path).Grows (fs.withOutputs paths tree place) :=
  ⟨(h path hpath).workingDirectory.symm,
    fun hnode => ⟨_, node?_withOutputs_of_tree h hpath hnode, .refl _⟩⟩

/-- An output has a file in its place if no tree has a directory there. -/
theorem exists_file_withOutputs
    (hroom : ∀ path ∈ paths, fs.HasRoom output path (tree path) (place path))
    (hclear : ∀ path ∈ paths, ∀ other ∈ paths,
      (tree other).node? (place path) ≠ some .directory) (hpath : path ∈ paths) :
    ∃ content modified,
      (fs.withOutputs paths tree place).node? (place path) = some (.file content modified) := by
  have hplace := takesFile_of_writePlace (hroom path hpath).leads
  have hne := ne_nil_of_writePlace (hroom path hpath).leads
  cases hnode : fs.node? (place path) with
  | some node =>
      have hkept := (hroom path hpath).addsDirectories.node?_eq hnode
      obtain hfree | ⟨content, modified, hfile⟩ := hplace
      · cases hkept.symm.trans hfree
      · cases hkept.symm.trans hfile
        exact ⟨content, modified, node?_withOutputs_of_some hnode⟩
  | none =>
      have htrees : (paths.flatMap fun path => (tree path).nodes).lookup (place path) = none := by
        by_contra hsome
        obtain ⟨found, hfound⟩ := Option.ne_none_iff_exists'.mp hsome
        obtain ⟨other, hother, hlookup⟩ := lookup_flatMap hfound
        rw [← node?_eq_lookup hne] at hlookup
        rcases (hroom other hother).addsDirectories.node? (place path) with hkept | ⟨-, hnew⟩
        · rw [hkept, hnode] at hlookup
          cases hlookup
        · exact hclear path hpath other hother hnew
      have hsome : (paths.flatMap fun path => [(place path, FileNode.file [] 0)]).lookup
          (place path) ≠ none := lookup_flatMap_ne_none hpath (by simp)
      obtain ⟨found, hfound⟩ := Option.ne_none_iff_exists'.mp hsome
      obtain ⟨other, -, hlookup⟩ := lookup_flatMap hfound
      obtain rfl : found = .file [] 0 := by
        rw [List.lookup_cons] at hlookup
        split at hlookup
        · exact (Option.some.inj hlookup).symm
        · cases hlookup
      rw [node?_eq_lookup hne] at hnode ⊢
      rw [withOutputs, List.lookup_append, hnode, List.lookup_append, htrees, hfound]
      exact ⟨[], 0, rfl⟩

/-! ## Writing one output -/

/-- A module that can be written on its own is written to the same place where more is there, if all
of it goes with what its writing makes. -/
theorem HasRoom.writeModule {tree : FileSystem} {place : Location} (now : Int) (content : Bytes)
    (h : fs.HasRoom output path tree place) (hg : fs.Grows g) (hM : g.Grows M)
    (htree : tree.Grows M)
    (hfile : ∃ content modified, M.node? place = some (.file content modified)) :
    ∃ g', writeModule now output g path content = (g'.put place (.file content now), none) ∧
      g.AddsDirectories g' ∧ tree.Grows g' ∧ g'.Grows M := by
  obtain ⟨g', hmade, htree', hM'⟩ := hg.makeDirectoriesWithin h.made hM htree
  have hplace : g'.TakesFile place := hM'.takesFile (.inr hfile)
  have hwrite : g'.writePlace (outputPath output path) = .ok place :=
    htree'.writePlace h.leads hplace
  refine ⟨g', ?_, addsDirectories_of_makeDirectoriesWithin hmade, htree', hM'⟩
  unfold outputPath at hwrite
  unfold HeaderBinding.writeModule FileSystem.makeDirectories
  dsimp only
  rw [hmade]
  dsimp only
  unfold FileSystem.write
  rw [hwrite]
  rfl

/-! ## Writing all outputs -/

/-- What a run has changed: outputs stand in their places, and elsewhere only directories are
new. -/
structure OutputsWritten (fs g : FileSystem) (paths : List Bytes) (place : Bytes → Location)
    (text : Bytes → Bytes) (now : Int) : Prop where
  /-- A place holds the last output that is written to it. -/
  last : ∀ front path back, paths = front ++ path :: back → (∀ q ∈ back, place q ≠ place path) →
    g.node? (place path) = some (.file (text path) now)
  elsewhere : ∀ location, (∀ path ∈ paths, place path ≠ location) →
    g.node? location = fs.node? location ∨
      fs.node? location = none ∧ g.node? location = some .directory

theorem OutputsWritten.nil : fs.OutputsWritten fs [] place text now where
  last front path back h _ := by simp at h
  elsewhere location _ := .inl rfl

/-- A module is written before the others. -/
theorem OutputsWritten.cons {g' : FileSystem} (hdirectories : fs.AddsDirectories g)
    (hne : place path ≠ [])
    (h : (g.put (place path) (.file (text path) now)).OutputsWritten g' paths place text now) :
    fs.OutputsWritten g' (path :: paths) place text now where
  last front other back heq hback := by
    cases front with
    | nil =>
        obtain ⟨rfl, rfl⟩ := List.cons.inj heq
        rcases h.elsewhere (place path) hback with hkept | ⟨hfree, -⟩
        · exact hkept.trans (node?_put_self hne _)
        · cases hfree.symm.trans (node?_put_self hne _)
    | cons _ front =>
        obtain ⟨-, rfl⟩ := List.cons.inj heq
        exact h.last front other back rfl hback
  elsewhere location hlocation := by
    obtain ⟨hpath, hpaths⟩ := List.forall_mem_cons.mp hlocation
    have hput : (g.put (place path) (.file (text path) now)).node? location = g.node? location := by
      rw [node?_put hne, if_neg (Ne.symm hpath)]
    have hrest := h.elsewhere location hpaths
    rw [hput] at hrest
    rcases hrest with hkept | ⟨hfree, hnew⟩
    · rw [hkept]
      exact hdirectories.node? location
    · rcases hdirectories.node? location with hkept | ⟨-, hdirectory⟩
      · exact .inr ⟨hkept.symm.trans hfree, hnew⟩
      · cases hdirectory.symm.trans hfree

/-- By induction on the headers; between two of them the file system has grown from the first one
and is growing to the one that has all outputs. -/
theorem writeModules_outputs {stderr : Bytes} (hg : fs.Grows g) (hM : g.Grows M)
    (hroom : ∀ path ∈ paths, fs.HasRoom output path (tree path) (place path))
    (htree : ∀ path ∈ paths, (tree path).Grows M)
    (hfile : ∀ path ∈ paths, ∃ content modified,
      M.node? (place path) = some (.file content modified)) :
    ∃ g', writeModules now output stderr g (paths.map fun path => (path, text path)) =
        ⟨[], stderr, true, g'⟩ ∧
      g.OutputsWritten g' paths place text now ∧ g.Grows g' ∧
      ∀ path ∈ paths, (tree path).Grows g' := by
  induction paths generalizing g with
  | nil => exact ⟨g, rfl, .nil, .refl g, nofun⟩
  | cons path paths ih =>
      obtain ⟨hroom, hrooms⟩ := List.forall_mem_cons.mp hroom
      obtain ⟨htree, htrees⟩ := List.forall_mem_cons.mp htree
      obtain ⟨hfile, hfiles⟩ := List.forall_mem_cons.mp hfile
      obtain ⟨made, hwrite, hdirectories, hkept, hM'⟩ :=
        hroom.writeModule now (text path) hg hM htree hfile
      have hne := ne_nil_of_writePlace hroom.leads
      obtain ⟨_, _, hplace⟩ := hfile
      have hput : made.Grows (made.put (place path) (.file (text path) now)) :=
        (hM'.takesFile (.inr ⟨_, _, hplace⟩)).grows_put hne
      obtain ⟨g', hrest, hwritten, hgrows, htrees'⟩ :=
        ih ((hg.trans hdirectories.grows).trans hput) (hM'.put_left hne hplace .file) hrooms
          htrees hfiles
      refine ⟨g', ?_, hwritten.cons hdirectories hne, (hdirectories.grows.trans hput).trans hgrows,
        List.forall_mem_cons.mpr ⟨(hkept.trans hput).trans hgrows, htrees'⟩⟩
      rw [List.map_cons, writeModules, hwrite]
      exact hrest

/-- Modules that can each be written on their own are written one after another, if no directory has
to be made in the place of one of them. -/
theorem writeModules_of_room (now : Int) (stderr : Bytes) (text : Bytes → Bytes)
    (hroom : ∀ path ∈ paths, fs.HasRoom output path (tree path) (place path))
    (hclear : ∀ path ∈ paths, ∀ other ∈ paths,
      (tree other).node? (place path) ≠ some .directory) :
    ∃ g', writeModules now output stderr fs (paths.map fun path => (path, text path)) =
        ⟨[], stderr, true, g'⟩ ∧
      fs.OutputsWritten g' paths place text now ∧ fs.Grows g' ∧
      ∀ path ∈ paths, (tree path).Grows g' := by
  have hadds : ∀ path ∈ paths, fs.AddsDirectories (tree path) :=
    fun path hpath => (hroom path hpath).addsDirectories
  exact writeModules_outputs (.refl fs) grows_withOutputs hroom
    (fun path hpath => tree_grows_withOutputs hadds hpath)
    (fun path hpath => exists_file_withOutputs hroom hclear hpath)

/-! ## Outputs that were written -/

/-- A module that was written is a file in the place that its path leads to, over directories that
were made on the way. -/
theorem exists_place_of_writeModule {content : Bytes}
    (h : writeModule now output fs path content = (g, none)) :
    ∃ made location, fs.AddsDirectories made ∧
      made.writePlace (outputPath output path) = .ok location ∧
      g = made.put location (.file content now) := by
  unfold writeModule at h
  dsimp only at h
  split at h
  · cases h
  · rename_i made hmade
    rw [← outputPath] at h
    cases hplace : made.writePlace (outputPath output path) with
    | error error => simp [FileSystem.write, edited, hplace, Except.map] at h
    | ok location =>
        refine ⟨made, location, addsDirectories_of_makeDirectoriesWithin hmade, hplace, ?_⟩
        simpa [FileSystem.write, edited, hplace, Except.map] using h.symm

/-- The place that a path leads to, if it leads to any. -/
def destination (fs : FileSystem) (path : Bytes) : Location :=
  match fs.find path with
  | .ok (location, _) => location
  | .error _ => []

theorem destination_of_find {node : FileNode} (h : fs.find path = .ok (location, node)) :
    fs.destination path = location := by
  rw [destination, h]

/-- If all modules were written, then their outputs stand where their paths lead in the end. By
induction on the headers; what was written before is only added to. -/
theorem outputsWritten_of_succeeded {stderr : Bytes} {result : CommandResult}
    (h : writeModules now output stderr g (paths.map fun path => (path, text path)) = result)
    (hsucceeded : result.succeeded = true) :
    g.Grows result.files ∧
      g.OutputsWritten result.files paths
        (fun path => result.files.destination (outputPath output path)) text now ∧
      ∀ path ∈ paths, ∃ location node,
        result.files.find (outputPath output path) = .ok (location, node) := by
  induction paths generalizing g with
  | nil =>
      cases h
      exact ⟨.refl g, .nil, nofun⟩
  | cons path paths ih =>
      rw [List.map_cons, writeModules] at h
      split at h
      · rw [← h] at hsucceeded
        cases hsucceeded
      · rename_i written hwrite
        obtain ⟨made, location, hdirectories, hleads, rfl⟩ := exists_place_of_writeModule hwrite
        have hne := ne_nil_of_writePlace hleads
        have hput : made.Grows (made.put location (.file (text path) now)) :=
          (takesFile_of_writePlace hleads).grows_put hne
        obtain ⟨hgrows, hwritten, hfound⟩ := ih h
        obtain ⟨_, hnode, hsort⟩ := hgrows.node? (node?_put_self hne _)
        obtain ⟨content, modified, rfl⟩ := hsort.exists_file
        have hfind := find_of_writePlace hleads (hput.trans hgrows) hnode
        obtain rfl := destination_of_find hfind
        exact ⟨(hdirectories.grows.trans hput).trans hgrows, hwritten.cons hdirectories hne,
          List.forall_mem_cons.mpr ⟨⟨_, _, hfind⟩, hfound⟩⟩

/-- If all modules were written, each is read from its path, unless a later path leads to the same
file. -/
theorem read_of_succeeded {stderr : Bytes} {result : CommandResult} {front back : List Bytes}
    (h : writeModules now output stderr g (paths.map fun path => (path, text path)) = result)
    (hsucceeded : result.succeeded = true) (hpaths : paths = front ++ path :: back)
    (hback : ∀ other ∈ back, result.files.find (outputPath output other) ≠
      result.files.find (outputPath output path)) :
    result.files.read (outputPath output path) = .ok (text path) := by
  obtain ⟨-, hwritten, hfound⟩ := outputsWritten_of_succeeded h hsucceeded
  obtain ⟨location, node, hfind⟩ := hfound path (by simp [hpaths])
  have hnode := (find_eq_ok_iff.mp hfind).2
  have hapart : ∀ other ∈ back, result.files.destination (outputPath output other) ≠
      result.files.destination (outputPath output path) := by
    intro other hother hsame
    obtain ⟨location', node', hfind'⟩ := hfound other (by simp [hpaths, hother])
    rw [destination_of_find hfind, destination_of_find hfind'] at hsame
    subst hsame
    cases hnode.symm.trans (find_eq_ok_iff.mp hfind').2
    exact hback other hother (hfind'.trans hfind.symm)
  have hlast := hwritten.last front path back hpaths hapart
  rw [destination_of_find hfind] at hlast
  cases hnode.symm.trans hlast
  exact read_of_find hfind

end FileSystem

/-! ## Runs -/

open FileSystem (HasRoom outputPath)

/-- A run writes the renderings of its headers in their order. -/
theorem exists_run_eq_writeModules {env : Environment} {fs : FileSystem} {a : Arguments}
    {text : Bytes → Bytes}
    (hmany : 2 ≤ a.operands.length ∨
      a.operands ≠ [] ∧ (GenerateSettings.ofArguments env fs a).output ≠ [])
    (hrendered : ∀ path ∈ a.operands,
      (GenerateSettings.ofArguments env fs a).rendering fs path = .ok (text path)) :
    ∃ stderr, Command.generate.run env fs a =
      writeModules env.now (GenerateSettings.ofArguments env fs a).output stderr fs
        (a.operands.map fun path => (path, text path)) := by
  have hne : a.operands ≠ [] := by
    rcases hmany with hmany | hmany
    · exact List.ne_nil_of_length_pos (by omega)
    · exact hmany.1
  rw [Command.run_generate hne]
  exact GenerateSettings.runGenerate_eq_writeModules env.now (hmany.imp_right And.right) hrendered

/-- After `generate` the output of every header holds the header's rendering, unless a later header
of the list has its output in the same place. Elsewhere nothing has changed but for new directories,
and so a header is as it was unless its place is that of an output. What is asked for is that each
module can be written if it is the only one, and that no directory has to be made in its place. -/
theorem generate_outputs (env : Environment) (fs : FileSystem) (a : Arguments)
    (text : Bytes → Bytes) (tree : Bytes → FileSystem) (place : Bytes → Location)
    (hmany : 2 ≤ a.operands.length ∨
      a.operands ≠ [] ∧ (GenerateSettings.ofArguments env fs a).output ≠ [])
    (hrendered : ∀ path ∈ a.operands,
      (GenerateSettings.ofArguments env fs a).rendering fs path = .ok (text path))
    (hroom : ∀ path ∈ a.operands,
      fs.HasRoom (GenerateSettings.ofArguments env fs a).output path (tree path) (place path))
    (hclear : ∀ path ∈ a.operands, ∀ other ∈ a.operands,
      (tree other).node? (place path) ≠ some .directory) :
    ∃ stderr files, Command.generate.run env fs a = ⟨[], stderr, true, files⟩ ∧
      (∀ front path back, a.operands = front ++ path :: back →
        (∀ other ∈ back, place other ≠ place path) →
          files.node? (place path) = some (.file (text path) env.now) ∧
          files.read (outputPath (GenerateSettings.ofArguments env fs a).output path) =
            .ok (text path)) ∧
      (∀ location, (∀ path ∈ a.operands, place path ≠ location) →
        files.node? location = fs.node? location ∨
          fs.node? location = none ∧ files.node? location = some .directory) ∧
      ∀ path ∈ a.operands, ∀ location node, fs.find path = .ok (location, node) →
        (∀ other ∈ a.operands, place other ≠ location) →
          files.find path = .ok (location, node) := by
  obtain ⟨stderr, hrun⟩ := exists_run_eq_writeModules hmany hrendered
  obtain ⟨files, hwrite, hwritten, hgrows, htrees⟩ :=
    FileSystem.writeModules_of_room _ _ _ hroom hclear
  refine ⟨stderr, files, hrun.trans hwrite, ?_, hwritten.elsewhere, ?_⟩
  · intro front path back hoperands hback
    have hpath : path ∈ a.operands := by simp [hoperands]
    have hfile := hwritten.last front path back hoperands hback
    exact ⟨hfile, FileSystem.read_of_find
      (FileSystem.find_of_writePlace (hroom path hpath).leads (htrees path hpath) hfile)⟩
  · intro path _ location node hfind hother
    obtain ⟨hlocate, hnode⟩ := FileSystem.find_eq_ok_iff.mp hfind
    refine FileSystem.find_eq_ok_iff.mpr ⟨hgrows.locate hlocate, ?_⟩
    rcases hwritten.elsewhere location hother with hkept | ⟨hfree, -⟩
    · exact hkept.trans hnode
    · cases hfree.symm.trans hnode

/-! ## Headers of one name -/

/-- Two headers of one name, and one that is named like a module. -/
def twoDirectories : FileSystem :=
  ⟨[([ascii "x"], .directory),
    ([ascii "x", ascii "a.h"], .file (ascii "enum A \x7b X \x7d;\n") 0),
    ([ascii "y"], .directory),
    ([ascii "y", ascii "a.h"], .file (ascii "enum B \x7b Y \x7d;\n") 0),
    ([ascii "y", ascii "b.pxd"], .file (ascii "enum C \x7b Z \x7d;\n") 0)], []⟩

/-- The modules of these headers. -/
def enumModules (path : Bytes) : Bytes :=
  if path = ascii "x/a.h" then
    ascii "# Generated by hbind from a.h. DO NOT EDIT.\ncdef enum A:\n    X\n"
  else if path = ascii "y/a.h" then
    ascii "# Generated by hbind from a.h. DO NOT EDIT.\ncdef enum B:\n    Y\n"
  else ascii "# Generated by hbind from b.pxd. DO NOT EDIT.\ncdef enum C:\n    Z\n"

/-- The settings without flags but for an output directory. -/
def plainSettings (output : Bytes) : GenerateSettings :=
  ⟨⟨[], false, false, false, false⟩, output, none, ascii "    ", false, false⟩

theorem rendering_twoDirectories (output : Bytes) :
    ∀ path ∈ [ascii "x/a.h", ascii "y/a.h", ascii "y/b.pxd"],
      (plainSettings output).rendering twoDirectories path = .ok (enumModules path) := by
  have hfirst : twoDirectories.read (ascii "x/a.h") = .ok (ascii "enum A \x7b X \x7d;\n") := by
    rw [FileSystem.read, FileSystem.find_eq_overLinks]
    decide +kernel
  have hsecond : twoDirectories.read (ascii "y/a.h") = .ok (ascii "enum B \x7b Y \x7d;\n") := by
    rw [FileSystem.read, FileSystem.find_eq_overLinks]
    decide +kernel
  have hthird : twoDirectories.read (ascii "y/b.pxd") = .ok (ascii "enum C \x7b Z \x7d;\n") := by
    rw [FileSystem.read, FileSystem.find_eq_overLinks]
    decide +kernel
  have hrender (path text : Bytes) (e : Enum) (hread : twoDirectories.read path = .ok text)
      (hcontent : (plainSettings []).header.expander.readText path text = .ok ⟨[.enum e], []⟩)
      (hmodule : renderModule ((plainSettings []).moduleOptions path) [.enum e] =
        enumModules path) :
      (plainSettings output).rendering twoDirectories path = .ok (enumModules path) := by
    have hexpander : (plainSettings output).header.expander =
        (plainSettings []).header.expander := rfl
    have hoptions : (plainSettings output).moduleOptions path =
        (plainSettings []).moduleOptions path := rfl
    rw [← hexpander] at hcontent
    rw [GenerateSettings.rendering_of_read rfl hread hcontent, hoptions, hmodule]
  intro path hpath
  simp only [List.mem_cons, List.not_mem_nil, or_false] at hpath
  rcases hpath with rfl | rfl | rfl
  · exact hrender _ _ ⟨ascii "A", [ascii "X"]⟩ hfirst (by decide +kernel) (by decide +kernel)
  · exact hrender _ _ ⟨ascii "B", [ascii "Y"]⟩ hsecond (by decide +kernel) (by decide +kernel)
  · exact hrender _ _ ⟨ascii "C", [ascii "Z"]⟩ hthird (by decide +kernel) (by decide +kernel)

/-- The output directory can be made, and every header has room in it. -/
theorem hasRoom_twoDirectories :
    ∀ path ∈ [ascii "x/a.h", ascii "y/a.h", ascii "y/b.pxd"],
      twoDirectories.HasRoom (ascii "out") path (twoDirectories.put [ascii "out"] .directory)
        [ascii "out", bindingFileName path] := by
  have hmade : twoDirectories.makeDirectories (ascii "out") =
      (twoDirectories.put [ascii "out"] .directory, none) := by
    unfold FileSystem.makeDirectories FileSystem.makeDirectoriesWithin FileSystem.makeLast
      FileSystem.makeDirectory FileSystem.newPlace FileSystem.holder
    simp only [FileSystem.find_eq_overLinks, FileSystem.walk_eq_overLinks]
    decide +kernel
  have hleads : ∀ path ∈ [ascii "x/a.h", ascii "y/a.h", ascii "y/b.pxd"],
      (twoDirectories.put [ascii "out"] .directory).writePlace (outputPath (ascii "out") path) =
        .ok [ascii "out", bindingFileName path] := by
    simp only [FileSystem.writePlace_eq_overLinks]
    decide +kernel
  exact fun path hpath => ⟨hmade, hleads path hpath⟩

/-- Without an output directory, every header has room beside it. -/
theorem hasRoom_twoDirectories_beside :
    ∀ path ∈ [ascii "x/a.h", ascii "y/b.pxd"],
      twoDirectories.HasRoom [] path twoDirectories (Path.components (outputPath [] path)) := by
  have hmade : ∀ path ∈ [ascii "x/a.h", ascii "y/b.pxd"],
      twoDirectories.makeDirectories (outputDirectory [] path) = (twoDirectories, none) := by
    unfold FileSystem.makeDirectories FileSystem.makeDirectoriesWithin
    simp only [FileSystem.find_eq_overLinks]
    decide +kernel
  have hleads : ∀ path ∈ [ascii "x/a.h", ascii "y/b.pxd"],
      twoDirectories.writePlace (outputPath [] path) =
        .ok (Path.components (outputPath [] path)) := by
    simp only [FileSystem.writePlace_eq_overLinks]
    decide +kernel
  exact fun path hpath => ⟨hmade path hpath, hleads path hpath⟩

/-- The output directory is made, and the headers from two directories have their outputs there. -/
theorem generate_outputs_twoDirectories :
    ∃ stderr files, Command.generate.run ⟨some [], 1⟩ twoDirectories
        ⟨[⟨"output", ascii "out"⟩], [ascii "x/a.h", ascii "y/b.pxd"]⟩ = ⟨[], stderr, true, files⟩ ∧
      files.read (ascii "out/a.pxd") = .ok (enumModules (ascii "x/a.h")) ∧
      files.read (ascii "out/b.pxd") = .ok (enumModules (ascii "y/b.pxd")) ∧
      files.find (ascii "y/b.pxd") =
        .ok ([ascii "y", ascii "b.pxd"], .file (ascii "enum C \x7b Z \x7d;\n") 0) := by
  have hsettings : GenerateSettings.ofArguments ⟨some [], 1⟩ twoDirectories
      ⟨[⟨"output", ascii "out"⟩], [ascii "x/a.h", ascii "y/b.pxd"]⟩ =
        plainSettings (ascii "out") := by decide +kernel
  have hsub : [ascii "x/a.h", ascii "y/b.pxd"] ⊆
      [ascii "x/a.h", ascii "y/a.h", ascii "y/b.pxd"] := by decide +kernel
  have hfind : twoDirectories.find (ascii "y/b.pxd") =
      .ok ([ascii "y", ascii "b.pxd"], .file (ascii "enum C \x7b Z \x7d;\n") 0) := by
    rw [FileSystem.find_eq_overLinks]
    decide +kernel
  obtain ⟨stderr, files, hrun, hlast, -, hkept⟩ := generate_outputs ⟨some [], 1⟩ twoDirectories
    ⟨[⟨"output", ascii "out"⟩], [ascii "x/a.h", ascii "y/b.pxd"]⟩ enumModules
    (fun _ => twoDirectories.put [ascii "out"] .directory)
    (fun path => [ascii "out", bindingFileName path]) (.inl (by decide))
    (fun path hpath => hsettings ▸ rendering_twoDirectories _ path (hsub hpath))
    (hsettings ▸ fun path hpath => hasRoom_twoDirectories path (hsub hpath)) (by decide +kernel)
  refine ⟨stderr, files, hrun, ?_, ?_, ?_⟩
  · exact (hlast [] (ascii "x/a.h") [ascii "y/b.pxd"] rfl (by decide +kernel)).2
  · exact (hlast [ascii "x/a.h"] (ascii "y/b.pxd") [] rfl (List.forall_mem_nil _)).2
  · exact hkept (ascii "y/b.pxd") (by decide +kernel) _ _ hfind (by decide +kernel)

theorem twoDirectories_holds_no_module (location : Location) (modified : Int) :
    twoDirectories.node? location ≠ some (.file (enumModules (ascii "x/a.h")) modified) := by
  intro hnode
  have hne : location ≠ [] := by
    rintro rfl
    cases hnode
  rw [FileSystem.node?_eq_lookup hne] at hnode
  obtain ⟨before, behind, hnodes, -⟩ := List.lookup_eq_some_iff.mp hnode
  have hmem : (location, FileNode.file (enumModules (ascii "x/a.h")) modified) ∈
      twoDirectories.nodes := by simp [hnodes]
  simp only [twoDirectories, List.mem_cons, Prod.mk.injEq, FileNode.file.injEq, reduceCtorEq,
    and_false, List.not_mem_nil, or_false, false_or] at hmem
  rcases hmem with ⟨-, htext, -⟩ | ⟨-, htext, -⟩ | ⟨-, htext, -⟩
  · exact absurd htext (by decide +kernel)
  · exact absurd htext (by decide +kernel)
  · exact absurd htext (by decide +kernel)

/-- A run with some of these headers, each of which has room for its module. -/
theorem run_twoDirectories (settings : List Setting) (output : Bytes) (paths : List Bytes)
    {tree : Bytes → FileSystem} {place : Bytes → Location}
    (hsettings : GenerateSettings.ofArguments ⟨some [], 1⟩ twoDirectories ⟨settings, paths⟩ =
      plainSettings output)
    (hmany : 2 ≤ paths.length)
    (hsub : paths ⊆ [ascii "x/a.h", ascii "y/a.h", ascii "y/b.pxd"])
    (hroom : ∀ path ∈ paths, twoDirectories.HasRoom output path (tree path) (place path))
    (hclear : ∀ path ∈ paths, ∀ other ∈ paths,
      (tree other).node? (place path) ≠ some .directory) :
    ∃ stderr files, Command.generate.run ⟨some [], 1⟩ twoDirectories ⟨settings, paths⟩ =
        ⟨[], stderr, true, files⟩ ∧
      twoDirectories.OutputsWritten files paths place enumModules 1 ∧
      ∀ path ∈ paths, (tree path).Grows files := by
  obtain ⟨stderr, hrun⟩ := exists_run_eq_writeModules (a := ⟨settings, paths⟩) (.inl hmany)
    (hsettings ▸ fun path hpath => rendering_twoDirectories output path (hsub hpath))
  rw [hsettings] at hrun
  obtain ⟨files, hwrite, hwritten, -, htrees⟩ := FileSystem.writeModules_of_room _ _ _ hroom hclear
  exact ⟨stderr, files, hrun.trans hwrite, hwritten, htrees⟩

/-- Headers of one name in two directories have one output in the output directory, and the first
one's module is nowhere. Without an output directory, a header that is named like a module is
written over. -/
theorem generate_overwrites :
    (∃ stderr files, Command.generate.run ⟨some [], 1⟩ twoDirectories
        ⟨[⟨"output", ascii "out"⟩], [ascii "x/a.h", ascii "y/a.h"]⟩ = ⟨[], stderr, true, files⟩ ∧
      (∀ path ∈ [ascii "x/a.h", ascii "y/a.h"],
        (plainSettings (ascii "out")).rendering twoDirectories path = .ok (enumModules path)) ∧
      ∀ location modified,
        files.node? location ≠ some (.file (enumModules (ascii "x/a.h")) modified)) ∧
      ∃ stderr files, Command.generate.run ⟨some [], 1⟩ twoDirectories
          ⟨[], [ascii "x/a.h", ascii "y/b.pxd"]⟩ = ⟨[], stderr, true, files⟩ ∧
        twoDirectories.read (ascii "y/b.pxd") = .ok (ascii "enum C \x7b Z \x7d;\n") ∧
        files.read (ascii "y/b.pxd") = .ok (enumModules (ascii "y/b.pxd")) := by
  constructor
  · have hsub : [ascii "x/a.h", ascii "y/a.h"] ⊆
        [ascii "x/a.h", ascii "y/a.h", ascii "y/b.pxd"] := by decide +kernel
    obtain ⟨stderr, files, hrun, hwritten, -⟩ := run_twoDirectories
      [⟨"output", ascii "out"⟩] (ascii "out") [ascii "x/a.h", ascii "y/a.h"] (by decide +kernel)
      (Nat.le_refl 2) hsub (fun path hpath => hasRoom_twoDirectories path (hsub hpath))
      (by decide +kernel)
    refine ⟨stderr, files, hrun, fun path hpath => rendering_twoDirectories _ path (hsub hpath), ?_⟩
    intro location modified hfile
    by_cases hplace : location = [ascii "out", ascii "a.pxd"]
    · have hlast := hwritten.last [ascii "x/a.h"] (ascii "y/a.h") [] rfl (List.forall_mem_nil _)
      have hsame : bindingFileName (ascii "y/a.h") = ascii "a.pxd" := by decide +kernel
      rw [hsame, ← hplace, hfile] at hlast
      have htext : enumModules (ascii "x/a.h") = enumModules (ascii "y/a.h") :=
        (FileNode.file.inj (Option.some.inj hlast)).1
      exact absurd htext (by decide +kernel)
    · have hother : ∀ path ∈ [ascii "x/a.h", ascii "y/a.h"],
          [ascii "out", bindingFileName path] = [ascii "out", ascii "a.pxd"] := by decide +kernel
      rcases hwritten.elsewhere location
        fun path hpath h => hplace (h.symm.trans (hother path hpath)) with hkept | ⟨-, hnew⟩
      · exact twoDirectories_holds_no_module location modified (hkept.symm.trans hfile)
      · cases hnew.symm.trans hfile
  · have hsub : [ascii "x/a.h", ascii "y/b.pxd"] ⊆
        [ascii "x/a.h", ascii "y/a.h", ascii "y/b.pxd"] := by decide +kernel
    have hroom := hasRoom_twoDirectories_beside
    obtain ⟨stderr, files, hrun, hwritten, htrees⟩ := run_twoDirectories [] []
      [ascii "x/a.h", ascii "y/b.pxd"] (by decide +kernel) (Nat.le_refl 2) hsub hroom
      (by decide +kernel)
    have hmem : ascii "y/b.pxd" ∈ [ascii "x/a.h", ascii "y/b.pxd"] := by simp
    have hlast := hwritten.last [ascii "x/a.h"] (ascii "y/b.pxd") [] rfl (List.forall_mem_nil _)
    have hfind := FileSystem.find_of_writePlace (hroom _ hmem).leads (htrees _ hmem) hlast
    refine ⟨stderr, files, hrun, ?_, FileSystem.read_of_find hfind⟩
    rw [FileSystem.read, FileSystem.find_eq_overLinks]
    decide +kernel

end HeaderBinding
