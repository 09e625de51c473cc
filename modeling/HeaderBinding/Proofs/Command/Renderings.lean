import HeaderBinding.Command.Run
import HeaderBinding.Proofs.Expansion.CacheAgreement
import HeaderBinding.Proofs.Expansion.Includes

/-!
# Renderings of headers

The headers of one run share a cache, which is filled while the file system does not change. What is
generated for a header is therefore what would be generated for it alone.
-/

namespace HeaderBinding

variable {fs : FileSystem} {cache : Option HeaderCache} {path : Bytes} {paths : List Bytes}

/-! ## One header -/

namespace HeaderSettings

theorem load_eq_uncached {s : HeaderSettings} (h : s.expander.FaithfulCache fs cache)
    (path : Bytes) : (s.load fs cache path).1 = (s.load fs none path).1 := by
  have hexpand := Expander.expand_eq_uncached h path
  unfold load
  split
  · cases hcached : s.expander.expand fs cache path with
    | mk out cache' =>
        cases huncached : s.expander.expand fs none path with
        | mk out₀ cache₀ =>
            rw [hcached, huncached] at hexpand
            cases hexpand
            cases out <;> rfl
  · rfl

/-- Loading a header keeps a cache faithful. -/
theorem faithfulCache_load {s : HeaderSettings} (h : s.expander.FaithfulCache fs cache)
    (path : Bytes) : s.expander.FaithfulCache fs (s.load fs cache path).2 := by
  have hexpand := h.expand path
  unfold load
  split
  · cases hcached : s.expander.expand fs cache path with
    | mk out cache' =>
        rw [hcached] at hexpand
        cases out <;> exact hexpand
  · exact h

end HeaderSettings

theorem faithfulCache_ofCapacity? (e : Expander) (fs : FileSystem) (capacity : Int) :
    e.FaithfulCache fs (HeaderCache.ofCapacity? capacity) := by
  intro c hc entry hentry
  rw [HeaderCache.entries_ofCapacity? hc] at hentry
  cases hentry

/-! ## The headers of a run -/

namespace GenerateSettings

variable {s : GenerateSettings}

/-- What is generated for a header alone. -/
def generate (s : GenerateSettings) (fs : FileSystem) (path : Bytes) : Generated :=
  match (s.header.load fs none path).1 with
  | .error error => ⟨path, [], .error error⟩
  | .ok content =>
    ⟨path, warnings fs content, .ok (renderModule (s.moduleOptions path) content.declarations)⟩

/-- The module text for a header alone. -/
def rendering (s : GenerateSettings) (fs : FileSystem) (path : Bytes) : Except CommandError Bytes :=
  (s.generate fs path).content

@[simp] theorem generate_path (s : GenerateSettings) (fs : FileSystem) (path : Bytes) :
    (s.generate fs path).path = path := by
  unfold generate
  split <;> rfl

/-- Without expansion only the header itself is read. -/
theorem rendering_of_read {text : Bytes} {content : HeaderContent}
    (hexpand : s.header.expand = false) (hread : fs.read path = .ok text)
    (hcontent : s.header.expander.readText path text = .ok content) :
    s.rendering fs path =
      .ok (renderModule (s.moduleOptions path) content.declarations) := by
  have hload : (s.header.load fs none path).1 = .ok content := by
    have hfind : ∃ found, fs.find path = .ok found := by
      unfold FileSystem.read at hread
      cases hfind : fs.find path with
      | error error =>
          rw [hfind] at hread
          cases hread
      | ok found => exact ⟨found, rfl⟩
    obtain ⟨found, hfind⟩ := hfind
    rw [HeaderSettings.load, hexpand, if_neg (by decide), HeaderSettings.loadSingle, hfind,
      Expander.readFile_of_read hread, hcontent]
  rw [rendering, generate, hload]

/-- By induction on the headers; what carries it is that the cache stays faithful. -/
theorem generateModules_eq_map (h : s.header.expander.FaithfulCache fs cache)
    (paths : List Bytes) : generateModules s fs cache paths = paths.map (s.generate fs) := by
  induction paths generalizing cache with
  | nil => rfl
  | cons path paths ih =>
      have hload := HeaderSettings.load_eq_uncached h path
      have hcache := HeaderSettings.faithfulCache_load h path
      rw [generateModules, List.map_cons, generate]
      cases hloaded : s.header.load fs cache path with
      | mk out cache' =>
          rw [hloaded] at hload hcache
          rw [← hload]
          cases out <;> rw [← ih hcache]

/-- If all headers are rendered, their renderings are the modules. -/
theorem allGenerated_eq_ok {text : Bytes → Bytes}
    (h : ∀ path ∈ paths, s.rendering fs path = .ok (text path)) :
    allGenerated (paths.map (s.generate fs)) = .ok (paths.map fun path => (path, text path)) := by
  induction paths with
  | nil => rfl
  | cons path paths ih =>
      obtain ⟨hpath, hpaths⟩ := List.forall_mem_cons.mp h
      rw [rendering] at hpath
      rw [List.map_cons, allGenerated, hpath, ih hpaths, generate_path]
      rfl

/-- The renderings are written unless there is just one and no output directory. -/
theorem runGenerate_eq_writeModules (now : Int) {text : Bytes → Bytes}
    (hmany : 2 ≤ paths.length ∨ s.output ≠ [])
    (h : ∀ path ∈ paths, s.rendering fs path = .ok (text path)) :
    ∃ stderr, runGenerate now s fs paths =
      writeModules now s.output stderr fs (paths.map fun path => (path, text path)) := by
  refine ⟨(paths.map (s.generate fs)).flatMap Generated.warnings, ?_⟩
  rw [runGenerate, generateModules_eq_map (faithfulCache_ofCapacity? _ _ _),
    allGenerated_eq_ok h]
  match paths with
  | [] => rfl
  | [path] =>
      have hout : s.output ≠ [] := hmany.resolve_left (by simp)
      simp [hout]
  | _ :: _ :: _ => rfl

end GenerateSettings

/-- With a header to generate, the command is its run. -/
theorem Command.run_generate {env : Environment} {fs : FileSystem} {a : Arguments}
    (h : a.operands ≠ []) :
    Command.generate.run env fs a = runGenerate env.now (.ofArguments env fs a) fs a.operands := by
  obtain ⟨path, paths, hoperands⟩ := List.exists_cons_of_ne_nil h
  unfold Command.run
  rw [hoperands]

end HeaderBinding
