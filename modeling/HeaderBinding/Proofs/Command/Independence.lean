import HeaderBinding.Proofs.Command.Outputs
import HeaderBinding.Proofs.Expansion.Modes

/-!
# All or nothing

A run writes after all of its headers are generated. If one of them cannot be, there is no output at
all, and otherwise each has the output that a run for it alone has: neither the other headers nor
what they leave in the cache play a part.
-/

namespace HeaderBinding

/-! ## A header alone -/

namespace Arguments

variable {a : Arguments} {path : Bytes} {flag : String}

/-- The same flags for one header, whose module is printed. -/
def alone (a : Arguments) (path : Bytes) : Arguments :=
  ⟨a.settings.filter (·.flag != "output"), [path]⟩

@[simp] theorem alone_operands : (a.alone path).operands = [path] := rfl

theorem values_alone (h : flag ≠ "output") : (a.alone path).values flag = a.values flag := by
  unfold values alone
  rw [List.filter_filter]
  congr 1
  refine List.filter_congr fun s _ => ?_
  by_cases hs : s.flag = flag
  · simp [hs, h]
  · simp [hs]

theorem values_alone_output : (a.alone path).values "output" = [] := by
  unfold values alone
  rw [List.filter_filter, List.map_eq_nil_iff, List.filter_eq_nil_iff]
  simp

theorem last?_alone (h : flag ≠ "output") : (a.alone path).last? flag = a.last? flag := by
  rw [last?, values_alone h, last?]

theorem isOn_alone (h : flag ≠ "output") : (a.alone path).isOn flag = a.isOn flag := by
  rw [isOn, last?_alone h, isOn]

end Arguments

namespace GenerateSettings

variable {s : GenerateSettings} {fs : FileSystem} {path : Bytes} {paths : List Bytes}

theorem ofArguments_alone (env : Environment) (fs : FileSystem) (a : Arguments) (path : Bytes) :
    ofArguments env fs (a.alone path) = { ofArguments env fs a with output := [] } := by
  have houtput : (a.alone path).last? "output" = none := by
    rw [Arguments.last?, Arguments.values_alone_output]
    rfl
  simp [ofArguments, HeaderSettings.ofArguments, houtput, Arguments.last?_alone,
    Arguments.values_alone, Arguments.isOn_alone]

/-- A header that is the only one is printed if there is no output directory. -/
theorem runGenerate_singleton (now : Int) {content : Bytes} (hout : s.output = [])
    (h : s.rendering fs path = .ok content) :
    runGenerate now s fs [path] = ⟨content, (s.generate fs path).warnings, true, fs⟩ := by
  have hcontent : (s.generate fs path).content = .ok content := h
  rw [runGenerate, generateModules_eq_map (faithfulCache_ofCapacity? _ _ _)]
  simp [allGenerated, hcontent, hout]

/-- The module of a header that is expanded holds what it is expanded to. -/
theorem rendering_of_expands {reads : List Bytes} {x : Expansion} {cache : Option HeaderCache}
    (hexpand : s.header.expand = true)
    (h : s.header.expander.Expands fs none path reads (.ok x) cache) :
    s.rendering fs path = .ok (renderModule (s.moduleOptions path) x.declarations) := by
  have hload : (s.header.load fs none path).1 = .ok ⟨x.declarations, x.diagnostics⟩ := by
    rw [HeaderSettings.load, if_pos hexpand]
    have hx := h.eq_expand
    generalize s.header.expander.expand fs none path = out at hx
    obtain ⟨out, cache'⟩ := out
    cases hx
    rfl
  rw [rendering, generate, hload]

/-! ## All headers -/

theorem allGenerated_eq_error {gs : List Generated}
    (h : ∃ g ∈ gs, ∃ error, g.content = .error error) :
    ∃ error, allGenerated gs = .error error := by
  induction gs with
  | nil =>
      obtain ⟨g, hg, -⟩ := h
      cases hg
  | cons g gs ih =>
      rw [allGenerated]
      cases hcontent : g.content with
      | error error => exact ⟨error, rfl⟩
      | ok content =>
          obtain ⟨g', hg', error, herror⟩ := h
          rcases List.mem_cons.mp hg' with rfl | hg'
          · cases hcontent.symm.trans herror
          · obtain ⟨error, hothers⟩ := ih ⟨g', hg', error, herror⟩
            rw [hothers]
            exact ⟨error, rfl⟩

/-- If a header cannot be generated, the run ends with an error before anything is written. -/
theorem runGenerate_of_error (now : Int)
    (h : ∃ path ∈ paths, ∃ error, s.rendering fs path = .error error) :
    ∃ stderr error, runGenerate now s fs paths = .failed fs [] stderr error := by
  obtain ⟨path, hpath, error, herror⟩ := h
  have hall : ∃ error, allGenerated (paths.map (s.generate fs)) = .error error :=
    allGenerated_eq_error ⟨_, List.mem_map_of_mem hpath, error, herror⟩
  obtain ⟨error, hall⟩ := hall
  refine ⟨(paths.map (s.generate fs)).flatMap Generated.warnings, error, ?_⟩
  rw [runGenerate, generateModules_eq_map (faithfulCache_ofCapacity? _ _ _), hall]

end GenerateSettings

open GenerateSettings
open FileSystem (outputPath)

/-- Alone, a header is printed as its rendering, which does not depend on the output directory. -/
theorem stdout_generate_alone (env : Environment) (fs : FileSystem) (a : Arguments)
    {path content : Bytes}
    (h : (GenerateSettings.ofArguments env fs a).rendering fs path = .ok content) :
    (Command.generate.run env fs (a.alone path)).stdout = content := by
  have hprinted : ({ GenerateSettings.ofArguments env fs a with output := [] } :
      GenerateSettings).rendering fs path = .ok content := h
  rw [Command.run_generate (List.cons_ne_nil _ _), ofArguments_alone, Arguments.alone_operands,
    runGenerate_singleton env.now rfl hprinted]

/-- If a header of a run cannot be loaded or rendered, nothing is printed and no file or directory
is changed. Whatever the other headers are, each is generated as with a new cache of its own, with the
same warnings, module and error. If all of them are generated, then the run prints or writes the
modules that runs for each of them alone print, and when it has written them, each is read from its
path, unless the path of a later one leads to the same file. -/
theorem generate_allOrNothing (env : Environment) (fs : FileSystem) (a : Arguments) :
    let s := GenerateSettings.ofArguments env fs a
    let generated := generateModules s fs (HeaderCache.ofCapacity? 256) a.operands
    let run := Command.generate.run env fs a
    let printed (path : Bytes) := (Command.generate.run env fs (a.alone path)).stdout
    ((∃ g ∈ generated, ∃ error, g.content = .error error) →
      run.succeeded = false ∧ run.stdout = [] ∧ run.files = fs) ∧
    generated = a.operands.flatMap (fun path =>
      generateModules s fs (HeaderCache.ofCapacity? 256) [path]) ∧
    ((∀ g ∈ generated, ∃ content, g.content = .ok content) →
      generated.map (fun g => (g.path, g.content)) =
          a.operands.map (fun path => (path, .ok (printed path))) ∧
        (∀ path, a.operands = [path] → s.output = [] → run.stdout = printed path) ∧
        (2 ≤ a.operands.length ∨ a.operands ≠ [] ∧ s.output ≠ [] →
          (∃ stderr, run = writeModules env.now s.output stderr fs
            (a.operands.map fun path => (path, printed path))) ∧
          (run.succeeded = true → ∀ front path back, a.operands = front ++ path :: back →
            (∀ other ∈ back, run.files.find (outputPath s.output other) ≠
              run.files.find (outputPath s.output path)) →
            run.files.read (outputPath s.output path) = .ok (printed path)))) := by
  intro s generated run printed
  have hgenerated : generated = a.operands.map (s.generate fs) :=
    generateModules_eq_map (faithfulCache_ofCapacity? _ _ _) _
  have hrun (hne : a.operands ≠ []) : run = runGenerate env.now s fs a.operands :=
    Command.run_generate hne
  refine ⟨?_, ?_, ?_⟩
  · rintro ⟨g, hg, error, herror⟩
    rw [hgenerated] at hg
    obtain ⟨path, hpath, rfl⟩ := List.mem_map.mp hg
    have hfailed : ∃ stderr error,
        runGenerate env.now s fs a.operands = .failed fs [] stderr error :=
      runGenerate_of_error env.now ⟨path, hpath, error, herror⟩
    obtain ⟨stderr, error, hfailed⟩ := hfailed
    rw [hrun (List.ne_nil_of_mem hpath), hfailed]
    exact ⟨rfl, rfl, rfl⟩
  · rw [hgenerated, List.map_eq_flatMap]
    refine List.flatMap_congr fun path _ => ?_
    exact (generateModules_eq_map (faithfulCache_ofCapacity? _ _ _) [path]).symm
  · intro hall
    rw [hgenerated] at hall
    have hprinted : ∀ path ∈ a.operands, s.rendering fs path = .ok (printed path) := by
      intro path hpath
      obtain ⟨content, hcontent⟩ := hall _ (List.mem_map_of_mem hpath)
      have halone : printed path = content := stdout_generate_alone env fs a hcontent
      rw [halone]
      exact hcontent
    refine ⟨?_, ?_, ?_⟩
    · rw [hgenerated, List.map_map]
      refine List.map_congr_left fun path hpath => ?_
      exact Prod.ext (s.generate_path fs path) (hprinted path hpath)
    · intro path hoperands hout
      rw [hrun (by simp [hoperands]), hoperands,
        runGenerate_singleton env.now hout (hprinted path (by simp [hoperands]))]
    · intro hmany
      obtain ⟨stderr, hwritten⟩ := exists_run_eq_writeModules hmany hprinted
      refine ⟨⟨stderr, hwritten⟩, ?_⟩
      intro hsucceeded front path back hoperands hback
      exact FileSystem.read_of_succeeded hwritten.symm hsucceeded hoperands hback

/-! ## Headers that fail and headers that share a cache -/

/-- The settings without flags but for expansion. -/
def searchingNowhere (expand : Bool) : GenerateSettings :=
  ⟨⟨[], false, false, false, expand⟩, [], none, ascii "    ", false, false⟩

theorem settings_brokenHeaders :
    GenerateSettings.ofArguments ⟨some [], 1⟩ Expander.brokenHeaders
      ⟨[], [ascii "a", ascii "b"]⟩ = searchingNowhere false :=
  rfl

theorem settings_cyclicHeaders :
    GenerateSettings.ofArguments ⟨some [], 1⟩ Expander.cyclicHeaders
      ⟨[⟨"expand", ascii "true"⟩], [ascii "a", ascii "b"]⟩ = searchingNowhere true :=
  rfl

theorem expander_searchingNowhere (expand : Bool) :
    (searchingNowhere expand).header.expander = Expander.noSearch := rfl

/-- The second of the broken headers is not generated. -/
theorem rendering_brokenHeaders :
    ∃ error, (searchingNowhere false).rendering Expander.brokenHeaders (ascii "b") =
      .error error := by
  have hread : Expander.brokenHeaders.read (ascii "b") = .ok (ascii "int x;\n") := by
    rw [FileSystem.read, FileSystem.find_eq_overLinks]
    decide +kernel
  have htext : Expander.noSearch.readText (ascii "b") (ascii "int x;\n") = .error (.broken
      ((Diagnostic.ofFault Expander.scalarFault).setSource (ascii "b") (ascii "b"))) := by
    decide +kernel
  have hload : ∃ error, ((searchingNowhere false).header.load Expander.brokenHeaders none
      (ascii "b")).1 = .error error := by
    rw [HeaderSettings.load, if_neg (by decide), HeaderSettings.loadSingle,
      expander_searchingNowhere, Expander.readFile_of_read hread, htext]
    cases Expander.brokenHeaders.find (ascii "b") with
    | error error => exact ⟨_, rfl⟩
    | ok found => exact ⟨_, rfl⟩
  obtain ⟨error, hload⟩ := hload
  exact ⟨error, by rw [rendering, generate, hload]⟩

theorem rendering_cyclicHeaders :
    (searchingNowhere true).rendering Expander.cyclicHeaders (ascii "a") =
        .ok (ascii "# Generated by hbind from a. DO NOT EDIT.\n# include \"l\"\n# include \"a\"\n") ∧
      (searchingNowhere true).rendering Expander.cyclicHeaders (ascii "b") =
        .ok (ascii "# Generated by hbind from b. DO NOT EDIT.\n# include \"a\"\n# include \"l\"\n") := by
  obtain ⟨hfirst, hsecond, hthere, hback⟩ := Expander.cyclicHeaders_includes
  have hroot : Expander.cyclicHeaders.resolve (ascii "b") = .ok (ascii "/b") := by
    rw [FileSystem.resolve_eq_overLinks]
    decide +kernel
  have hexpands : Expander.noSearch.Expands Expander.cyclicHeaders none (ascii "b")
      [ascii "/b", ascii "/a"]
      (.ok ⟨[.inclusion ⟨ascii "a", .custom⟩, .inclusion ⟨ascii "l", .custom⟩], [],
        [ascii "/b", ascii "/a"]⟩) none :=
    .resolved hroot
      (.read (.uncached hsecond)
        (.nested rfl hback (by decide)
          (.read (.uncached hfirst)
            (.known rfl hthere (by decide) (.known rfl hthere (by decide) .done)))
          .done))
  constructor
  · rw [rendering_of_expands (s := searchingNowhere true) rfl Expander.expands_cyclicHeaders]
    decide +kernel
  · rw [rendering_of_expands (s := searchingNowhere true) rfl hexpands]
    decide +kernel

/-- The cyclic headers have room for modules beside them. -/
theorem hasRoom_cyclicHeaders :
    ∀ path ∈ [ascii "a", ascii "b"],
      Expander.cyclicHeaders.HasRoom [] path Expander.cyclicHeaders [bindingFileName path] := by
  have hmade : ∀ path ∈ [ascii "a", ascii "b"],
      Expander.cyclicHeaders.makeDirectories (outputDirectory [] path) =
        (Expander.cyclicHeaders, none) := by
    unfold FileSystem.makeDirectories FileSystem.makeDirectoriesWithin
    simp only [FileSystem.find_eq_overLinks]
    decide +kernel
  have hleads : ∀ path ∈ [ascii "a", ascii "b"],
      Expander.cyclicHeaders.writePlace (outputPath [] path) = .ok [bindingFileName path] := by
    simp only [FileSystem.writePlace_eq_overLinks]
    decide +kernel
  exact fun path hpath => ⟨hmade path hpath, hleads path hpath⟩

/-- Whatever their modules hold, both are written, and not to one file. -/
theorem writeModules_cyclicHeaders (stderr : Bytes) (text : Bytes → Bytes) :
    ∃ files, writeModules 1 [] stderr Expander.cyclicHeaders
        ([ascii "a", ascii "b"].map fun path => (path, text path)) = ⟨[], stderr, true, files⟩ ∧
      files.find (outputPath [] (ascii "b")) ≠ files.find (outputPath [] (ascii "a")) := by
  have hroom := hasRoom_cyclicHeaders
  obtain ⟨files, hwrite, hwritten, -, htrees⟩ :=
    FileSystem.writeModules_of_room 1 stderr text hroom (by decide +kernel)
  have hfirst := hwritten.last [] (ascii "a") [ascii "b"] rfl (by decide +kernel)
  have hsecond := hwritten.last [ascii "a"] (ascii "b") [] rfl (List.forall_mem_nil _)
  refine ⟨files, hwrite, ?_⟩
  have ha : ascii "a" ∈ [ascii "a", ascii "b"] := by simp
  have hb : ascii "b" ∈ [ascii "a", ascii "b"] := by simp
  rw [FileSystem.find_of_writePlace (hroom _ ha).leads (htrees _ ha) hfirst,
    FileSystem.find_of_writePlace (hroom _ hb).leads (htrees _ hb) hsecond]
  have hnames : [bindingFileName (ascii "b")] ≠ [bindingFileName (ascii "a")] := by decide +kernel
  exact fun hsame => hnames (congrArg Prod.fst (Except.ok.inj hsame))

/-- The second header is broken, so the first one is not written either. Two headers that include
each other are read once, the second one then from the cache, and are written as they are printed
alone: that is what is read from their outputs. -/
theorem generate_allOrNothing_sharedHeaders :
    let broken := Command.generate.run ⟨some [], 1⟩ Expander.brokenHeaders
      ⟨[], [ascii "a", ascii "b"]⟩
    let a : Arguments := ⟨[⟨"expand", ascii "true"⟩], [ascii "a", ascii "b"]⟩
    let printed (path : Bytes) :=
      (Command.generate.run ⟨some [], 1⟩ Expander.cyclicHeaders (a.alone path)).stdout
    let run := Command.generate.run ⟨some [], 1⟩ Expander.cyclicHeaders a
    (broken.succeeded = false ∧ broken.stdout = [] ∧ broken.files = Expander.brokenHeaders) ∧
    printed (ascii "b") =
        ascii "# Generated by hbind from b. DO NOT EDIT.\n# include \"a\"\n# include \"l\"\n" ∧
      (∃ stderr, run = writeModules 1 [] stderr Expander.cyclicHeaders
        [(ascii "a", printed (ascii "a")), (ascii "b", printed (ascii "b"))]) ∧
      run.succeeded = true ∧
      run.files.read (ascii "a.pxd") = .ok (printed (ascii "a")) ∧
      run.files.read (ascii "b.pxd") = .ok (printed (ascii "b")) := by
  intro broken a printed run
  constructor
  · refine (generate_allOrNothing _ _ _).1 ?_
    rw [settings_brokenHeaders, generateModules_eq_map (faithfulCache_ofCapacity? _ _ _)]
    obtain ⟨error, herror⟩ := rendering_brokenHeaders
    exact ⟨_, List.mem_map_of_mem (List.mem_cons_of_mem _ List.mem_cons_self), error, herror⟩
  · obtain ⟨-, -, hprinted⟩ := generate_allOrNothing ⟨some [], 1⟩ Expander.cyclicHeaders a
    rw [settings_cyclicHeaders,
      generateModules_eq_map (faithfulCache_ofCapacity? _ _ _)] at hprinted
    obtain ⟨hfirst, hsecond⟩ := rendering_cyclicHeaders
    obtain ⟨hcontents, -, hmany⟩ := hprinted (by
      intro g hg
      simp only [a, List.map_cons, List.map_nil, List.mem_cons, List.not_mem_nil, or_false] at hg
      rcases hg with rfl | rfl
      · exact ⟨_, hfirst⟩
      · exact ⟨_, hsecond⟩)
    obtain ⟨⟨stderr, hwritten⟩, hread⟩ := hmany (.inl (by decide))
    obtain ⟨files, hwrite, hapart⟩ := writeModules_cyclicHeaders stderr printed
    have hrun : run = ⟨[], stderr, true, files⟩ := hwritten.trans hwrite
    have hsucceeded : run.succeeded = true := by rw [hrun]
    refine ⟨?_, ⟨stderr, hwritten⟩, hsucceeded, ?_, ?_⟩
    · simp only [a, List.map_cons, List.map_nil, List.cons.injEq, Prod.mk.injEq] at hcontents
      obtain ⟨-, ⟨-, hcontent⟩, -⟩ := hcontents
      exact Except.ok.inj (hcontent.symm.trans hsecond)
    · refine hread hsucceeded [] (ascii "a") [ascii "b"] rfl (List.forall_mem_singleton.mpr ?_)
      rw [show (Command.generate.run ⟨some [], 1⟩ Expander.cyclicHeaders a).files = files from
        congrArg CommandResult.files hrun]
      exact hapart
    · exact hread hsucceeded [ascii "a"] (ascii "b") [] rfl (List.forall_mem_nil _)

end HeaderBinding
