import HeaderBinding.Proofs.Expansion.CacheAgreement
import HeaderBinding.Proofs.FileSystem.Evaluation

/-!
# What headers include

`Finds` says which file a quoted include names, and `Splices` what going through declarations with
the included headers behind their includes gives, in terms of the file system only: neither a cache
nor the keys of declarations play a part. An expansion without a cache that succeeds follows it, and
its declarations are those of the spliced sequence, added one by one.
-/

namespace HeaderBinding

/-! ## The file of an include -/

/-- A path leads to something other than a directory. -/
def FileSystem.HoldsFile (fs : FileSystem) (path : Bytes) : Prop :=
  ∃ location node, fs.find path = .ok (location, node) ∧ node ≠ .directory

theorem FileSystem.isFile_eq (fs : FileSystem) : fs.isFile = fun path =>
    match fs.find path with
    | .ok (_, node) => node != .directory
    | .error _ => false := by
  funext path
  unfold isFile
  rcases fs.find path with error | ⟨location, node⟩
  · rfl
  · cases node <;> rfl

theorem FileSystem.isFile_eq_true_iff {fs : FileSystem} {path : Bytes} :
    fs.isFile path = true ↔ fs.HoldsFile path := by
  unfold isFile HoldsFile
  rcases hfind : fs.find path with error | ⟨location, node⟩
  · simp
  · cases node <;> simp

theorem Declaration.quotedInclude?_eq_some_iff {d : Declaration} {name : Bytes} :
    d.quotedInclude? = some name ↔ d = .inclusion ⟨name, .custom⟩ := by
  rcases d with ⟨_, _ | _⟩ | _ | _ | _ | _ <;> simp [quotedInclude?]

namespace Expander

/-- A quoted include in the header at a path names the file with a canonical path: it is the first
place that holds a file, in the directory of the header or behind it in a search path. -/
def Finds (e : Expander) (fs : FileSystem) (path name target : Bytes) : Prop :=
  ∃ before place after,
    Path.join (Path.directory path) name :: e.searchPaths.map (fun s => Path.join s name) =
      before ++ place :: after ∧
    (∀ earlier ∈ before, ¬fs.HoldsFile earlier) ∧ fs.HoldsFile place ∧ fs.resolve place = .ok target

/-- The header at a path includes the one at a canonical path. -/
def Includes (e : Expander) (fs : FileSystem) (path target : Bytes) : Prop :=
  ∃ content name, e.readFile fs path = .ok content ∧
    .inclusion ⟨name, .custom⟩ ∈ content.declarations ∧ e.Finds fs path name target

variable {e : Expander} {fs : FileSystem} {path name target : Bytes}

theorem lookUp?_eq_some_iff {directory place : Bytes} :
    e.lookUp? fs directory name = some place ↔
      ∃ before after, e.candidates directory name = before ++ place :: after ∧
        (∀ earlier ∈ before, ¬fs.HoldsFile earlier) ∧ fs.HoldsFile place := by
  rw [lookUp?, List.find?_eq_some_iff_append]
  simp only [FileSystem.isFile_eq_true_iff, Bool.not_eq_true', ← Bool.not_eq_true]
  constructor
  · rintro ⟨hplace, before, after, hsplit, hbefore⟩
    exact ⟨before, after, hsplit, hbefore, hplace⟩
  · rintro ⟨before, after, hsplit, hbefore, hplace⟩
    exact ⟨hplace, before, after, hsplit, hbefore⟩

/-- An include is followed to the file that it names. -/
theorem follow_eq_header_iff :
    e.follow fs path name = .header target ↔ e.Finds fs path name target := by
  constructor
  · intro h
    unfold follow at h
    split at h
    · rename_i place hplace
      obtain ⟨before, after, hsplit, hbefore, hholds⟩ := lookUp?_eq_some_iff.mp hplace
      split at h
      · rename_i resolved hresolved
        cases h
        exact ⟨before, place, after, hsplit, hbefore, hholds, hresolved⟩
      · cases h
    · split at h <;> cases h
  · rintro ⟨before, place, after, hsplit, hbefore, hholds, hresolved⟩
    have hplace : e.lookUp? fs (Path.directory path) name = some place :=
      lookUp?_eq_some_iff.mpr ⟨before, after, hsplit, hbefore, hholds⟩
    rw [follow, hplace]
    dsimp only
    rw [hresolved]

theorem Finds.unique {target' : Bytes} (h : e.Finds fs path name target)
    (h' : e.Finds fs path name target') : target = target' := by
  have heq := (follow_eq_header_iff.mpr h).symm.trans (follow_eq_header_iff.mpr h')
  cases heq
  rfl

/-! ## Splicing -/

/-- Goes through declarations of the header at a path, given the files that are expanded, and puts
right behind each include of another file what going through that file gives. -/
inductive Splices (e : Expander) (fs : FileSystem) :
    (seen : List Bytes) → (path : Bytes) → List Declaration → (spliced : List Declaration) →
      (seen' : List Bytes) → Prop
  | nil {seen path} : e.Splices fs seen path [] [] seen
  | other {seen path d ds spliced seen'}
      (hd : ∀ name target, d = .inclusion ⟨name, .custom⟩ → ¬e.Finds fs path name target)
      (hrest : e.Splices fs seen path ds spliced seen') :
      e.Splices fs seen path (d :: ds) (d :: spliced) seen'
  | known {seen path name target ds spliced seen'} (hfinds : e.Finds fs path name target)
      (hmem : target ∈ seen) (hrest : e.Splices fs seen path ds spliced seen') :
      e.Splices fs seen path (.inclusion ⟨name, .custom⟩ :: ds)
        (.inclusion ⟨name, .custom⟩ :: spliced) seen'
  | fresh {seen path name target content ds nested between spliced seen'}
      (hfinds : e.Finds fs path name target) (hmem : target ∉ seen)
      (hread : e.readFile fs target = .ok content)
      (hnested : e.Splices fs (seen ++ [target]) target content.declarations nested between)
      (hrest : e.Splices fs between path ds spliced seen') :
      e.Splices fs seen path (.inclusion ⟨name, .custom⟩ :: ds)
        (.inclusion ⟨name, .custom⟩ :: (nested ++ spliced)) seen'

/-- Goes through the header at a path that is not expanded yet. -/
def SplicesHeader (e : Expander) (fs : FileSystem) (seen : List Bytes) (path : Bytes)
    (spliced : List Declaration) (seen' : List Bytes) : Prop :=
  ∃ content, e.readFile fs path = .ok content ∧
    e.Splices fs (seen ++ [path]) path content.declarations spliced seen'

end Expander

/-! ## Expansions splice -/

/-- One more declaration behind those that are kept, unless there is one with its key. -/
def Declaration.keepNew (kept : List Declaration) (d : Declaration) : List Declaration :=
  if kept.any (·.key == d.key) then kept else kept ++ [d]

theorem Expansion.add_declarations (x : Expansion) (d : Declaration) :
    (x.add d).declarations = d.keepNew x.declarations := by
  unfold add Declaration.keepNew
  split <;> rfl

namespace Expander

/-- What a task splices. -/
def Task.Splices (e : Expander) (fs : FileSystem) (seen : List Bytes)
    (spliced : List Declaration) (seen' : List Bytes) : Task → Prop
  | .header path => e.SplicesHeader fs seen path spliced seen'
  | .declarations path ds => e.Splices fs seen path ds spliced seen'

variable {e : Expander} {fs : FileSystem} {task : Task} {x x' : Expansion} {path name : Bytes}
  {cache cache' : Option HeaderCache} {reads : List Bytes} {out : Except ExpansionError Expansion}
  {d : Declaration}

/-- A run without a cache that succeeds splices. -/
theorem Runs.splices (h : e.Runs fs task x cache reads out cache') (hnone : cache = none)
    (hout : out = .ok x') :
    ∃ spliced, task.Splices e fs x.files spliced x'.files ∧
      x'.declarations = spliced.foldl Declaration.keepNew x.declarations := by
  induction h generalizing x' with
  | unreadable => cases hout
  | read hload _ ih =>
      subst hnone
      cases hload with
      | uncached hread =>
          obtain ⟨spliced, hsplices, hdeclarations⟩ := ih rfl hout
          exact ⟨spliced, ⟨_, hread, hsplices⟩, hdeclarations⟩
  | done =>
      cases hout
      exact ⟨[], .nil, rfl⟩
  | @other path d ds x cache _ _ _ hd _ ih =>
      obtain ⟨spliced, hsplices, hdeclarations⟩ := ih hnone hout
      rw [Expansion.add_files] at hsplices
      refine ⟨d :: spliced, .other (fun name target heq => ?_) hsplices, ?_⟩
      · rw [Declaration.quotedInclude?_eq_some_iff.mpr heq] at hd
        cases hd
      · rw [hdeclarations, Expansion.add_declarations, List.foldl_cons]
  | failed => cases hout
  | @missing path d ds x cache name diagnostic _ _ _ hd hfollow _ ih =>
      obtain ⟨spliced, hsplices, hdeclarations⟩ := ih hnone hout
      rw [Expansion.note_files, Expansion.add_files] at hsplices
      refine ⟨d :: spliced, .other (fun name' target heq hfinds => ?_) hsplices, ?_⟩
      · cases hd.symm.trans (Declaration.quotedInclude?_eq_some_iff.mpr heq)
        cases hfollow.symm.trans (follow_eq_header_iff.mpr hfinds)
      · rw [hdeclarations, Expansion.note_declarations, Expansion.add_declarations, List.foldl_cons]
  | @known path d ds x cache name resolved _ _ _ hd hfollow hmem _ ih =>
      obtain ⟨spliced, hsplices, hdeclarations⟩ := ih hnone hout
      rw [Expansion.add_files] at hsplices
      cases Declaration.quotedInclude?_eq_some_iff.mp hd
      refine ⟨_, .known (follow_eq_header_iff.mp hfollow) hmem hsplices, ?_⟩
      rw [hdeclarations, Expansion.add_declarations, List.foldl_cons]
  | broken => cases hout
  | @nested path d ds x cache name resolved _ _ _ _ _ _ hd hfollow hmem hnested _ ihnested ih =>
      obtain ⟨nested, ⟨content, hread, hsplices⟩, hdeclarations⟩ := ihnested hnone rfl
      obtain ⟨spliced, hsplices', hdeclarations'⟩ := ih (hnested.eq_none hnone) hout
      rw [Expansion.add_files] at hsplices
      cases Declaration.quotedInclude?_eq_some_iff.mp hd
      refine ⟨_, .fresh (follow_eq_header_iff.mp hfollow) hmem hread hsplices hsplices', ?_⟩
      rw [hdeclarations', hdeclarations, Expansion.add_declarations, List.foldl_cons,
        List.foldl_append]

/-- What a call that succeeds expands, and the declarations it gathers. -/
theorem expand_splices (h : (e.expand fs none path).1 = .ok x) :
    ∃ root spliced, fs.resolve path = .ok root ∧
      e.SplicesHeader fs [] root spliced x.files ∧ x.Visited fs ∧
      x.declarations = spliced.foldl Declaration.keepNew [] := by
  obtain ⟨reads, hexpands⟩ := e.expands_expand fs none path
  rw [h] at hexpands
  cases hexpands with
  | @resolved root _ _ _ hroot hrun =>
      obtain ⟨spliced, hsplices, hdeclarations⟩ := hrun.splices rfl rfl
      have hvisited := hrun.visited rfl ⟨FileSystem.resolve_resolve hroot, nofun⟩ visited_start
      exact ⟨root, spliced, hroot, hsplices, hvisited, hdeclarations⟩

/-! ## Two headers that include each other -/

/-- Looks for includes next to the including header only. -/
def noSearch : Expander :=
  ⟨[], ⟨false, false, false⟩, false⟩

/-- The first header includes the second one twice, by a link to it, and is included by it. -/
def cyclicHeaders : FileSystem :=
  ⟨[([ascii "a"], .file (ascii "#include \"l\"\n#include \"l\"\n") 1),
    ([ascii "b"], .file (ascii "#include \"a\"\n") 1),
    ([ascii "l"], .link (ascii "b"))], []⟩

theorem readFile_of_read {text : Bytes} (h : fs.read path = .ok text) :
    e.readFile fs path = e.readText path text := by
  rw [readFile, h]

theorem resolve_cyclicHeaders : cyclicHeaders.resolve (ascii "a") = .ok (ascii "/a") := by
  rw [FileSystem.resolve_eq_overLinks]
  decide +kernel

/-- What the two headers are read to, and what their includes lead to. -/
theorem cyclicHeaders_includes :
    noSearch.readFile cyclicHeaders (ascii "/a") =
        .ok ⟨[.inclusion ⟨ascii "l", .custom⟩, .inclusion ⟨ascii "l", .custom⟩], []⟩ ∧
      noSearch.readFile cyclicHeaders (ascii "/b") =
        .ok ⟨[.inclusion ⟨ascii "a", .custom⟩], []⟩ ∧
      noSearch.follow cyclicHeaders (ascii "/a") (ascii "l") = .header (ascii "/b") ∧
      noSearch.follow cyclicHeaders (ascii "/b") (ascii "a") = .header (ascii "/a") := by
  have hfirst : cyclicHeaders.read (ascii "/a") =
      .ok (ascii "#include \"l\"\n#include \"l\"\n") := by
    rw [FileSystem.read, FileSystem.find_eq_overLinks]
    decide +kernel
  have hsecond : cyclicHeaders.read (ascii "/b") = .ok (ascii "#include \"a\"\n") := by
    rw [FileSystem.read, FileSystem.find_eq_overLinks]
    decide +kernel
  refine ⟨?_, ?_, ?_, ?_⟩
  · rw [readFile_of_read hfirst]
    decide +kernel
  · rw [readFile_of_read hsecond]
    decide +kernel
  · simp only [follow, lookUp?, FileSystem.isFile_eq, FileSystem.find_eq_overLinks,
      FileSystem.resolve_eq_overLinks]
    decide +kernel
  · simp only [follow, lookUp?, FileSystem.isFile_eq, FileSystem.find_eq_overLinks,
      FileSystem.resolve_eq_overLinks]
    decide +kernel

theorem expands_cyclicHeaders :
    noSearch.Expands cyclicHeaders none (ascii "a") [ascii "/a", ascii "/b"]
      (.ok ⟨[.inclusion ⟨ascii "l", .custom⟩, .inclusion ⟨ascii "a", .custom⟩], [],
        [ascii "/a", ascii "/b"]⟩) none := by
  obtain ⟨hfirst, hsecond, hthere, hback⟩ := cyclicHeaders_includes
  exact .resolved resolve_cyclicHeaders
    (.read (.uncached hfirst)
      (.nested rfl hthere (by decide)
        (.read (.uncached hsecond) (.known rfl hback (by decide) .done))
        (.known rfl hthere (by decide) .done)))

end Expander

end HeaderBinding
