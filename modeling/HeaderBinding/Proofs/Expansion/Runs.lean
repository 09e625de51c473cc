import HeaderBinding.Expansion.Basic
import HeaderBinding.Proofs.FileSystem.Canonical

/-!
# Expansion without a bound

`Runs` says what expanding a header does, step by step and with no bound on the nesting, for any
cache that may lose entries whenever it likes. The nesting that `expandWithin` is given is never
used up: what it answers is the outcome of such a run, because the files on the way to a header are
different canonical paths and there are no more of these than places in the file system.
-/

namespace HeaderBinding

/-! ## Loading with any cache -/

namespace Expander

/-- What loading the header at a path may answer and leave in a cache that may lose entries at any
time. A valid entry is taken or has been lost; what was read may be kept. -/
inductive Loads (e : Expander) (fs : FileSystem) : Option HeaderCache → Bytes →
    Except ExpansionError HeaderContent → Option HeaderCache → Prop
  | uncached {path result} (hread : e.readFile fs path = result) : e.Loads fs none path result none
  | hit {cache cache' : HeaderCache} {path entry} (hmem : entry ∈ cache.entries)
      (hpath : entry.path = path) (hstamp : fs.stamp? path = some entry.stamp)
      (hkept : cache'.entries ⊆ cache.entries) :
      e.Loads fs (some cache) path (.ok entry.content) (some cache')
  | miss {cache cache' : HeaderCache} {path result} (hread : e.readFile fs path = result)
      (hkept : ∀ entry ∈ cache'.entries, entry ∈ cache.entries ∨
        entry.path = path ∧ fs.stamp? path = some entry.stamp ∧ result = .ok entry.content) :
      e.Loads fs (some cache) path result (some cache')

end Expander

namespace HeaderCache

variable {cache : HeaderCache} {path : Bytes} {stamp : Option FileStamp}

/-- A new cache holds nothing. -/
theorem entries_ofCapacity? {capacity : Int} (h : cache ∈ ofCapacity? capacity) :
    cache.entries = [] := by
  obtain ⟨_, hcache⟩ := Option.ite_none_right_eq_some.mp (Option.mem_def.mp h)
  rw [← Option.some.inj hcache]

theorem erase_subset : (cache.erase path).entries ⊆ cache.entries :=
  List.filter_sublist.subset

theorem get_subset (cache : HeaderCache) (path : Bytes) (stamp : Option FileStamp) :
    (cache.get path stamp).2.entries ⊆ cache.entries := by
  unfold get
  split
  · exact fun _ h => h
  · rename_i entry hentry
    split
    · exact List.cons_subset.mpr ⟨List.mem_of_find?_eq_some hentry, erase_subset⟩
    · exact erase_subset

/-- The content that a look-up gives is that of a valid entry. -/
theorem get_eq_some {content : HeaderContent} (h : (cache.get path stamp).1 = some content) :
    ∃ entry ∈ cache.entries, entry.path = path ∧ stamp = some entry.stamp ∧
      entry.content = content := by
  unfold get at h
  split at h
  · cases h
  · rename_i entry hentry
    split at h
    · rename_i hstamp
      refine ⟨entry, List.mem_of_find?_eq_some hentry, ?_, hstamp.symm, by simpa using h⟩
      simpa using List.find?_some hentry
    · cases h

theorem mem_add {entry added : CacheEntry} (h : entry ∈ (cache.add added).entries) :
    entry = added ∨ entry ∈ cache.entries := by
  rcases List.mem_cons.mp (List.mem_of_mem_take h) with h | h
  · exact .inl h
  · exact .inr (erase_subset h)

end HeaderCache

namespace Expander

variable {e : Expander} {fs : FileSystem} {cache : Option HeaderCache} {path : Bytes}

/-- The cache that drops what was used longest ago is one that may lose entries at any time. -/
theorem loads_load (e : Expander) (fs : FileSystem) (cache : Option HeaderCache) (path : Bytes) :
    e.Loads fs cache path (e.load fs cache path).1 (e.load fs cache path).2 := by
  cases cache with
  | none => exact .uncached rfl
  | some cache =>
      have hsubset := cache.get_subset path (fs.stamp? path)
      rcases hget : cache.get path (fs.stamp? path) with ⟨found, cache'⟩
      rw [hget] at hsubset
      cases found with
      | some content =>
          obtain ⟨entry, hmem, hpath, hstamp, rfl⟩ :=
            HeaderCache.get_eq_some (congrArg Prod.fst hget)
          simp only [load, hget]
          exact .hit hmem hpath hstamp hsubset
      | none =>
          simp only [load, hget]
          split
          · rename_i content stamp hread hstamp
            refine .miss hread fun entry hentry => ?_
            rcases HeaderCache.mem_add hentry with rfl | hentry
            · exact .inr ⟨rfl, hstamp, rfl⟩
            · exact .inl (hsubset hentry)
          · exact .miss rfl fun entry hentry => .inl (hsubset hentry)

end Expander

/-! ## Runs -/

namespace Expansion

/-- Goes into the header at a path with the given content. -/
def enter (x : Expansion) (path : Bytes) (content : HeaderContent) : Expansion :=
  { x with files := x.files ++ [path], diagnostics := x.diagnostics ++ content.diagnostics }

def note (x : Expansion) (diagnostic : Diagnostic) : Expansion :=
  { x with diagnostics := x.diagnostics ++ [diagnostic] }

variable (x : Expansion) (path : Bytes) (content : HeaderContent) (diagnostic : Diagnostic)
  (d : Declaration)

@[simp] theorem enter_files : (x.enter path content).files = x.files ++ [path] := rfl

@[simp] theorem note_files : (x.note diagnostic).files = x.files := rfl

@[simp] theorem note_declarations : (x.note diagnostic).declarations = x.declarations := rfl

@[simp] theorem add_files : (x.add d).files = x.files := by
  unfold add
  split <;> rfl

/-- The files of an expansion are canonical and different. -/
structure Visited (fs : FileSystem) (x : Expansion) : Prop where
  nodup : x.files.Nodup
  canonical : ∀ f ∈ x.files, fs.resolve f = .ok f

end Expansion

namespace Expander

/-- What is left to do at some point of an expansion. -/
inductive Task where
  /-- Expand the header at a resolved path. -/
  | header (path : Bytes)
  /-- Go through declarations of the header at a path. -/
  | declarations (path : Bytes) (ds : List Declaration)

/-- A task done on an expansion and a cache: the paths that are loaded in order, the outcome, and
the cache that is left. Nothing bounds how deep headers are nested. -/
inductive Runs (e : Expander) (fs : FileSystem) :
    Task → Expansion → Option HeaderCache → (reads : List Bytes) → Except ExpansionError Expansion →
      Option HeaderCache → Prop
  | unreadable {path x cache error cache'} (hload : e.Loads fs cache path (.error error) cache') :
      e.Runs fs (.header path) x cache [path] (.error error) cache'
  | read {path x cache content cache' reads out cache''}
      (hload : e.Loads fs cache path (.ok content) cache')
      (hrest : e.Runs fs (.declarations path content.declarations) (x.enter path content) cache'
        reads out cache'') :
      e.Runs fs (.header path) x cache (path :: reads) out cache''
  | done {path x cache} : e.Runs fs (.declarations path []) x cache [] (.ok x) cache
  | other {path d ds x cache reads out cache'} (hd : d.quotedInclude? = none)
      (hrest : e.Runs fs (.declarations path ds) (x.add d) cache reads out cache') :
      e.Runs fs (.declarations path (d :: ds)) x cache reads out cache'
  | failed {path d ds x cache name error} (hd : d.quotedInclude? = some name)
      (hfollow : e.follow fs path name = .failed error) :
      e.Runs fs (.declarations path (d :: ds)) x cache [] (.error error) cache
  | missing {path d ds x cache name diagnostic reads out cache'}
      (hd : d.quotedInclude? = some name)
      (hfollow : e.follow fs path name = .missing diagnostic)
      (hrest : e.Runs fs (.declarations path ds) ((x.add d).note diagnostic) cache reads out
        cache') :
      e.Runs fs (.declarations path (d :: ds)) x cache reads out cache'
  | known {path d ds x cache name resolved reads out cache'} (hd : d.quotedInclude? = some name)
      (hfollow : e.follow fs path name = .header resolved) (hmem : resolved ∈ x.files)
      (hrest : e.Runs fs (.declarations path ds) (x.add d) cache reads out cache') :
      e.Runs fs (.declarations path (d :: ds)) x cache reads out cache'
  | broken {path d ds x cache name resolved reads error cache'}
      (hd : d.quotedInclude? = some name) (hfollow : e.follow fs path name = .header resolved)
      (hmem : resolved ∉ x.files)
      (hnested : e.Runs fs (.header resolved) (x.add d) cache reads (.error error) cache') :
      e.Runs fs (.declarations path (d :: ds)) x cache reads (.error error) cache'
  | nested {path d ds x cache name resolved reads x' cache' reads' out cache''}
      (hd : d.quotedInclude? = some name) (hfollow : e.follow fs path name = .header resolved)
      (hmem : resolved ∉ x.files)
      (hnested : e.Runs fs (.header resolved) (x.add d) cache reads (.ok x') cache')
      (hrest : e.Runs fs (.declarations path ds) x' cache' reads' out cache'') :
      e.Runs fs (.declarations path (d :: ds)) x cache (reads ++ reads') out cache''

/-- A call: the path is resolved and the header there is expanded. -/
inductive Expands (e : Expander) (fs : FileSystem) (cache : Option HeaderCache) (path : Bytes) :
    (reads : List Bytes) → Except ExpansionError Expansion → Option HeaderCache → Prop
  | unresolved {error : FileSystem.ResolveError} (h : fs.resolve path = .error error) :
      e.Expands fs cache path [] (.error (.unresolved path error)) cache
  | resolved {root : Bytes} {reads : List Bytes} {out : Except ExpansionError Expansion}
      {cache' : Option HeaderCache} (h : fs.resolve path = .ok root)
      (hrun : e.Runs fs (.header root) .start cache reads out cache') :
      e.Expands fs cache path reads out cache'

/-! ## The files of a run -/

variable {e : Expander} {fs : FileSystem} {task : Task} {x x' : Expansion}
  {cache cache' : Option HeaderCache} {path name resolved : Bytes} {reads : List Bytes}
  {out : Except ExpansionError Expansion}

/-- What is read on the way is what the expansion lists. -/
theorem Runs.files_eq (h : e.Runs fs task x cache reads out cache') (hout : out = .ok x') :
    x'.files = x.files ++ reads := by
  induction h generalizing x' with
  | unreadable => cases hout
  | read _ _ ih => rw [ih hout, Expansion.enter_files, List.append_assoc, List.singleton_append]
  | done =>
      cases hout
      rw [List.append_nil]
  | other _ _ ih => rw [ih hout, Expansion.add_files]
  | failed => cases hout
  | missing _ _ _ ih => rw [ih hout, Expansion.note_files, Expansion.add_files]
  | known _ _ _ _ ih => rw [ih hout, Expansion.add_files]
  | broken => cases hout
  | nested _ _ _ _ _ ihnested ih =>
      rw [ih hout, ihnested rfl, Expansion.add_files, List.append_assoc]

/-- A header is only entered if it is canonical and new. -/
def Task.Enters (fs : FileSystem) (x : Expansion) : Task → Prop
  | .header path => fs.resolve path = .ok path ∧ path ∉ x.files
  | .declarations _ _ => True

theorem resolve_of_follow (h : e.follow fs path name = .header resolved) :
    fs.resolve resolved = .ok resolved := by
  unfold follow at h
  split at h
  · split at h
    · cases h
      exact FileSystem.resolve_resolve (by assumption)
    · cases h
  · split at h <;> cases h

end Expander

namespace Expansion.Visited

variable {fs : FileSystem} {x : Expansion}

theorem of_files_eq {x' : Expansion} (h : x.Visited fs) (hfiles : x'.files = x.files) :
    x'.Visited fs where
  nodup := hfiles ▸ h.nodup
  canonical := hfiles ▸ h.canonical

theorem enter (h : x.Visited fs) {path : Bytes} (hcanonical : fs.resolve path = .ok path)
    (hnew : path ∉ x.files) (content : HeaderContent) : (x.enter path content).Visited fs where
  nodup := by simpa [List.nodup_append] using ⟨h.nodup, fun f hf heq => hnew (heq ▸ hf)⟩
  canonical := by simpa [List.forall_mem_append, or_imp, forall_and] using ⟨h.canonical, hcanonical⟩

end Expansion.Visited

namespace Expander

variable {e : Expander} {fs : FileSystem} {task : Task} {x x' : Expansion}
  {cache cache' : Option HeaderCache} {path name resolved : Bytes} {reads : List Bytes}
  {out : Except ExpansionError Expansion}

/-- No file is expanded twice, and all of them are canonical. -/
theorem Runs.visited (h : e.Runs fs task x cache reads out cache') (hout : out = .ok x')
    (henters : task.Enters fs x) (hx : x.Visited fs) : x'.Visited fs := by
  induction h generalizing x' with
  | unreadable => cases hout
  | read _ _ ih => exact ih hout trivial (hx.enter henters.1 henters.2 _)
  | done =>
      cases hout
      exact hx
  | other _ _ ih => exact ih hout trivial (hx.of_files_eq (by simp))
  | failed => cases hout
  | missing _ _ _ ih => exact ih hout trivial (hx.of_files_eq (by simp))
  | known _ _ _ _ ih => exact ih hout trivial (hx.of_files_eq (by simp))
  | broken => cases hout
  | nested _ hfollow hmem _ _ ihnested ih =>
      -- The nested header was resolved when its include was followed, and is not visited yet.
      refine ih hout trivial
        (ihnested rfl ⟨resolve_of_follow hfollow, ?_⟩ (hx.of_files_eq (by simp)))
      simpa using hmem

/-! ## The nesting is never used up -/

/-- A function that expands headers as runs do, as long as the expansion has at least that many
files. -/
def ExpandsAbove (e : Expander) (fs : FileSystem) (count : Nat)
    (expand : Bytes → Expansion → Option HeaderCache → ExpansionState) : Prop :=
  ∀ path x cache, x.Visited fs → count ≤ x.files.length → (Task.header path).Enters fs x →
    ∃ reads, e.Runs fs (.header path) x cache reads (expand path x cache).1 (expand path x cache).2

theorem runs_splice {count : Nat}
    {expand : Bytes → Expansion → Option HeaderCache → ExpansionState}
    (hexpand : e.ExpandsAbove fs count expand) (path : Bytes) (ds : List Declaration)
    (x : Expansion) (cache : Option HeaderCache) (hx : x.Visited fs)
    (hcount : count ≤ x.files.length) :
    ∃ reads, e.Runs fs (.declarations path ds) x cache reads
      (e.splice fs expand path ds x cache).1 (e.splice fs expand path ds x cache).2 := by
  induction ds generalizing x cache with
  | nil => exact ⟨[], .done⟩
  | cons d ds ih =>
      have hadd : (x.add d).Visited fs := hx.of_files_eq (by simp)
      have hadd_count : count ≤ (x.add d).files.length := by simpa using hcount
      unfold splice
      dsimp only
      cases hd : d.quotedInclude? with
      | none =>
          obtain ⟨reads, hrest⟩ := ih (x.add d) cache hadd hadd_count
          exact ⟨reads, .other hd hrest⟩
      | some name =>
          dsimp only
          cases hfollow : e.follow fs path name with
          | failed error => exact ⟨[], .failed hd hfollow⟩
          | missing diagnostic =>
              obtain ⟨reads, hrest⟩ := ih ((x.add d).note diagnostic) cache
                (hadd.of_files_eq rfl) hadd_count
              exact ⟨reads, .missing hd hfollow hrest⟩
          | header resolved =>
              dsimp only
              by_cases hmem : resolved ∈ x.files
              · obtain ⟨reads, hrest⟩ := ih (x.add d) cache hadd hadd_count
                rw [if_pos (by simpa using hmem)]
                exact ⟨reads, .known hd hfollow hmem hrest⟩
              · have henters : (Task.header resolved).Enters fs (x.add d) :=
                  ⟨resolve_of_follow hfollow, by simpa using hmem⟩
                obtain ⟨reads, hnested⟩ := hexpand resolved (x.add d) cache hadd hadd_count henters
                rw [if_neg (by simpa using hmem)]
                rcases hresult : expand resolved (x.add d) cache with ⟨result, cache'⟩
                rw [hresult] at hnested
                cases result with
                | error error => exact ⟨reads, .broken hd hfollow hmem hnested⟩
                | ok x' =>
                    -- What is nested only adds files, so there are enough of them behind it too.
                    have hfiles := hnested.files_eq rfl
                    have hcount' : count ≤ x'.files.length := by
                      rw [hfiles, List.length_append]
                      omega
                    obtain ⟨reads', hrest⟩ :=
                      ih x' cache' (hnested.visited rfl henters hadd) hcount'
                    exact ⟨reads ++ reads', .nested hd hfollow hmem hnested hrest⟩

/-- With enough nesting for the files that are left, expanding does what a run does. -/
theorem expandsAbove_expandWithin (nesting count : Nat)
    (h : fs.nestingBound ≤ nesting + count) :
    e.ExpandsAbove fs count (e.expandWithin fs nesting) := by
  induction nesting generalizing count with
  | zero =>
      -- The path would be one more canonical path than there are places.
      intro path x cache hx hcount henters
      have hfull := FileSystem.length_le_of_canonical (hx.enter henters.1 henters.2 ⟨[], []⟩).nodup
        (hx.enter henters.1 henters.2 ⟨[], []⟩).canonical
      rw [Expansion.enter_files, List.length_append] at hfull
      unfold FileSystem.nestingBound at h
      omega
  | succ nesting ih =>
      intro path x cache hx hcount henters
      have hload := e.loads_load fs cache path
      rcases hresult : e.load fs cache path with ⟨result, cache'⟩
      rw [hresult] at hload
      unfold expandWithin
      dsimp only
      rw [hresult]
      cases result with
      | error error => exact ⟨[path], .unreadable hload⟩
      | ok content =>
          obtain ⟨reads, hrest⟩ := runs_splice (ih (count + 1) (by omega)) path
            content.declarations (x.enter path content) cache'
            (hx.enter henters.1 henters.2 content) (by simpa using hcount)
          exact ⟨path :: reads, .read hload hrest⟩

theorem visited_start : Expansion.start.Visited fs where
  nodup := List.nodup_nil
  canonical := nofun

/-- Every call ends, and its answer is the outcome of a run that nothing bounds. -/
theorem expands_expand (e : Expander) (fs : FileSystem) (cache : Option HeaderCache)
    (path : Bytes) :
    ∃ reads, e.Expands fs cache path reads (e.expand fs cache path).1
      (e.expand fs cache path).2 := by
  unfold expand
  cases hroot : fs.resolve path with
  | error error => exact ⟨[], .unresolved hroot⟩
  | ok root =>
      obtain ⟨reads, hrun⟩ := expandsAbove_expandWithin fs.nestingBound 0 (Nat.le_refl _) root
        .start cache visited_start (Nat.zero_le _) ⟨FileSystem.resolve_resolve hroot, nofun⟩
      exact ⟨reads, .resolved hroot hrun⟩

end Expander

end HeaderBinding
