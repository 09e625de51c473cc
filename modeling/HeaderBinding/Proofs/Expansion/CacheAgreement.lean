import HeaderBinding.Proofs.Expansion.Runs

/-!
# A cache does not change an expansion

A run with a cache whose valid entries are what reading would give loads the same paths with the
same outcome as the run without a cache, and leaves only entries that it found or that hold what it
has read.
-/

namespace HeaderBinding

namespace Expander

variable {e : Expander} {fs : FileSystem} {task : Task} {x : Expansion}
  {cache cache' : Option HeaderCache} {path : Bytes} {reads reads₀ : List Bytes}
  {out out₀ : Except ExpansionError Expansion} {result : Except ExpansionError HeaderContent}

/-! ## Faithful entries -/

/-- The entry of a cache holds what reading its file would give, as long as it is valid. -/
def Faithful (e : Expander) (fs : FileSystem) (entry : CacheEntry) : Prop :=
  fs.stamp? entry.path = some entry.stamp → e.readFile fs entry.path = .ok entry.content

/-- An entry is valid and holds what reading its file gives. -/
structure Current (e : Expander) (fs : FileSystem) (entry : CacheEntry) : Prop where
  stamp : fs.stamp? entry.path = some entry.stamp
  content : e.readFile fs entry.path = .ok entry.content

theorem Current.faithful {entry : CacheEntry} (h : e.Current fs entry) : e.Faithful fs entry :=
  fun _ => h.content

/-- Every entry of a cache is faithful, as in one that was filled from the file system as it is. -/
def FaithfulCache (e : Expander) (fs : FileSystem) (cache : Option HeaderCache) : Prop :=
  ∀ c ∈ cache, ∀ entry ∈ c.entries, e.Faithful fs entry

/-- Every entry for one of the given paths is faithful. -/
def FaithfulOn (e : Expander) (fs : FileSystem) (paths : List Bytes) (cache : Option HeaderCache) :
    Prop :=
  ∀ c ∈ cache, ∀ entry ∈ c.entries, entry.path ∈ paths → e.Faithful fs entry

/-- The entries of the second cache are of the first one, or were read from one of the given paths.
-/
def Records (e : Expander) (fs : FileSystem) (paths : List Bytes)
    (cache cache' : Option HeaderCache) : Prop :=
  ∀ c' ∈ cache', ∀ entry ∈ c'.entries,
    (∃ c ∈ cache, entry ∈ c.entries) ∨ entry.path ∈ paths ∧ e.Current fs entry

theorem faithfulOn_none {paths : List Bytes} : e.FaithfulOn fs paths none :=
  nofun

theorem FaithfulOn.mono {paths paths' : List Bytes} (h : e.FaithfulOn fs paths cache)
    (hsubset : paths' ⊆ paths) : e.FaithfulOn fs paths' cache :=
  fun c hc entry hentry hpath => h c hc entry hentry (hsubset hpath)

theorem FaithfulOn.records {paths paths' : List Bytes} (h : e.FaithfulOn fs paths cache)
    (hrecords : e.Records fs paths' cache cache') : e.FaithfulOn fs paths cache' := by
  intro c' hc' entry hentry hpath
  rcases hrecords c' hc' entry hentry with ⟨c, hc, hold⟩ | ⟨-, hcurrent⟩
  · exact h c hc entry hold hpath
  · exact hcurrent.faithful

theorem records_refl {paths : List Bytes} : e.Records fs paths cache cache :=
  fun c hc _ hentry => .inl ⟨c, hc, hentry⟩

theorem Records.trans {paths paths' : List Bytes} {cache'' : Option HeaderCache}
    (h : e.Records fs paths cache cache') (h' : e.Records fs paths' cache' cache'') :
    e.Records fs (paths ++ paths') cache cache'' := by
  intro c'' hc'' entry hentry
  rcases h' c'' hc'' entry hentry with ⟨c', hc', hold⟩ | ⟨hpath, hcurrent⟩
  · exact (h c' hc' entry hold).imp_right fun ⟨hpath, hcurrent⟩ =>
      ⟨List.mem_append_left _ hpath, hcurrent⟩
  · exact .inr ⟨List.mem_append_right _ hpath, hcurrent⟩

/-! ## One header -/

theorem Loads.eq_readFile (h : e.Loads fs cache path result cache')
    (hfaithful : e.FaithfulOn fs [path] cache) : result = e.readFile fs path := by
  cases h with
  | uncached hread => exact hread.symm
  | hit hmem hpath hstamp _ =>
      subst hpath
      exact (hfaithful _ rfl _ hmem (List.mem_singleton.mpr rfl) hstamp).symm
  | miss hread _ => exact hread.symm

theorem Loads.agree {result₀ : Except ExpansionError HeaderContent} {cache₀ : Option HeaderCache}
    (h : e.Loads fs cache path result cache') (h₀ : e.Loads fs none path result₀ cache₀)
    (hfaithful : e.FaithfulOn fs [path] cache) : result = result₀ :=
  (h.eq_readFile hfaithful).trans (h₀.eq_readFile faithfulOn_none).symm

theorem Loads.records (h : e.Loads fs cache path result cache') :
    e.Records fs [path] cache cache' := by
  cases h with
  | uncached => exact nofun
  | hit _ _ _ hkept =>
      rintro c' ⟨⟩ entry hentry
      exact .inl ⟨_, rfl, hkept hentry⟩
  | miss hread hkept =>
      rintro c' ⟨⟩ entry hentry
      rcases hkept entry hentry with hold | ⟨rfl, hstamp, rfl⟩
      · exact .inl ⟨_, rfl, hold⟩
      · exact .inr ⟨List.mem_singleton.mpr rfl, hstamp, hread⟩

theorem Loads.eq_none (h : e.Loads fs none path result cache') : cache' = none := by
  cases h
  rfl

/-! ## Runs -/

theorem Runs.eq_none (h : e.Runs fs task x cache reads out cache') (hnone : cache = none) :
    cache' = none := by
  induction h with
  | unreadable hload =>
      subst hnone
      exact hload.eq_none
  | read hload _ ih =>
      subst hnone
      exact ih hload.eq_none
  | done | failed => exact hnone
  | other _ _ ih => exact ih hnone
  | missing _ _ _ ih => exact ih hnone
  | known _ _ _ _ ih => exact ih hnone
  | broken _ _ _ _ ih => exact ih hnone
  | nested _ _ _ _ _ ihnested ih => exact ih (ihnested hnone)

/-- A declaration is followed to one target. -/
theorem followed_unique {d : Declaration} {name name' : Bytes} {target target' : IncludeTarget}
    (hd : d.quotedInclude? = some name) (hd' : d.quotedInclude? = some name')
    (h : e.follow fs path name = target) (h' : e.follow fs path name' = target') :
    target = target' := by
  cases hd.symm.trans hd'
  exact h.symm.trans h'

/-- By induction on the run with the cache; the run without one takes the same steps as long as
what is loaded agrees, and it says which entries have to be faithful. -/
theorem Runs.agree (h : e.Runs fs task x cache reads out cache') {cache₀ : Option HeaderCache}
    (h₀ : e.Runs fs task x none reads₀ out₀ cache₀) (hfaithful : e.FaithfulOn fs reads₀ cache) :
    reads = reads₀ ∧ out = out₀ ∧ e.Records fs reads cache cache' := by
  induction h generalizing reads₀ out₀ cache₀ with
  | unreadable hload =>
      cases h₀ with
      | unreadable hload₀ =>
          cases hload.agree hload₀ hfaithful
          exact ⟨rfl, rfl, hload.records⟩
      | read hload₀ _ => cases hload.agree hload₀ (hfaithful.mono (by simp))
  | read hload hrest ih =>
      cases h₀ with
      | unreadable hload₀ => cases hload.agree hload₀ hfaithful
      | read hload₀ hrest₀ =>
          cases hload.agree hload₀ (hfaithful.mono (by simp))
          rw [hload₀.eq_none] at hrest₀
          obtain ⟨rfl, rfl, hrecords⟩ := ih hrest₀
            ((hfaithful.mono (List.subset_cons_self _ _)).records hload.records)
          exact ⟨rfl, rfl, hload.records.trans hrecords⟩
  | done =>
      cases h₀
      exact ⟨rfl, rfl, records_refl⟩
  | other hd hrest ih =>
      cases h₀ with
      | other _ hrest₀ => exact ih hrest₀ hfaithful
      | _ => simp_all
  | failed hd hfollow =>
      cases h₀ with
      | failed => simp_all [records_refl]
      | _ => simp_all
  | missing hd hfollow hrest ih =>
      cases h₀ with
      | missing hd₀ hfollow₀ hrest₀ =>
          cases followed_unique hd hd₀ hfollow hfollow₀
          exact ih hrest₀ hfaithful
      | _ => simp_all
  | known hd hfollow hmem hrest ih =>
      cases h₀ with
      | known _ _ _ hrest₀ => exact ih hrest₀ hfaithful
      | _ => simp_all
  | broken hd hfollow hmem hnested ih =>
      cases h₀ with
      | broken hd₀ hfollow₀ _ hnested₀ =>
          cases followed_unique hd hd₀ hfollow hfollow₀
          exact ih hnested₀ hfaithful
      | nested hd₀ hfollow₀ _ hnested₀ _ =>
          cases followed_unique hd hd₀ hfollow hfollow₀
          cases (ih hnested₀ (hfaithful.mono (List.subset_append_left _ _))).2.1
      | _ => simp_all
  | nested hd hfollow hmem hnested hrest ihnested ih =>
      cases h₀ with
      | broken hd₀ hfollow₀ _ hnested₀ =>
          cases followed_unique hd hd₀ hfollow hfollow₀
          cases (ihnested hnested₀ hfaithful).2.1
      | nested hd₀ hfollow₀ _ hnested₀ hrest₀ =>
          cases followed_unique hd hd₀ hfollow hfollow₀
          -- What the nested run leaves in the cache is faithful, as it was or because it was read.
          obtain ⟨rfl, hout, hrecords⟩ :=
            ihnested hnested₀ (hfaithful.mono (List.subset_append_left _ _))
          cases hout
          rw [hnested₀.eq_none rfl] at hrest₀
          obtain ⟨rfl, rfl, hrecords'⟩ := ih hrest₀
            ((hfaithful.mono (List.subset_append_right _ _)).records hrecords)
          exact ⟨rfl, rfl, hrecords.trans hrecords'⟩
      | _ => simp_all

/-! ## Calls -/

theorem Expands.agree (h : e.Expands fs cache path reads out cache') {cache₀ : Option HeaderCache}
    (h₀ : e.Expands fs none path reads₀ out₀ cache₀) (hfaithful : e.FaithfulOn fs reads₀ cache) :
    reads = reads₀ ∧ out = out₀ ∧ e.Records fs reads cache cache' := by
  cases h with
  | unresolved hroot =>
      cases h₀ with
      | unresolved hroot₀ =>
          cases hroot.symm.trans hroot₀
          exact ⟨rfl, rfl, records_refl⟩
      | resolved hroot₀ _ => cases hroot.symm.trans hroot₀
  | resolved hroot hrun =>
      cases h₀ with
      | unresolved hroot₀ => cases hroot.symm.trans hroot₀
      | resolved hroot₀ hrun₀ =>
          cases hroot.symm.trans hroot₀
          exact hrun.agree hrun₀ hfaithful

/-- Without a cache a call has one outcome, and `expand` gives it. -/
theorem Expands.eq_expand (h : e.Expands fs none path reads out cache') :
    out = (e.expand fs none path).1 := by
  obtain ⟨reads₀, h₀⟩ := e.expands_expand fs none path
  exact (h.agree h₀ faithfulOn_none).2.1

theorem FaithfulCache.faithfulOn (h : e.FaithfulCache fs cache) (paths : List Bytes) :
    e.FaithfulOn fs paths cache :=
  fun c hc entry hentry _ => h c hc entry hentry

theorem expand_eq_uncached (h : e.FaithfulCache fs cache) (path : Bytes) :
    (e.expand fs cache path).1 = (e.expand fs none path).1 := by
  obtain ⟨reads, hcached⟩ := e.expands_expand fs cache path
  obtain ⟨reads₀, huncached⟩ := e.expands_expand fs none path
  exact (hcached.agree huncached (h.faithfulOn reads₀)).2.1

/-- Calls keep a cache faithful while the file system does not change. -/
theorem FaithfulCache.expand (h : e.FaithfulCache fs cache) (path : Bytes) :
    e.FaithfulCache fs (e.expand fs cache path).2 := by
  obtain ⟨reads, hcached⟩ := e.expands_expand fs cache path
  obtain ⟨reads₀, huncached⟩ := e.expands_expand fs none path
  obtain ⟨-, -, hrecords⟩ := hcached.agree huncached (h.faithfulOn reads₀)
  intro c' hc' entry hentry
  rcases hrecords c' hc' entry hentry with ⟨c, hc, hold⟩ | ⟨-, hcurrent⟩
  · exact h c hc entry hold
  · exact hcurrent.faithful

end Expander

end HeaderBinding
