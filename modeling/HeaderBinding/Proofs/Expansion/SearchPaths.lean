import HeaderBinding.Proofs.Expansion.Modes

/-!
# More search paths

A search path behind the others counts only for an include that none of them has a file for. As long
as every include is found, an expander with more search paths takes the same steps, whatever its
cache holds, and leaves the same cache.
-/

namespace HeaderBinding

/-- Every include was found: nothing reports that one names no file. -/
def Expansion.Complete (x : Expansion) : Prop :=
  ∀ d ∈ x.diagnostics, d.cause ≠ .headerNotFound

namespace Expander

/-- The expander with more search paths behind its own. -/
def searchingAlso (e : Expander) (more : List Bytes) : Expander :=
  { e with searchPaths := e.searchPaths ++ more }

variable {e : Expander} {fs : FileSystem} {path name target : Bytes} {more : List Bytes}
  {cache : Option HeaderCache} {x x' : Expansion}

/-! ## One include -/

/-- The first place that holds a file stays the first one. -/
theorem Finds.searchingAlso (h : e.Finds fs path name target) (more : List Bytes) :
    (e.searchingAlso more).Finds fs path name target := by
  obtain ⟨before, place, after, hsplit, hbefore, hholds, hresolved⟩ := h
  refine ⟨before, place, after ++ more.map (Path.join · name), ?_, hbefore, hholds, hresolved⟩
  rw [Expander.searchingAlso, List.map_append, ← List.cons_append, hsplit, List.append_assoc,
    List.cons_append]

theorem follow_searchingAlso (h : e.follow fs path name = .header target) (more : List Bytes) :
    (e.searchingAlso more).follow fs path name = .header target :=
  follow_eq_header_iff.mpr ((follow_eq_header_iff.mp h).searchingAlso more)

theorem cause_of_follow_missing {diagnostic : Diagnostic}
    (h : e.follow fs path name = .missing diagnostic) : diagnostic.cause = .headerNotFound := by
  unfold follow at h
  split at h
  · split at h <;> cases h
  · split at h
    · cases h
      rfl
    · cases h

/-- Search paths play no part in reading a header. -/
theorem load_searchingAlso :
    (e.searchingAlso more).load fs cache path = e.load fs cache path :=
  rfl

/-! ## Splicing step by step -/

section

variable {expand : Bytes → Expansion → Option HeaderCache → ExpansionState} {d : Declaration}
  {ds : List Declaration}

theorem splice_cons_other (hd : d.quotedInclude? = none) :
    e.splice fs expand path (d :: ds) x cache = e.splice fs expand path ds (x.add d) cache := by
  rw [splice, hd]

theorem splice_cons_failed {error : ExpansionError} (hd : d.quotedInclude? = some name)
    (hfollow : e.follow fs path name = .failed error) :
    e.splice fs expand path (d :: ds) x cache = (.error error, cache) := by
  rw [splice, hd]
  dsimp only
  rw [hfollow]

theorem splice_cons_missing {diagnostic : Diagnostic} (hd : d.quotedInclude? = some name)
    (hfollow : e.follow fs path name = .missing diagnostic) :
    e.splice fs expand path (d :: ds) x cache =
      e.splice fs expand path ds ((x.add d).note diagnostic) cache := by
  rw [splice, hd]
  dsimp only
  rw [hfollow]
  rfl

theorem splice_cons_known (hd : d.quotedInclude? = some name)
    (hfollow : e.follow fs path name = .header target) (hmem : target ∈ x.files) :
    e.splice fs expand path (d :: ds) x cache = e.splice fs expand path ds (x.add d) cache := by
  rw [splice, hd]
  dsimp only
  rw [hfollow]
  simp [hmem]

/-- An include of a new header: the header is expanded, and if that succeeds the rest follows. -/
theorem splice_cons_nested (hd : d.quotedInclude? = some name)
    (hfollow : e.follow fs path name = .header target) (hmem : target ∉ x.files) :
    e.splice fs expand path (d :: ds) x cache =
      match expand target (x.add d) cache with
      | (.error error, cache) => (.error error, cache)
      | (.ok x, cache) => e.splice fs expand path ds x cache := by
  rw [splice, hd]
  dsimp only
  rw [hfollow]
  exact if_neg (by simpa using hmem)

end

/-! ## Runs in which every include is found -/

/-- Where the first function succeeds it keeps what was reported, and if every include was found
then the second function does the same. -/
def KeptBy (expand expand' : Bytes → Expansion → Option HeaderCache → ExpansionState) : Prop :=
  ∀ path x cache x', (expand path x cache).1 = .ok x' →
    x.diagnostics <+: x'.diagnostics ∧ (x'.Complete → expand' path x cache = expand path x cache)

/-- By induction on the declarations. An include that is not found is reported, and then the run is
not complete. -/
theorem splice_searchingAlso
    {expand expand' : Bytes → Expansion → Option HeaderCache → ExpansionState}
    (hexpand : KeptBy expand expand') (path : Bytes) (ds : List Declaration) (x : Expansion)
    (cache : Option HeaderCache) (h : (e.splice fs expand path ds x cache).1 = .ok x') :
    x.diagnostics <+: x'.diagnostics ∧
      (x'.Complete → (e.searchingAlso more).splice fs expand' path ds x cache =
        e.splice fs expand path ds x cache) := by
  induction ds generalizing x cache with
  | nil =>
      cases h
      exact ⟨List.prefix_refl _, fun _ => rfl⟩
  | cons d ds ih =>
      have hadd : (x.add d).diagnostics = x.diagnostics := x.add_diagnostics d
      cases hd : d.quotedInclude? with
      | none =>
          rw [splice_cons_other hd] at h
          rw [splice_cons_other hd, splice_cons_other hd, ← hadd]
          exact ih _ _ h
      | some name =>
          cases hfollow : e.follow fs path name with
          | failed error =>
              rw [splice_cons_failed hd hfollow] at h
              cases h
          | missing diagnostic =>
              rw [splice_cons_missing hd hfollow] at h
              obtain ⟨hkept, -⟩ := ih _ _ h
              rw [Expansion.note_diagnostics, hadd] at hkept
              refine ⟨(List.prefix_append _ _).trans hkept, fun hcomplete => ?_⟩
              have hreported : diagnostic ∈ x'.diagnostics := hkept.subset (by simp)
              exact absurd (cause_of_follow_missing hfollow) (hcomplete diagnostic hreported)
          | header target =>
              have hfollow' := follow_searchingAlso hfollow more
              by_cases hmem : target ∈ x.files
              · rw [splice_cons_known hd hfollow hmem] at h
                rw [splice_cons_known hd hfollow hmem, splice_cons_known hd hfollow' hmem, ← hadd]
                exact ih _ _ h
              · rw [splice_cons_nested hd hfollow hmem] at h
                rw [splice_cons_nested hd hfollow hmem, splice_cons_nested hd hfollow' hmem]
                rcases hnested : expand target (x.add d) cache with ⟨_ | between, cache'⟩
                · rw [hnested] at h
                  cases h
                · rw [hnested] at h
                  obtain ⟨hbefore, hinside⟩ := hexpand target (x.add d) cache between (by rw [hnested])
                  obtain ⟨hbehind, hsame⟩ := ih _ _ h
                  refine ⟨hadd ▸ hbefore.trans hbehind, fun hcomplete => ?_⟩
                  -- What the nested header reports stays reported, so it is complete too.
                  have hbetween : between.Complete := fun d hd => hcomplete d (hbehind.subset hd)
                  rw [hinside hbetween, hnested]
                  exact hsame hcomplete

/-- Each level of nesting is complete if the one around it is. -/
theorem expandWithin_searchingAlso (e : Expander) (fs : FileSystem) (more : List Bytes)
    (nesting : Nat) :
    KeptBy (e.expandWithin fs nesting) ((e.searchingAlso more).expandWithin fs nesting) := by
  induction nesting with
  | zero =>
      intro path x cache x' h
      cases h
      exact ⟨List.prefix_refl _, fun _ => rfl⟩
  | succ nesting ih =>
      intro path x cache x' h
      unfold expandWithin at h ⊢
      dsimp only at h ⊢
      rw [load_searchingAlso]
      cases hload : e.load fs cache path with
      | mk result cache' =>
          rw [hload] at h
          cases result with
          | error error => cases h
          | ok content =>
              obtain ⟨hkept, hsame⟩ := splice_searchingAlso ih _ _ _ _ h
              exact ⟨(List.prefix_append _ _).trans hkept, hsame⟩

/-- An expansion that succeeds with every include found is the same with more search paths behind
the others, in either mode and with any cache, and so is the cache it leaves. -/
theorem expand_append_searchPaths (e : Expander) (fs : FileSystem) (cache : Option HeaderCache)
    (path : Bytes) (more : List Bytes) (x : Expansion) (h : (e.expand fs cache path).1 = .ok x)
    (hfound : ∀ d ∈ x.diagnostics, d.cause ≠ .headerNotFound) :
    ({ e with searchPaths := e.searchPaths ++ more } : Expander).expand fs cache path =
      (.ok x, (e.expand fs cache path).2) := by
  have hsame : (e.searchingAlso more).expand fs cache path = e.expand fs cache path := by
    unfold expand at h ⊢
    cases hroot : fs.resolve path with
    | error error => rfl
    | ok root =>
        rw [hroot] at h
        exact (e.expandWithin_searchingAlso fs more _ root .start cache x h).2 hfound
  exact hsame.trans (Prod.ext h rfl)

/-! ## A header in two search paths -/

/-- The first header includes one that each of two directories has. -/
def shadowedHeaders : FileSystem :=
  ⟨[([ascii "a"], .file (ascii "#include \"n\"\n") 1),
    ([ascii "p"], .directory), ([ascii "p", ascii "n"], .file (ascii "int x;\n") 1),
    ([ascii "q"], .directory), ([ascii "q", ascii "n"], .file (ascii "int f();\n") 1)], []⟩

/-- Collects faults, and looks for includes in one of the directories. -/
def oneSearch : Expander :=
  ⟨[ascii "p"], ⟨false, false, false⟩, true⟩

/-- The header that is found is broken, which is reported, and the other one is not read. -/
theorem expand_append_searchPaths_shadowed :
    let fault := (Diagnostic.ofFault scalarFault).setSource (ascii "/p/n") (ascii "/p/n")
    let x : Expansion :=
      ⟨[.inclusion ⟨ascii "n", .custom⟩], [fault], [ascii "/a", ascii "/p/n"]⟩
    (oneSearch.expand shadowedHeaders none (ascii "a")).1 = .ok x ∧
      (∀ d ∈ x.diagnostics, d.cause ≠ .headerNotFound) ∧
      (({ oneSearch with searchPaths := [ascii "p", ascii "q"] } : Expander).expand
        shadowedHeaders none (ascii "a")).1 = .ok x := by
  intro fault x
  have hroot : shadowedHeaders.resolve (ascii "a") = .ok (ascii "/a") := by
    rw [FileSystem.resolve_eq_overLinks]
    decide +kernel
  have hfirst : shadowedHeaders.read (ascii "/a") = .ok (ascii "#include \"n\"\n") := by
    rw [FileSystem.read, FileSystem.find_eq_overLinks]
    decide +kernel
  have hsecond : shadowedHeaders.read (ascii "/p/n") = .ok (ascii "int x;\n") := by
    rw [FileSystem.read, FileSystem.find_eq_overLinks]
    decide +kernel
  have hfollow : oneSearch.follow shadowedHeaders (ascii "/a") (ascii "n") =
      .header (ascii "/p/n") := by
    simp only [follow, lookUp?, FileSystem.isFile_eq, FileSystem.find_eq_overLinks,
      FileSystem.resolve_eq_overLinks]
    decide +kernel
  have hincludes : oneSearch.readFile shadowedHeaders (ascii "/a") =
      .ok ⟨[.inclusion ⟨ascii "n", .custom⟩], []⟩ := by
    rw [readFile_of_read hfirst]
    decide +kernel
  have hbroken : oneSearch.readFile shadowedHeaders (ascii "/p/n") = .ok ⟨[], [fault]⟩ := by
    rw [readFile_of_read hsecond]
    decide +kernel
  have hexpands : oneSearch.Expands shadowedHeaders none (ascii "a") [ascii "/a", ascii "/p/n"]
      (.ok x) none :=
    .resolved hroot (.read (.uncached hincludes)
      (.nested rfl hfollow (by decide) (.read (.uncached hbroken) .done) .done))
  have hx := hexpands.eq_expand.symm
  have hfound : ∀ d ∈ x.diagnostics, d.cause ≠ .headerNotFound := by decide
  have hsame := expand_append_searchPaths oneSearch shadowedHeaders none (ascii "a") [ascii "q"] x
    hx hfound
  exact ⟨hx, hfound, congrArg Prod.fst hsame⟩

end Expander

end HeaderBinding
