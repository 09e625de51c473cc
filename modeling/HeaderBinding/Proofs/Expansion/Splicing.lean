import HeaderBinding.Proofs.Expansion.Reachable

/-!
# The declarations of an expansion

An expansion that succeeds gives the spliced sequence of its root, less every declaration whose key
occurs earlier in that sequence. So nothing is lost: each declaration of each expanded file is there
by the first one with its key, and an include that was left out for its key is still followed.
-/

namespace HeaderBinding

/-! ## The first declaration of each key -/

/-- The declarations whose keys are neither among the earlier ones nor occur before them. -/
def Declaration.firstOfEachKey (earlier : List DeclarationKey) :
    List Declaration → List Declaration
  | [] => []
  | d :: ds =>
    let others := firstOfEachKey (d.key :: earlier) ds
    if d.key ∈ earlier then others else d :: others

namespace Declaration

variable {earlier : List DeclarationKey} {ds kept : List Declaration} {d : Declaration}

theorem firstOfEachKey_cons (h : d.key ∉ earlier) :
    firstOfEachKey earlier (d :: ds) = d :: firstOfEachKey (d.key :: earlier) ds :=
  if_neg h

theorem firstOfEachKey_cons_of_mem (h : d.key ∈ earlier) :
    firstOfEachKey earlier (d :: ds) = firstOfEachKey (d.key :: earlier) ds :=
  if_pos h

/-- Adding declarations one by one keeps the first of each key. -/
theorem foldl_keepNew (h : ∀ k, k ∈ earlier ↔ k ∈ kept.map key) :
    ds.foldl keepNew kept = kept ++ firstOfEachKey earlier ds := by
  induction ds generalizing kept earlier with
  | nil => exact (List.append_nil kept).symm
  | cons d ds ih =>
      have hany : kept.any (·.key == d.key) = true ↔ d.key ∈ earlier := by
        rw [h]
        simp
      by_cases hd : d.key ∈ earlier
      · rw [List.foldl_cons, keepNew, if_pos (hany.mpr hd), firstOfEachKey_cons_of_mem hd]
        refine ih fun k => ?_
        rw [← h, List.mem_cons, or_iff_right_of_imp (fun hk => hk ▸ hd)]
      · have hkept : ∀ k, k ∈ d.key :: earlier ↔ k ∈ (kept ++ [d]).map key := by
          intro k
          simp [h, or_comm]
        rw [List.foldl_cons, keepNew, if_neg (mt hany.mp hd), firstOfEachKey_cons hd, ih hkept,
          List.append_assoc, List.singleton_append]

theorem foldl_keepNew_nil : ds.foldl keepNew [] = firstOfEachKey [] ds :=
  foldl_keepNew fun _ => by simp

theorem firstOfEachKey_sublist : (firstOfEachKey earlier ds).Sublist ds := by
  induction ds generalizing earlier with
  | nil => exact List.Sublist.refl _
  | cons d ds ih =>
      by_cases hd : d.key ∈ earlier
      · rw [firstOfEachKey_cons_of_mem hd]
        exact ih.cons d
      · rw [firstOfEachKey_cons hd]
        exact ih.cons_cons d

theorem key_not_mem_earlier (h : d ∈ firstOfEachKey earlier ds) : d.key ∉ earlier := by
  induction ds generalizing earlier with
  | nil => exact absurd h List.not_mem_nil
  | cons d' ds ih =>
      by_cases hd : d'.key ∈ earlier
      · rw [firstOfEachKey_cons_of_mem hd] at h
        exact fun hmem => ih h (List.mem_cons_of_mem _ hmem)
      · rw [firstOfEachKey_cons hd] at h
        rcases List.mem_cons.mp h with rfl | h
        · exact hd
        · exact fun hmem => ih h (List.mem_cons_of_mem _ hmem)

theorem nodup_firstOfEachKey : ((firstOfEachKey earlier ds).map key).Nodup := by
  induction ds generalizing earlier with
  | nil => exact List.nodup_nil
  | cons d ds ih =>
      by_cases hd : d.key ∈ earlier
      · rw [firstOfEachKey_cons_of_mem hd]
        exact ih
      · rw [firstOfEachKey_cons hd, List.map_cons, List.nodup_cons]
        refine ⟨fun hmem => ?_, ih⟩
        obtain ⟨d', hd', hkey⟩ := List.mem_map.mp hmem
        exact key_not_mem_earlier hd' (hkey ▸ List.mem_cons_self)

/-- A key that is new has its first declaration kept. -/
theorem exists_first (h : d ∈ ds) (hnew : d.key ∉ earlier) :
    ∃ before first after, ds = before ++ first :: after ∧ first.key = d.key ∧
      (∀ b ∈ before, b.key ≠ d.key) ∧ first ∈ firstOfEachKey earlier ds := by
  induction ds generalizing earlier with
  | nil => exact absurd h List.not_mem_nil
  | cons d' ds ih =>
      by_cases hkey : d'.key = d.key
      · refine ⟨[], d', ds, rfl, hkey, nofun, ?_⟩
        rw [firstOfEachKey_cons (hkey ▸ hnew)]
        exact List.mem_cons_self
      · have hmem : d ∈ ds := (List.mem_cons.mp h).resolve_left fun heq => hkey (heq ▸ rfl)
        have hnew' : d.key ∉ d'.key :: earlier := by simp [hnew, Ne.symm hkey]
        obtain ⟨before, first, after, rfl, hfirst, hbefore, hkept⟩ := ih hmem hnew'
        refine ⟨d' :: before, first, after, rfl, hfirst,
          List.forall_mem_cons.mpr ⟨hkey, hbefore⟩, ?_⟩
        by_cases hd : d'.key ∈ earlier
        · rwa [firstOfEachKey_cons_of_mem hd]
        · rw [firstOfEachKey_cons hd]
          exact List.mem_cons_of_mem d' hkept

end Declaration

/-! ## The spliced sequence -/

namespace Expander

variable {e : Expander} {fs : FileSystem} {path root target : Bytes}
  {seen seen' seen'' : List Bytes} {ds spliced spliced' : List Declaration}

/-- There is one way to splice. -/
theorem Splices.unique (h : e.Splices fs seen path ds spliced seen')
    (h' : e.Splices fs seen path ds spliced' seen'') : spliced = spliced' ∧ seen' = seen'' := by
  induction h generalizing spliced' seen'' with
  | nil =>
      cases h'
      exact ⟨rfl, rfl⟩
  | other hd _ ih =>
      cases h' with
      | other _ hrest' =>
          obtain ⟨rfl, rfl⟩ := ih hrest'
          exact ⟨rfl, rfl⟩
      | known hfinds' => exact absurd hfinds' (hd _ _ rfl)
      | fresh hfinds' => exact absurd hfinds' (hd _ _ rfl)
  | known hfinds hmem _ ih =>
      cases h' with
      | other hd' => exact absurd hfinds (hd' _ _ rfl)
      | known _ _ hrest' =>
          obtain ⟨rfl, rfl⟩ := ih hrest'
          exact ⟨rfl, rfl⟩
      | fresh hfinds' hmem' => exact absurd (hfinds.unique hfinds' ▸ hmem) hmem'
  | fresh hfinds hmem hread _ _ ihnested ih =>
      cases h' with
      | other hd' => exact absurd hfinds (hd' _ _ rfl)
      | known hfinds' hmem' => exact absurd (hfinds.unique hfinds' ▸ hmem') hmem
      | fresh hfinds' _ hread' hnested' hrest' =>
          obtain rfl := hfinds.unique hfinds'
          cases hread.symm.trans hread'
          obtain ⟨rfl, rfl⟩ := ihnested hnested'
          obtain ⟨rfl, rfl⟩ := ih hrest'
          exact ⟨rfl, rfl⟩

theorem SplicesHeader.unique (h : e.SplicesHeader fs seen path spliced seen')
    (h' : e.SplicesHeader fs seen path spliced' seen'') : spliced = spliced' ∧ seen' = seen'' := by
  obtain ⟨content, hread, hsplices⟩ := h
  obtain ⟨content', hread', hsplices'⟩ := h'
  cases hread.symm.trans hread'
  exact hsplices.unique hsplices'

theorem Splices.declarations_subset (h : e.Splices fs seen path ds spliced seen') :
    ds ⊆ spliced := by
  induction h with
  | nil => exact List.Subset.refl _
  | other _ _ ih => exact List.cons_subset_cons _ ih
  | known _ _ _ ih => exact List.cons_subset_cons _ ih
  | fresh _ _ _ _ _ _ ih =>
      exact List.cons_subset_cons _ (List.subset_append_of_subset_right _ ih)

/-- The files that are expanded on the way are read, and their declarations are spliced in. -/
theorem Splices.content_subset (h : e.Splices fs seen path ds spliced seen') {f : Bytes}
    (hf : f ∈ seen') (hnew : f ∉ seen) :
    ∃ content, e.readFile fs f = .ok content ∧ content.declarations ⊆ spliced := by
  induction h with
  | nil => exact absurd hf hnew
  | other _ _ ih =>
      obtain ⟨content, hread, hsubset⟩ := ih hf hnew
      exact ⟨content, hread, List.subset_cons_of_subset _ hsubset⟩
  | known _ _ _ ih =>
      obtain ⟨content, hread, hsubset⟩ := ih hf hnew
      exact ⟨content, hread, List.subset_cons_of_subset _ hsubset⟩
  | @fresh _ _ _ target _ _ _ between _ _ _ _ hread hnested _ ihnested ih =>
      -- The file is the included one, is expanded below it, or is expanded behind it.
      by_cases hbetween : f ∈ between
      · obtain ⟨content, hread, hsubset⟩ : ∃ content, e.readFile fs f = .ok content ∧
            content.declarations ⊆ _ := by
          by_cases htarget : f = target
          · exact ⟨_, htarget ▸ hread, hnested.declarations_subset⟩
          · exact ihnested hbetween (by simp [hnew, htarget])
        exact ⟨content, hread, List.subset_cons_of_subset _
          (List.subset_append_of_subset_left _ hsubset)⟩
      · obtain ⟨content, hread, hsubset⟩ := ih hf hbetween
        exact ⟨content, hread, List.subset_cons_of_subset _
          (List.subset_append_of_subset_right _ hsubset)⟩

theorem SplicesHeader.content_subset (h : e.SplicesHeader fs [] root spliced seen') {f : Bytes}
    (hf : f ∈ seen') :
    ∃ content, e.readFile fs f = .ok content ∧ content.declarations ⊆ spliced := by
  obtain ⟨content, hread, hsplices⟩ := h
  by_cases hroot : f = root
  · exact ⟨content, hroot ▸ hread, hsplices.declarations_subset⟩
  · exact hsplices.content_subset hf (by simpa using hroot)

/-- A call that succeeds gives the one spliced sequence of its root without the declarations whose
keys occur earlier in it. Keys are unique, order is kept, each declaration of each expanded file is
represented by the first one with its key, and every include of an expanded file is followed. -/
theorem expand_splices_firstOfEachKey (e : Expander) (fs : FileSystem)
    (cache : Option HeaderCache) (path : Bytes) (x : Expansion) (hcache : e.FaithfulCache fs cache)
    (hx : (e.expand fs cache path).1 = .ok x) :
    ∃ root spliced, fs.resolve path = .ok root ∧
      (∀ spliced' files, e.SplicesHeader fs [] root spliced' files ↔
        spliced' = spliced ∧ files = x.files) ∧
      x.declarations = Declaration.firstOfEachKey [] spliced ∧
      (x.declarations.map Declaration.key).Nodup ∧
      x.declarations.Sublist spliced ∧
      (∀ f ∈ x.files, ∃ content, e.readFile fs f = .ok content ∧
        ∀ d ∈ content.declarations, ∃ before first after, spliced = before ++ first :: after ∧
          first.key = d.key ∧ (∀ b ∈ before, b.key ≠ d.key) ∧ first ∈ x.declarations) ∧
      ∀ f ∈ x.files, ∀ target, e.Includes fs f target → target ∈ x.files := by
  rw [expand_eq_uncached hcache] at hx
  obtain ⟨root, spliced, hroot, hsplices, -, hdeclarations⟩ := expand_splices hx
  rw [Declaration.foldl_keepNew_nil] at hdeclarations
  refine ⟨root, spliced, hroot, fun spliced' files => ⟨fun h => h.unique hsplices, ?_⟩,
    hdeclarations, ?_, ?_, fun f hf => ?_, fun f hf target hincludes => ?_⟩
  · rintro ⟨rfl, rfl⟩
    exact hsplices
  · rw [hdeclarations]
    exact Declaration.nodup_firstOfEachKey
  · rw [hdeclarations]
    exact Declaration.firstOfEachKey_sublist
  · obtain ⟨content, hread, hsubset⟩ := hsplices.content_subset hf
    refine ⟨content, hread, fun d hd => ?_⟩
    rw [hdeclarations]
    exact Declaration.exists_first (hsubset hd) List.not_mem_nil
  · obtain ⟨successors, hnext, hsubset⟩ := hsplices.depthFirst.closed hf List.not_mem_nil
    exact hsubset (hnext.mem_iff.mpr hincludes)

/-- The include of the second header stands once more at the end of the spliced sequence, where its
key has occurred. -/
theorem expand_splices_firstOfEachKey_cyclic :
    (noSearch.expand cyclicHeaders none (ascii "a")).1 =
        .ok ⟨[.inclusion ⟨ascii "l", .custom⟩, .inclusion ⟨ascii "a", .custom⟩], [],
          [ascii "/a", ascii "/b"]⟩ ∧
      noSearch.SplicesHeader cyclicHeaders [] (ascii "/a")
        [.inclusion ⟨ascii "l", .custom⟩, .inclusion ⟨ascii "a", .custom⟩,
          .inclusion ⟨ascii "l", .custom⟩] [ascii "/a", ascii "/b"] ∧
      [.inclusion ⟨ascii "l", .custom⟩, .inclusion ⟨ascii "a", .custom⟩] =
        Declaration.firstOfEachKey [] [.inclusion ⟨ascii "l", .custom⟩,
          .inclusion ⟨ascii "a", .custom⟩, .inclusion ⟨ascii "l", .custom⟩] := by
  have hx := expands_cyclicHeaders.eq_expand.symm
  obtain ⟨hfirst, hsecond, hthere, hback⟩ := cyclicHeaders_includes
  have hsplices : noSearch.SplicesHeader cyclicHeaders [] (ascii "/a")
      [.inclusion ⟨ascii "l", .custom⟩, .inclusion ⟨ascii "a", .custom⟩,
        .inclusion ⟨ascii "l", .custom⟩] [ascii "/a", ascii "/b"] :=
    ⟨_, hfirst, .fresh (follow_eq_header_iff.mp hthere) (by decide) hsecond
      (.known (follow_eq_header_iff.mp hback) (by decide) .nil)
      (.known (follow_eq_header_iff.mp hthere) (by decide) .nil)⟩
  obtain ⟨root, spliced, hroot, hunique, hdeclarations, -⟩ :=
    expand_splices_firstOfEachKey noSearch cyclicHeaders none (ascii "a") _ nofun hx
  cases resolve_cyclicHeaders.symm.trans hroot
  obtain ⟨rfl, -⟩ := (hunique _ _).mp hsplices
  exact ⟨hx, hsplices, hdeclarations⟩

end Expander

end HeaderBinding
