import HeaderBinding.FileSystem.Basic
import HeaderBinding.Proofs.FileSystem.Path
import Mathlib.Data.List.Perm.Subperm

/-!
# Canonical paths

A resolved path is the path of a settled place: its components are plain, every place on the way is
a directory, and the node there is no link. Such a path resolves to itself.
-/

namespace HeaderBinding

namespace FileSystem

open HeaderBinding.Path (Plain cleanComponents)

variable {fs : FileSystem} {l resolved : List Bytes} {location : Location} {c path : Bytes}
  {node : FileNode}

/-! ## Examining a clean path -/

theorem refused?_eq_none_iff :
    refused? path = none ↔ 0 ∉ path ∧ path ≠ [] ∧ path.length < pathLimit := by
  unfold refused?
  by_cases h0 : 0 ∈ path <;> by_cases hne : path = [] <;> simp_all

theorem refused?_absolute_of_sublist {l' : List Bytes} (h : l'.Sublist l)
    (hl : refused? (Path.absolute l) = none) : refused? (Path.absolute l') = none := by
  have hsub := Path.absolute_sublist h
  obtain ⟨hzero, -, hlength⟩ := refused?_eq_none_iff.mp hl
  refine refused?_eq_none_iff.mpr ⟨fun h0 => hzero (hsub.subset h0), List.cons_ne_nil _ _, ?_⟩
  exact Nat.lt_of_le_of_lt hsub.length_le hlength

theorem examine_eq_ok_iff :
    fs.examine l = .ok node ↔
      refused? (Path.absolute l) = none ∧ (∀ c ∈ l, c.length ≤ nameLimit) ∧
        fs.node? (cleanComponents true l) = some node := by
  unfold examine
  dsimp only
  split
  · simp_all
  · by_cases hlong : ∃ c ∈ l, nameLimit < c.length
    · have hnames : ¬∀ c ∈ l, c.length ≤ nameLimit := by simpa using hlong
      simp [hlong, hnames]
    · have hnames : ∀ c ∈ l, c.length ≤ nameLimit := by simpa using hlong
      cases fs.node? (cleanComponents true l) <;> simp [iff_true_intro hnames, *]

/-- What is found at a path is found at the clean path too. -/
theorem examine_cleanComponents (h : fs.examine l = .ok node) :
    fs.examine (cleanComponents true l) = .ok node := by
  obtain ⟨hrefused, hnames, hnode⟩ := examine_eq_ok_iff.mp h
  have hsub : (cleanComponents true l).Sublist l := Path.cleanComponents_sublist
  refine examine_eq_ok_iff.mpr ⟨refused?_absolute_of_sublist hsub hrefused, ?_, ?_⟩
  · exact fun c hc => hnames c (hsub.subset hc)
  · rwa [Path.cleanComponents_of_kept Path.kept_cleanComponents]

/-! ## Settled places -/

/-- A place that is a directory below directories. -/
inductive Open (fs : FileSystem) : Location → Prop
  | root : fs.Open []
  | child {above : Location} {c : Bytes} (habove : fs.Open above) (hplain : Plain c)
      (hnode : fs.examine (above ++ [c]) = .ok .directory) : fs.Open (above ++ [c])

/-- A place below directories that holds no link. -/
inductive Settled (fs : FileSystem) : Location → Prop
  | root : fs.Settled []
  | child {above : Location} {c : Bytes} {node : FileNode} (habove : fs.Open above)
      (hplain : Plain c) (hnode : fs.examine (above ++ [c]) = .ok node)
      (hlink : ∀ target, node ≠ .link target) : fs.Settled (above ++ [c])

theorem Open.settled (h : fs.Open location) : fs.Settled location := by
  cases h with
  | root => exact .root
  | child habove hplain hnode => exact .child habove hplain hnode fun _ => nofun

theorem Open.dropLast (h : fs.Open location) : fs.Open location.dropLast := by
  cases h with
  | root => exact .root
  | child habove _ _ =>
      rw [List.dropLast_concat]
      exact habove

theorem Open.plain (h : fs.Open location) : ∀ c ∈ location, Plain c := by
  induction h with
  | root => exact nofun
  | child _ hplain _ ih =>
      exact List.forall_mem_append.mpr ⟨ih, List.forall_mem_singleton.mpr hplain⟩

theorem Settled.plain (h : fs.Settled location) : ∀ c ∈ location, Plain c := by
  cases h with
  | root => exact nofun
  | child habove hplain _ _ =>
      exact List.forall_mem_append.mpr ⟨habove.plain, List.forall_mem_singleton.mpr hplain⟩

/-- A settled place other than the root is one of the places of the file system. -/
theorem Settled.mem_nodes (h : fs.Settled location) (hne : location ≠ []) :
    location ∈ fs.nodes.map Prod.fst := by
  have hplain := h.plain
  cases h with
  | root => exact absurd rfl hne
  | child _ _ hnode _ =>
      obtain ⟨-, -, hnode⟩ := examine_eq_ok_iff.mp hnode
      rw [Path.cleanComponents_of_kept (Path.kept_of_plain hplain), node?,
        if_neg (by simp)] at hnode
      obtain ⟨before, after, hnodes, -⟩ := List.lookup_eq_some_iff.mp hnode
      simp [hnodes]

/-! ## Resolving leads to settled places -/

/-- What is kept while the components of a path are resolved: the clean path so far is open, and no
component of it is empty or the place itself. -/
structure Resolving (fs : FileSystem) (resolved : List Bytes) : Prop where
  no_skip : ∀ c ∈ resolved, c ≠ [] ∧ c ≠ ascii "."
  isOpen : fs.Open (cleanComponents true resolved)

theorem resolving_nil : fs.Resolving [] where
  no_skip := nofun
  isOpen := .root

theorem Resolving.append (h : fs.Resolving resolved) (hskip : ¬(c = [] ∨ c = ascii "."))
    (hopen : fs.Open (cleanComponents true (resolved ++ [c]))) :
    fs.Resolving (resolved ++ [c]) where
  no_skip :=
    List.forall_mem_append.mpr ⟨h.no_skip, List.forall_mem_singleton.mpr (not_or.mp hskip)⟩
  isOpen := hopen

/-- Both ways of going to the parent go to the parent of the clean path. -/
theorem cleanComponents_resolveParent (h : ∀ c ∈ resolved, c ≠ [] ∧ c ≠ ascii ".") :
    cleanComponents true (resolveParent resolved) = (cleanComponents true resolved).dropLast := by
  unfold resolveParent
  split
  · exact Path.cleanComponents_append_parent
  · rename_i hlast
    obtain ⟨hlength, hlast⟩ := not_or.mp hlast
    induction resolved using List.reverseRecOn with
    | nil => exact absurd (by decide) hlength
    | append_singleton front c _ =>
        obtain ⟨hne, hdot⟩ := h c (by simp)
        rw [Path.cleanComponents_append_plain hne hdot (by simpa using hlast)]
        simp

theorem Resolving.resolveParent (h : fs.Resolving resolved) :
    fs.Resolving (resolveParent resolved) where
  no_skip := by
    intro c hc
    unfold FileSystem.resolveParent at hc
    split at hc
    · rcases List.mem_append.mp hc with hc | hc
      · exact h.no_skip c hc
      · rw [List.mem_singleton.mp hc]
        decide
    · exact h.no_skip c (List.dropLast_subset _ hc)
  isOpen := by
    rw [cleanComponents_resolveParent h.no_skip]
    exact h.isOpen.dropLast

/-- What is examined behind a path stands right below the clean path. -/
theorem examine_cleanComponents_append (hskip : ¬(c = [] ∨ c = ascii "."))
    (hparent : c ≠ ascii "..") (hnode : fs.examine (resolved ++ [c]) = .ok node) :
    fs.examine (cleanComponents true resolved ++ [c]) = .ok node := by
  obtain ⟨hne, hdot⟩ := not_or.mp hskip
  rw [← Path.cleanComponents_append_plain hne hdot hparent]
  exact examine_cleanComponents hnode

theorem settled_of_resolveComponents {links : Nat} {components out : List Bytes}
    (h : fs.resolveComponents links resolved components = .ok out)
    (hresolved : fs.Resolving resolved) (hslash : ∀ c ∈ components, Path.slash ∉ c) :
    fs.Settled (cleanComponents true out) := by
  fun_induction resolveComponents fs links resolved components with
  | case1 links resolved =>
      cases h
      exact hresolved.isOpen.settled
  | case2 links resolved c cs hskip ih => exact ih h hresolved (List.forall_mem_cons.mp hslash).2
  | case3 links resolved cs hskip ih =>
      exact ih h hresolved.resolveParent (List.forall_mem_cons.mp hslash).2
  | case4 => cases h
  | case5 => cases h
  -- A link starts over at the root or stays where it stands; both are open.
  | case6 resolved c cs hskip hparent target hnode links ih =>
      refine ih h ?_ (List.forall_mem_append.mpr ⟨?_, (List.forall_mem_cons.mp hslash).2⟩)
      · split
        · exact resolving_nil
        · exact hresolved
      · exact fun c => Path.not_slash_of_mem_components
  | case7 links resolved c cs hskip hparent hnode ih =>
      obtain ⟨hc, hcs⟩ := List.forall_mem_cons.mp hslash
      obtain ⟨hne, hdot⟩ := not_or.mp hskip
      refine ih h (hresolved.append hskip ?_) hcs
      rw [Path.cleanComponents_append_plain hne hdot hparent]
      exact hresolved.isOpen.child ⟨hne, hdot, hparent, hc⟩
        (examine_cleanComponents_append hskip hparent hnode)
  | case8 links resolved c cs hskip hparent content modified hnode hlast =>
      obtain ⟨hc, hcs⟩ := List.forall_mem_cons.mp hslash
      obtain ⟨hne, hdot⟩ := not_or.mp hskip
      cases h
      rw [Path.cleanComponents_append_plain hne hdot hparent]
      exact .child hresolved.isOpen ⟨hne, hdot, hparent, hc⟩
        (examine_cleanComponents_append hskip hparent hnode) (fun _ => nofun)
  | case9 => cases h

/-- A path that resolves has the path of a settled place for its canonical form. -/
theorem settled_of_resolve {r : Bytes} (h : fs.resolve path = .ok r) :
    ∃ location, r = Path.absolute location ∧ fs.Settled location := by
  unfold resolve at h
  dsimp only at h
  cases hout : fs.resolveComponents replacementLimit [] (Path.components (fs.absolute path)) with
  | error error =>
      rw [hout] at h
      cases h
  | ok out =>
      rw [hout] at h
      cases h
      refine ⟨_, rfl, settled_of_resolveComponents hout resolving_nil ?_⟩
      exact fun c => Path.not_slash_of_mem_components

/-! ## Settled places resolve to themselves -/

theorem resolveComponents_plain (links : Nat) (hplain : Plain c) (cs : List Bytes)
    (hnode : fs.examine (resolved ++ [c]) = .ok .directory) :
    fs.resolveComponents links resolved (c :: cs) =
      fs.resolveComponents links (resolved ++ [c]) cs := by
  rw [resolveComponents, if_neg (not_or.mpr ⟨hplain.ne_nil, hplain.ne_dot⟩),
    if_neg hplain.ne_parent, hnode]

theorem resolveComponents_open (links : Nat) (h : fs.Open location) (cs : List Bytes) :
    fs.resolveComponents links [] (location ++ cs) = fs.resolveComponents links location cs := by
  induction h generalizing cs with
  | root => rfl
  | child habove hplain hnode ih =>
      rw [List.append_assoc, ih, List.singleton_append,
        resolveComponents_plain links hplain cs hnode]

theorem resolveComponents_settled (links : Nat) (h : fs.Settled location) :
    fs.resolveComponents links [] location = .ok location := by
  cases h with
  | root => rw [resolveComponents]
  | @child above c node habove hplain hnode hlink =>
      rw [resolveComponents_open links habove [c]]
      cases node with
      | directory => rw [resolveComponents_plain links hplain [] hnode, resolveComponents]
      | file content modified =>
          rw [resolveComponents, if_neg (not_or.mpr ⟨hplain.ne_nil, hplain.ne_dot⟩),
            if_neg hplain.ne_parent, hnode]
          rfl
      | link target => exact absurd rfl (hlink target)

theorem resolveComponents_skip (links : Nat) (cs : List Bytes) :
    fs.resolveComponents links [] ([] :: cs) = fs.resolveComponents links [] cs := by
  rw [resolveComponents, if_pos (.inl rfl)]

theorem resolve_absolute (h : fs.Settled location) :
    fs.resolve (Path.absolute location) = .ok (Path.absolute location) := by
  have hplain := h.plain
  have habsolute : fs.absolute (Path.absolute location) = Path.absolute location := by
    rw [absolute, if_pos (by rfl), Path.clean_absolute hplain]
  have hcomponents : fs.resolveComponents replacementLimit []
      (Path.components (Path.absolute location)) = .ok location := by
    by_cases hne : location = []
    · subst hne
      rw [show Path.components (Path.absolute []) = [[], []] by decide, resolveComponents_skip,
        resolveComponents_skip, resolveComponents]
    · rw [Path.components_absolute hne fun c hc => (hplain c hc).no_slash, resolveComponents_skip,
        resolveComponents_settled _ h]
  unfold resolve
  dsimp only
  rw [habsolute, hcomponents, Except.map, Path.cleanComponents_of_kept (Path.kept_of_plain hplain)]

/-- A canonical path is its own canonical form. -/
theorem resolve_resolve {r : Bytes} (h : fs.resolve path = .ok r) : fs.resolve r = .ok r := by
  obtain ⟨location, rfl, hsettled⟩ := settled_of_resolve h
  exact resolve_absolute hsettled

/-! ## Counting canonical paths -/

/-- The paths of the places of a file system, the root included. -/
def paths (fs : FileSystem) : List Bytes :=
  Path.absolute [] :: fs.nodes.map fun entry => Path.absolute entry.1

theorem mem_paths_of_resolve {r : Bytes} (h : fs.resolve path = .ok r) : r ∈ fs.paths := by
  obtain ⟨location, rfl, hsettled⟩ := settled_of_resolve h
  by_cases hne : location = []
  · rw [hne]
    exact List.mem_cons_self
  · obtain ⟨entry, hentry, rfl⟩ := List.mem_map.mp (hsettled.mem_nodes hne)
    exact List.mem_cons_of_mem _ (List.mem_map_of_mem hentry)

/-- There are no more canonical paths than places. -/
theorem length_le_of_canonical {files : List Bytes} (hnodup : files.Nodup)
    (hcanonical : ∀ f ∈ files, fs.resolve f = .ok f) : files.length ≤ fs.nodes.length + 1 := by
  have hsubset : files ⊆ fs.paths := fun f hf => mem_paths_of_resolve (hcanonical f hf)
  calc files.length ≤ fs.paths.length := (List.subperm_of_subset hnodup hsubset).length_le
    _ = fs.nodes.length + 1 := by simp [paths]

end FileSystem

end HeaderBinding
