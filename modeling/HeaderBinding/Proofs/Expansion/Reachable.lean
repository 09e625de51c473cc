import HeaderBinding.Proofs.Expansion.Includes
import Mathlib.Logic.Relation

/-!
# The files of an expansion

An expansion that succeeds lists exactly the files that are reachable from its root through quoted
includes, each once, in depth-first order with the includes of a file in their order in the file.
-/

namespace HeaderBinding

/-! ## Depth-first order -/

/-- Visits what is pending in its order, given what is visited: what is new is visited, and right
behind it what comes next to it. `next` gives the successors of a node in their order. -/
inductive DepthFirst {α : Type} (next : α → List α → Prop) :
    (visited pending visited' : List α) → Prop
  | nil {visited} : DepthFirst next visited [] visited
  | old {visited a pending visited'} (hmem : a ∈ visited)
      (hrest : DepthFirst next visited pending visited') :
      DepthFirst next visited (a :: pending) visited'
  | new {visited a successors between pending visited'} (hmem : a ∉ visited)
      (hnext : next a successors)
      (hbelow : DepthFirst next (visited ++ [a]) successors between)
      (hrest : DepthFirst next between pending visited') :
      DepthFirst next visited (a :: pending) visited'

namespace DepthFirst

variable {α : Type} {next : α → List α → Prop} {visited pending visited' : List α} {root a : α}

theorem visited_subset (h : DepthFirst next visited pending visited') : visited ⊆ visited' := by
  induction h with
  | nil => exact List.Subset.refl _
  | old _ _ ih => exact ih
  | new _ _ _ _ ihbelow ih =>
      exact fun a ha => ih (ihbelow (List.mem_append_left _ ha))

theorem pending_subset (h : DepthFirst next visited pending visited') : pending ⊆ visited' := by
  induction h with
  | nil => exact List.nil_subset _
  | old hmem hrest ih => exact List.cons_subset.mpr ⟨hrest.visited_subset hmem, ih⟩
  | new _ _ hbelow hrest _ ih =>
      refine List.cons_subset.mpr ⟨hrest.visited_subset (hbelow.visited_subset ?_), ih⟩
      exact List.mem_append_right _ (List.mem_singleton.mpr rfl)

/-- What is visited newly has all its successors visited. -/
theorem closed (h : DepthFirst next visited pending visited') (ha : a ∈ visited')
    (hnew : a ∉ visited) : ∃ successors, next a successors ∧ successors ⊆ visited' := by
  induction h with
  | nil => exact absurd ha hnew
  | old _ _ ih => exact ih ha hnew
  | @new visited b successors between pending visited' _ hnext hbelow hrest ihbelow ih =>
      by_cases hbetween : a ∈ between
      · by_cases hab : a = b
        · subst hab
          exact ⟨successors, hnext, fun c hc => hrest.visited_subset (hbelow.pending_subset hc)⟩
        · obtain ⟨successors', hnext', hsubset⟩ := ihbelow hbetween (by simp [hnew, hab])
          exact ⟨successors', hnext', fun c hc => hrest.visited_subset (hsubset hc)⟩
      · exact ih ha hbetween

/-- What is visited newly is reachable from something that was pending. -/
theorem reachable {step : α → α → Prop}
    (hstep : ∀ a successors, next a successors → ∀ b ∈ successors, step a b)
    (h : DepthFirst next visited pending visited') (ha : a ∈ visited') :
    a ∈ visited ∨ ∃ b ∈ pending, Relation.ReflTransGen step b a := by
  induction h with
  | nil => exact .inl ha
  | old _ _ ih =>
      refine (ih ha).imp_right fun ⟨b, hb, hreach⟩ => ⟨b, List.mem_cons_of_mem _ hb, hreach⟩
  | @new visited b successors between pending visited' _ hnext _ _ ihbelow ih =>
      rcases ih ha with hbetween | ⟨c, hc, hreach⟩
      · rcases ihbelow hbetween with hvisited | ⟨c, hc, hreach⟩
        · rcases List.mem_append.mp hvisited with hvisited | hab
          · exact .inl hvisited
          · rw [List.mem_singleton.mp hab]
            exact .inr ⟨b, List.mem_cons_self, .refl⟩
        · exact .inr ⟨b, List.mem_cons_self, .head (hstep b successors hnext c hc) hreach⟩
      · exact .inr ⟨c, List.mem_cons_of_mem _ hc, hreach⟩

/-- A whole visit reaches exactly what can be reached from its root. -/
theorem mem_iff_reachable {step : α → α → Prop}
    (hstep : ∀ a successors, next a successors → ∀ b, b ∈ successors ↔ step a b)
    (h : DepthFirst next [] [root] visited') :
    a ∈ visited' ↔ Relation.ReflTransGen step root a := by
  constructor
  · intro ha
    rcases h.reachable (fun a successors hnext b => (hstep a successors hnext b).mp) ha with
      hnil | ⟨b, hb, hreach⟩
    · exact absurd hnil List.not_mem_nil
    · rwa [List.mem_singleton.mp hb] at hreach
  · intro hreach
    induction hreach with
    | refl => exact h.pending_subset (List.mem_singleton.mpr rfl)
    | @tail b c _ hbc ih =>
        obtain ⟨successors, hnext, hsubset⟩ := h.closed ih List.not_mem_nil
        exact hsubset ((hstep b successors hnext c).mpr hbc)

end DepthFirst

/-! ## Includes in their order -/

namespace Expander

/-- The files that the quoted includes among declarations of the header at a path name, in the order
of the includes. Those that name none are left out. -/
inductive Targets (e : Expander) (fs : FileSystem) (path : Bytes) :
    List Declaration → List Bytes → Prop
  | nil : e.Targets fs path [] []
  | other {d ds targets}
      (hd : ∀ name target, d = .inclusion ⟨name, .custom⟩ → ¬e.Finds fs path name target)
      (hrest : e.Targets fs path ds targets) : e.Targets fs path (d :: ds) targets
  | found {name target ds targets} (hfinds : e.Finds fs path name target)
      (hrest : e.Targets fs path ds targets) :
      e.Targets fs path (.inclusion ⟨name, .custom⟩ :: ds) (target :: targets)

/-- The files that the header at a path includes, in the order of its includes. -/
def IncludesInOrder (e : Expander) (fs : FileSystem) (path : Bytes) (targets : List Bytes) : Prop :=
  ∃ content, e.readFile fs path = .ok content ∧ e.Targets fs path content.declarations targets

variable {e : Expander} {fs : FileSystem} {path target : Bytes} {seen seen' targets : List Bytes}
  {ds spliced : List Declaration}

theorem Targets.mem_iff (h : e.Targets fs path ds targets) :
    target ∈ targets ↔ ∃ name, .inclusion ⟨name, .custom⟩ ∈ ds ∧ e.Finds fs path name target := by
  induction h with
  | nil => simp
  | @other d ds targets hd _ ih =>
      rw [ih]
      constructor
      · rintro ⟨name, hmem, hfinds⟩
        exact ⟨name, List.mem_cons_of_mem d hmem, hfinds⟩
      · rintro ⟨name, hmem, hfinds⟩
        rcases List.mem_cons.mp hmem with heq | hmem
        · exact absurd hfinds (hd name target heq.symm)
        · exact ⟨name, hmem, hfinds⟩
  | @found name' target' ds targets hfinds' _ ih =>
      rw [List.mem_cons, ih]
      constructor
      · rintro (rfl | ⟨name, hmem, hfinds⟩)
        · exact ⟨name', List.mem_cons_self, hfinds'⟩
        · exact ⟨name, List.mem_cons_of_mem _ hmem, hfinds⟩
      · rintro ⟨name, hmem, hfinds⟩
        rcases List.mem_cons.mp hmem with heq | hmem
        · cases heq
          exact .inl (hfinds.unique hfinds')
        · exact .inr ⟨name, hmem, hfinds⟩

theorem IncludesInOrder.mem_iff (h : e.IncludesInOrder fs path targets) :
    target ∈ targets ↔ e.Includes fs path target := by
  obtain ⟨content, hread, htargets⟩ := h
  rw [htargets.mem_iff]
  constructor
  · rintro ⟨name, hmem, hfinds⟩
    exact ⟨content, name, hread, hmem, hfinds⟩
  · rintro ⟨content', name, hread', hmem, hfinds⟩
    cases hread.symm.trans hread'
    exact ⟨name, hmem, hfinds⟩

/-- Splicing goes into the included files in depth-first order. -/
theorem Splices.depthFirst (h : e.Splices fs seen path ds spliced seen') :
    ∃ targets, e.Targets fs path ds targets ∧
      DepthFirst (e.IncludesInOrder fs) seen targets seen' := by
  induction h with
  | nil => exact ⟨[], .nil, .nil⟩
  | other hd _ ih =>
      obtain ⟨targets, htargets, hfirst⟩ := ih
      exact ⟨targets, .other hd htargets, hfirst⟩
  | known hfinds hmem _ ih =>
      obtain ⟨targets, htargets, hfirst⟩ := ih
      exact ⟨_, .found hfinds htargets, .old hmem hfirst⟩
  | fresh hfinds hmem hread _ _ ihnested ih =>
      obtain ⟨below, hbelow, hfirstBelow⟩ := ihnested
      obtain ⟨targets, htargets, hfirst⟩ := ih
      exact ⟨_, .found hfinds htargets, .new hmem ⟨_, hread, hbelow⟩ hfirstBelow hfirst⟩

theorem SplicesHeader.depthFirst {root : Bytes} (h : e.SplicesHeader fs [] root spliced seen') :
    DepthFirst (e.IncludesInOrder fs) [] [root] seen' := by
  obtain ⟨content, hread, hsplices⟩ := h
  obtain ⟨targets, htargets, hfirst⟩ := hsplices.depthFirst
  exact .new List.not_mem_nil ⟨content, hread, htargets⟩ hfirst .nil

/-! ## Reachable files -/

/-- Every call ends, whatever the file system and the cache: its answer is the outcome of a run that
nothing bounds. If it succeeds, with no cache or one that is faithful, its files are different
canonical paths, exactly those reachable from the resolved path through quoted includes, in
depth-first order. -/
theorem expand_visits_reachable (e : Expander) (fs : FileSystem) (cache : Option HeaderCache)
    (path : Bytes) :
    (∃ reads, e.Expands fs cache path reads (e.expand fs cache path).1
      (e.expand fs cache path).2) ∧
    ∀ x, e.FaithfulCache fs cache → (e.expand fs cache path).1 = .ok x →
      ∃ root, fs.resolve path = .ok root ∧
        x.files.Nodup ∧
        (∀ f ∈ x.files, fs.resolve f = .ok f) ∧
        (∀ f, f ∈ x.files ↔ Relation.ReflTransGen (e.Includes fs) root f) ∧
        DepthFirst (e.IncludesInOrder fs) [] [root] x.files := by
  refine ⟨e.expands_expand fs cache path, fun x hcache hx => ?_⟩
  rw [expand_eq_uncached hcache] at hx
  obtain ⟨root, spliced, hroot, hsplices, hvisited, -⟩ := expand_splices hx
  have hfirst := hsplices.depthFirst
  refine ⟨root, hroot, hvisited.nodup, hvisited.canonical, fun f => ?_, hfirst⟩
  exact hfirst.mem_iff_reachable fun a successors hnext b => hnext.mem_iff

/-- What is reachable from a header on a cycle is the cycle, by its canonical paths. -/
theorem expand_visits_reachable_cyclic :
    (noSearch.expand cyclicHeaders none (ascii "a")).1 =
        .ok ⟨[.inclusion ⟨ascii "l", .custom⟩, .inclusion ⟨ascii "a", .custom⟩], [],
          [ascii "/a", ascii "/b"]⟩ ∧
      ∀ f, f ∈ [ascii "/a", ascii "/b"] ↔
        Relation.ReflTransGen (noSearch.Includes cyclicHeaders) (ascii "/a") f := by
  have hx := expands_cyclicHeaders.eq_expand.symm
  obtain ⟨root, hroot, -, -, hreachable, -⟩ :=
    (expand_visits_reachable noSearch cyclicHeaders none (ascii "a")).2 _ nofun hx
  cases resolve_cyclicHeaders.symm.trans hroot
  exact ⟨hx, hreachable⟩

end Expander

end HeaderBinding
