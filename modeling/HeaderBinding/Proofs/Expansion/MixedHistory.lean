import HeaderBinding.Proofs.Expansion.CacheHistory
import HeaderBinding.Proofs.Expansion.Modes

/-!
# Calls in both modes with one cache

An entry of a cache does not tell in which mode its header was read. While nothing but the mode and
the search paths changes, collecting calls still answer what they answer without a cache. A call
that fails at the first fault does so unless a collecting call has read a broken header that it
reads too: then it takes what is left of that header for the whole of it.
-/

namespace HeaderBinding

namespace Expander

variable {e : Expander} {fs : FileSystem} {task : Task} {x : Expansion} {path : Bytes}
  {cache cache' : Option HeaderCache} {reads : List Bytes} {out : Except ExpansionError Expansion}

/-! ## What a run leaves in the cache -/

/-- Whatever the entries of the cache are, a run adds only entries that hold what it reads. -/
theorem Runs.records (h : e.Runs fs task x cache reads out cache') :
    e.Records fs reads cache cache' := by
  induction h with
  | unreadable hload => exact hload.records
  | read hload _ ih => exact hload.records.trans ih
  | done | failed => exact records_refl
  | other _ _ ih => exact ih
  | missing _ _ _ ih => exact ih
  | known _ _ _ _ ih => exact ih
  | broken _ _ _ _ ih => exact ih
  | nested _ _ _ _ _ ihnested ih => exact ihnested.trans ih

theorem Expands.records (h : e.Expands fs cache path reads out cache') :
    e.Records fs reads cache cache' := by
  cases h with
  | unresolved => exact records_refl
  | resolved _ hrun => exact hrun.records

/-- A header that declares nothing is all that a call on it expands. -/
theorem expand_of_load {root : Bytes} {content : HeaderContent} (hroot : fs.resolve path = .ok root)
    (hload : e.load fs cache root = (.ok content, cache')) (hempty : content.declarations = []) :
    e.expand fs cache path = (.ok ⟨[], content.diagnostics, [root]⟩, cache') := by
  rw [expand, hroot]
  simp only [FileSystem.nestingBound, expandWithin, hload, hempty, splice, Expansion.start,
    List.nil_append]

end Expander

namespace ExpandCall

/-- The cache that calls leave one after another. -/
def cacheAfter : Option HeaderCache → List ExpandCall → Option HeaderCache
  | cache, [] => cache
  | cache, call :: calls => cacheAfter (call.expander.expand call.fs cache call.path).2 calls

/-- An entry holds what a collecting call reads, and if its header is broken then one of the calls
is a collecting call that reads it. -/
structure Gathered (e : Expander) (fs : FileSystem) (calls : List ExpandCall) (entry : CacheEntry) :
    Prop where
  current : e.collecting.Current fs entry
  reader : ∀ fault, e.Rejects fs entry.path fault →
    ∃ call ∈ calls, call.expander.collect = true ∧ call.Reads entry.path

def GatheredBy (e : Expander) (fs : FileSystem) (calls : List ExpandCall)
    (cache : Option HeaderCache) : Prop :=
  ∀ c ∈ cache, ∀ entry ∈ c.entries, Gathered e fs calls entry

/-- A call that differs from others in its mode and its search paths only. -/
structure Shares (e : Expander) (fs : FileSystem) (call : ExpandCall) : Prop where
  fs_eq : call.fs = fs
  options_eq : call.expander.options = e.options

variable {e : Expander} {fs : FileSystem} {all calls : List ExpandCall} {call : ExpandCall}
  {cache cache' : Option HeaderCache} {path : Bytes} {reads : List Bytes}
  {answer : Except ExpansionError Expansion}

theorem answers_append (cache : Option HeaderCache) (calls others : List ExpandCall) :
    answers cache (calls ++ others) =
      answers cache calls ++ answers (cacheAfter cache calls) others := by
  induction calls generalizing cache with
  | nil => rfl
  | cons call calls ih =>
      simp only [List.cons_append, answers, cacheAfter, ih]

theorem length_answers (cache : Option HeaderCache) (calls : List ExpandCall) :
    (answers cache calls).length = calls.length := by
  induction calls generalizing cache with
  | nil => rfl
  | cons call calls ih => simp only [answers, List.length_cons, ih]

/-! ## One call -/

namespace Shares

theorem readFile_collecting (h : Shares e fs call) (hmode : call.expander.collect = true) :
    call.expander.readFile fs path = e.collecting.readFile fs path := by
  refine readFile_congr ?_ rfl
  simp [Expander.readOptions, Expander.collecting, h.options_eq, hmode]

theorem readFile_failFast (h : Shares e fs call) (hmode : call.expander.collect = false) :
    call.expander.readFile fs path = e.failFast.readFile fs path := by
  refine readFile_congr ?_ rfl
  simp [Expander.readOptions, Expander.failFast, h.options_eq, hmode]

end Shares

/-- A collecting call finds nothing in the cache that it would not read. -/
theorem GatheredBy.faithfulCache (h : GatheredBy e fs all cache) (hshares : Shares e fs call)
    (hmode : call.expander.collect = true) : call.expander.FaithfulCache fs cache := by
  intro c hc entry hentry _
  rw [hshares.readFile_collecting hmode]
  exact (h c hc entry hentry).current.content

/-- By the mode of the call: a collecting call reads what it would read without a cache, and a call
that fails at the first fault keeps only headers that are not broken. -/
theorem GatheredBy.expands (h : GatheredBy e fs all cache) (ho : e.options.collect = false)
    (hcall : call ∈ all) (hshares : Shares e fs call)
    (hexpands : call.expander.Expands call.fs cache call.path reads answer cache') :
    GatheredBy e fs all cache' := by
  obtain rfl := hshares.fs_eq
  intro c' hc' entry hentry
  rcases hexpands.records c' hc' entry hentry with ⟨c, hc, hold⟩ | ⟨hpath, hstamp, hcontent⟩
  · exact h c hc entry hold
  cases hmode : call.expander.collect with
  | true =>
      rw [hshares.readFile_collecting hmode] at hcontent
      refine ⟨⟨hstamp, hcontent⟩, fun fault _ => ⟨call, hcall, hmode, ?_⟩⟩
      obtain ⟨reads₀, huncached⟩ := call.expander.expands_expand call.fs none call.path
      have hfaithful := h.faithfulCache hshares hmode
      obtain ⟨rfl, -⟩ := hexpands.agree huncached (hfaithful.faithfulOn _)
      exact ⟨reads, _, _, huncached, hpath⟩
  | false =>
      rw [hshares.readFile_failFast hmode] at hcontent
      have hcollecting := ((Expander.readFile_failFast_iff ho).mp hcontent).1
      exact ⟨⟨hstamp, hcollecting⟩, fun fault hrejects => absurd hcontent hrejects.readFile_ne_ok⟩

/-! ## All calls -/

theorem GatheredBy.cacheAfter (h : GatheredBy e fs all cache) (ho : e.options.collect = false)
    (hcalls : calls ⊆ all) (hshares : ∀ call ∈ calls, Shares e fs call) :
    GatheredBy e fs all (cacheAfter cache calls) := by
  induction calls generalizing cache with
  | nil => exact h
  | cons call calls ih =>
      obtain ⟨hcall, hcalls⟩ := List.cons_subset.mp hcalls
      obtain ⟨hfirst, hothers⟩ := List.forall_mem_cons.mp hshares
      obtain ⟨reads, hexpands⟩ := call.expander.expands_expand call.fs cache call.path
      exact ih (h.expands ho hcall hfirst hexpands) hcalls hothers

theorem gatheredBy_ofCapacity? (n : Int) : GatheredBy e fs all (HeaderCache.ofCapacity? n) := by
  intro c hc entry hentry
  rw [HeaderCache.entries_ofCapacity? hc] at hentry
  cases hentry

/-- What calls have gathered is faithful for a call that fails at the first fault, as long as none
of the collecting ones has read a broken header that it reads. -/
theorem GatheredBy.faithfulOn (h : GatheredBy call.expander call.fs all cache)
    (ho : call.expander.options.collect = false) (hmode : call.expander.collect = false)
    (hunbroken : ∀ c ∈ all, c.expander.collect = true → ∀ path fault, c.Reads path →
      call.Reads path → ¬call.expander.Rejects call.fs path fault)
    (hreads : ∀ path ∈ reads, call.Reads path) :
    call.expander.FaithfulOn call.fs reads cache := by
  intro c hc entry hentry hpath _
  obtain ⟨hcurrent, hreader⟩ := h c hc entry hentry
  rw [Shares.readFile_failFast ⟨rfl, rfl⟩ hmode]
  refine Expander.readFile_failFast_of_not_rejects ho (fun fault hrejects => ?_) hcurrent.content
  obtain ⟨earlier, hearlier, hcollect, hread⟩ := hreader fault hrejects
  exact hunbroken earlier hearlier hcollect _ fault hread (hreads _ hpath) hrejects

/-- A call that fails at the first fault answers what it answers without a cache, whatever calls in
either mode have filled the cache, unless a collecting one has read a broken header that it reads.
Then it reports nothing when it succeeds, and does not succeed if a reachable header is broken. -/
theorem answers_failFast_of_unbroken (n : Int) (earlier later : List ExpandCall) (call : ExpandCall)
    (ho : call.expander.options.collect = false) (hmode : call.expander.collect = false)
    (hshares : ∀ c ∈ earlier, Shares call.expander call.fs c)
    (hunbroken : ∀ c ∈ earlier, c.expander.collect = true → ∀ path fault, c.Reads path →
      call.Reads path → ¬call.expander.Rejects call.fs path fault) :
    ∃ answer,
      (answers (HeaderCache.ofCapacity? n) (earlier ++ call :: later))[earlier.length]? =
        some answer ∧
      answer = call.uncached ∧
      (∀ x, answer = .ok x → x.diagnostics = []) ∧
      ∀ root file fault, call.fs.resolve call.path = .ok root →
        Relation.ReflTransGen (call.expander.collecting.Includes call.fs) root file →
        call.expander.Rejects call.fs file fault → ∀ x, answer ≠ .ok x := by
  let cache := cacheAfter (HeaderCache.ofCapacity? n) earlier
  have hself : call.expander.failFast = call.expander := by
    rw [Expander.failFast, ← hmode]
  have hgathered : GatheredBy call.expander call.fs earlier cache :=
    (gatheredBy_ofCapacity? n).cacheAfter ho (List.Subset.refl _) hshares
  obtain ⟨reads, hcached⟩ := call.expander.expands_expand call.fs cache call.path
  obtain ⟨reads₀, huncached⟩ := call.expander.expands_expand call.fs none call.path
  have hfaithful := hgathered.faithfulOn ho hmode hunbroken
    fun path hpath => ⟨reads₀, _, _, huncached, hpath⟩
  have hanswer : (call.expander.expand call.fs cache call.path).1 = call.uncached :=
    (hcached.agree huncached hfaithful).2.1
  refine ⟨_, ?_, hanswer, ?_, ?_⟩
  · rw [answers_append, List.getElem?_append_right (Nat.le_of_eq (length_answers ..)),
      length_answers, Nat.sub_self]
    rfl
  · intro x hx
    rw [hanswer, uncached, ← hself] at hx
    exact ((Expander.expand_failFast_iff ho).mp hx).2
  · intro root file fault hroot hfile hrejects x
    rw [hanswer, uncached, ← hself]
    exact Expander.expand_failFast_ne_ok ho
      (fun x hx => (Expander.expand_notes hx hroot hfile).rejected ho hrejects) x

/-- Behind a collecting call that has read the headers of a cycle, which are not broken. -/
theorem answers_failFast_of_unbroken_cyclic :
    (answers (HeaderCache.ofCapacity? 1)
      [⟨Expander.noSearch.collecting, Expander.cyclicHeaders, ascii "a"⟩,
        ⟨Expander.noSearch, Expander.cyclicHeaders, ascii "a"⟩])[1]? =
      some (.ok ⟨[.inclusion ⟨ascii "l", .custom⟩, .inclusion ⟨ascii "a", .custom⟩], [],
        [ascii "/a", ascii "/b"]⟩) := by
  have hunbroken : ∀ c ∈ [(⟨Expander.noSearch.collecting, Expander.cyclicHeaders, ascii "a"⟩ :
      ExpandCall)], c.expander.collect = true → ∀ path fault, c.Reads path →
      (⟨Expander.noSearch, Expander.cyclicHeaders, ascii "a"⟩ : ExpandCall).Reads path →
      ¬Expander.noSearch.Rejects Expander.cyclicHeaders path fault := by
    intro c _ _ path fault _ hreads hrejects
    obtain ⟨hfirst, hsecond, -⟩ := Expander.cyclicHeaders_includes
    rcases List.mem_pair.mp (hreads.mem Expander.expands_cyclicHeaders) with rfl | rfl
    · exact hrejects.readFile_ne_ok hfirst
    · exact hrejects.readFile_ne_ok hsecond
  obtain ⟨answer, hanswer, huncached, -⟩ := answers_failFast_of_unbroken 1
    [⟨Expander.noSearch.collecting, Expander.cyclicHeaders, ascii "a"⟩] []
    ⟨Expander.noSearch, Expander.cyclicHeaders, ascii "a"⟩ rfl rfl
    (fun c hc => by cases List.mem_singleton.mp hc; exact ⟨rfl, rfl⟩) hunbroken
  rw [uncached, ← Expander.expands_cyclicHeaders.eq_expand] at huncached
  exact hanswer.trans (congrArg some huncached)

/-! ## A broken header in the cache -/

/-- What a collecting call keeps of the broken header. -/
def scalarEntry : CacheEntry :=
  ⟨ascii "/b", ⟨1, 7⟩, ⟨[], [Expander.scalarDiagnostic]⟩⟩

/-- A call that fails at the first fault succeeds over a broken header that a collecting call has
left in the cache, though without a cache it fails. -/
theorem answers_failFast_over_broken :
    (∀ x, uncached ⟨Expander.noSearch, Expander.brokenHeaders, ascii "b"⟩ ≠ .ok x) ∧
      answers (HeaderCache.ofCapacity? 1)
        [⟨Expander.noSearch.collecting, Expander.brokenHeaders, ascii "b"⟩,
          ⟨Expander.noSearch, Expander.brokenHeaders, ascii "b"⟩] =
      [.ok ⟨[], [Expander.scalarDiagnostic], [ascii "/b"]⟩,
        .ok ⟨[], [Expander.scalarDiagnostic], [ascii "/b"]⟩] := by
  have hroot : Expander.brokenHeaders.resolve (ascii "b") = .ok (ascii "/b") := by
    rw [FileSystem.resolve_eq_overLinks]
    decide +kernel
  have hstamp : Expander.brokenHeaders.stamp? (ascii "/b") = some ⟨1, 7⟩ := by
    rw [FileSystem.stamp?, FileSystem.find_eq_overLinks]
    decide +kernel
  have hmiss : Expander.noSearch.collecting.load Expander.brokenHeaders (some ⟨1, []⟩)
      (ascii "/b") = (.ok scalarEntry.content, some ⟨1, [scalarEntry]⟩) := by
    rw [Expander.load, hstamp]
    simp only [HeaderCache.get, List.find?_nil, Expander.readFile_brokenHeaders.2]
    rfl
  have hhit : Expander.noSearch.load Expander.brokenHeaders (some ⟨1, [scalarEntry]⟩)
      (ascii "/b") = (.ok scalarEntry.content, some ⟨1, [scalarEntry]⟩) := by
    rw [Expander.load, hstamp]
    decide
  have hcollecting := Expander.expand_of_load hroot hmiss rfl
  have hfailFast := Expander.expand_of_load hroot hhit rfl
  refine ⟨fun x => ?_, ?_⟩
  · exact Expander.expand_failFast_ne_ok (e := Expander.noSearch) rfl
      (fun x hx => (Expander.expand_notes hx hroot .refl).rejected rfl
        Expander.brokenHeaders_rejects) x
  · rw [HeaderCache.ofCapacity?, if_pos (by decide), Int.toNat_one]
    simp only [answers, hcollecting, hfailFast]
    rfl

end ExpandCall

end HeaderBinding
