import HeaderBinding.FileSystem.Edit
import HeaderBinding.Proofs.Expansion.Includes

/-!
# Caches over a history

An expander is called again and again while files are written and removed, links are changed and
other search paths are set. If a file that is read twice under one canonical path with the same
stamp has the same content both times, then every call answers with a cache what it answers without
one: each entry holds what an earlier call has read, and is used only where the file still reads the
same.
-/

namespace HeaderBinding

/-! ## Histories -/

inductive HistoryStep where
  | expand (path : Bytes)
  | search (paths : List Bytes)
  | write (path content : Bytes) (modified : Int)
  | remove (path : Bytes)
  | link (path target : Bytes)
deriving Repr, DecidableEq

/-- A call of an expander on the file system as it is at that time. -/
structure ExpandCall where
  expander : Expander
  fs : FileSystem
  path : Bytes
deriving Repr, DecidableEq

def FileSystem.after (fs : FileSystem) : HistoryStep → FileSystem
  | .write path content modified => (fs.writeWithin path content modified).1
  | .remove path => (fs.remove path).1
  | .link path target => (fs.linkWithin path target).1
  | .expand _ | .search _ => fs

def Expander.after (e : Expander) : HistoryStep → Expander
  | .search paths => { e with searchPaths := paths }
  | _ => e

namespace ExpandCall

/-- The calls of a history. -/
def ofSteps (e : Expander) (fs : FileSystem) : List HistoryStep → List ExpandCall
  | [] => []
  | .expand path :: steps => ⟨e, fs, path⟩ :: ofSteps e fs steps
  | step :: steps => ofSteps (e.after step) (fs.after step) steps

/-- What calls answer one after another with a cache. -/
def answers : Option HeaderCache → List ExpandCall → List (Except ExpansionError Expansion)
  | _, [] => []
  | cache, call :: calls =>
    let (answer, cache) := call.expander.expand call.fs cache call.path
    answer :: answers cache calls

/-- What a call answers without a cache. -/
def uncached (call : ExpandCall) : Except ExpansionError Expansion :=
  (call.expander.expand call.fs none call.path).1

/-- What calls may answer with a cache that may lose entries at any time. -/
inductive Answers : Option HeaderCache → List ExpandCall → List (Except ExpansionError Expansion) →
    Prop
  | nil {cache} : Answers cache [] []
  | cons {cache call reads answer cache' calls others}
      (hcall : call.expander.Expands call.fs cache call.path reads answer cache')
      (hrest : Answers cache' calls others) : Answers cache (call :: calls) (answer :: others)

/-- A call reads the file at a path. -/
def Reads (call : ExpandCall) (path : Bytes) : Prop :=
  ∃ reads answer cache, call.expander.Expands call.fs none call.path reads answer cache ∧
    path ∈ reads

/-- A file that calls read twice with one stamp has one content. -/
def Stable (calls : List ExpandCall) : Prop :=
  ∀ call ∈ calls, ∀ call' ∈ calls, ∀ path stamp, call.Reads path → call'.Reads path →
    call.fs.stamp? path = some stamp → call'.fs.stamp? path = some stamp →
      call.fs.read path = call'.fs.read path

/-- Every entry holds what one of the calls has read. -/
def Recorded (calls : List ExpandCall) (cache : Option HeaderCache) : Prop :=
  ∀ c ∈ cache, ∀ entry ∈ c.entries, ∃ call ∈ calls, call.Reads entry.path ∧
    call.expander.Current call.fs entry

variable {e e' : Expander} {fs fs' : FileSystem} {steps : List HistoryStep}
  {all calls : List ExpandCall} {call : ExpandCall} {cache cache' : Option HeaderCache}
  {outs : List (Except ExpansionError Expansion)}

/-! ## What a file is read to -/

theorem readFile_congr {path : Bytes} (hoptions : e.readOptions = e'.readOptions)
    (hread : fs.read path = fs'.read path) : e.readFile fs path = e'.readFile fs' path := by
  simp only [Expander.readFile, Expander.readText, hoptions, hread]

theorem readOptions_of_mem_ofSteps (h : call ∈ ofSteps e fs steps) :
    call.expander.readOptions = e.readOptions := by
  induction steps generalizing e fs with
  | nil => exact absurd h List.not_mem_nil
  | cons step steps ih =>
      cases step with
      | expand path =>
          rcases List.mem_cons.mp h with rfl | h
          · rfl
          · exact ih h
      | search paths => exact (ih h).trans rfl
      | write path content modified => exact ih h
      | remove path => exact ih h
      | link path target => exact ih h

/-! ## One call -/

/-- What calls have read is faithful where any of them reads. -/
theorem Recorded.faithfulOn (h : Recorded all cache) (hstable : Stable all)
    (hoptions : ∀ c ∈ all, c.expander.readOptions = e.readOptions) (hcall : call ∈ all)
    {reads : List Bytes} (hreads : ∀ path ∈ reads, call.Reads path) :
    call.expander.FaithfulOn call.fs reads cache := by
  intro c hc entry hentry hpath hstamp
  obtain ⟨earlier, hearlier, hread, hcurrent⟩ := h c hc entry hentry
  have hsame : earlier.fs.read entry.path = call.fs.read entry.path :=
    hstable earlier hearlier call hcall entry.path entry.stamp hread (hreads _ hpath)
      hcurrent.stamp hstamp
  have hreaders : earlier.expander.readOptions = call.expander.readOptions :=
    (hoptions earlier hearlier).trans (hoptions call hcall).symm
  exact (readFile_congr hreaders hsame).symm.trans hcurrent.content

theorem Recorded.of_records {reads : List Bytes} (h : Recorded all cache)
    (hrecords : call.expander.Records call.fs reads cache cache') (hcall : call ∈ all)
    (hreads : ∀ path ∈ reads, call.Reads path) : Recorded all cache' := by
  intro c' hc' entry hentry
  rcases hrecords c' hc' entry hentry with ⟨c, hc, hold⟩ | ⟨hpath, hcurrent⟩
  · exact h c hc entry hold
  · exact ⟨call, hcall, hreads _ hpath, hcurrent⟩

/-! ## All calls -/

/-- By induction on the calls to come; that all entries were read by calls of the history is what
one call leaves to the next. -/
theorem Answers.eq_uncached (h : Answers cache calls outs) (hrecorded : Recorded all cache)
    (hstable : Stable all) (hoptions : ∀ c ∈ all, c.expander.readOptions = e.readOptions)
    (hcalls : calls ⊆ all) : outs = calls.map uncached := by
  induction h with
  | nil => rfl
  | @cons cache call reads answer cache' calls others hanswer _ ih =>
      obtain ⟨hcall, hcalls⟩ := List.cons_subset.mp hcalls
      obtain ⟨reads₀, huncached⟩ := call.expander.expands_expand call.fs none call.path
      have hreads : ∀ path ∈ reads₀, call.Reads path :=
        fun path hpath => ⟨_, _, _, huncached, hpath⟩
      obtain ⟨rfl, rfl, hrecords⟩ :=
        hanswer.agree huncached (hrecorded.faithfulOn hstable hoptions hcall hreads)
      rw [List.map_cons, ih (hrecorded.of_records hrecords hcall hreads) hcalls]
      rfl

theorem answers_answers (cache : Option HeaderCache) (calls : List ExpandCall) :
    Answers cache calls (answers cache calls) := by
  induction calls generalizing cache with
  | nil => exact .nil
  | cons call calls ih =>
      obtain ⟨reads, hcall⟩ := call.expander.expands_expand call.fs cache call.path
      exact .cons hcall (ih _)

/-- With a cache of any capacity every call of a stable history answers what it answers without one,
also if the cache loses entries at other times than the one here. -/
theorem answers_eq_uncached (e : Expander) (fs : FileSystem) (steps : List HistoryStep) (n : Int)
    (hn : 1 ≤ n) (hstable : Stable (ofSteps e fs steps)) :
    ∃ cache, HeaderCache.ofCapacity? n = some cache ∧
      answers (some cache) (ofSteps e fs steps) = (ofSteps e fs steps).map uncached ∧
      ∀ outs, Answers (some cache) (ofSteps e fs steps) outs →
        outs = (ofSteps e fs steps).map uncached := by
  have hempty : Recorded (ofSteps e fs steps) (some ⟨n.toNat, []⟩) := by
    rintro c ⟨⟩ entry hentry
    exact absurd hentry List.not_mem_nil
  have hany : ∀ outs, Answers (some ⟨n.toNat, []⟩) (ofSteps e fs steps) outs →
      outs = (ofSteps e fs steps).map uncached :=
    fun outs houts => houts.eq_uncached hempty hstable (fun call => readOptions_of_mem_ofSteps)
      (List.Subset.refl _)
  exact ⟨⟨n.toNat, []⟩, if_pos hn, hany _ (answers_answers _ _), hany⟩

/-! ## A header that changes between two calls -/

/-- The two headers that include each other, after the second one was written anew. -/
def rewrittenHeaders : FileSystem :=
  ⟨[([ascii "a"], .file (ascii "#include \"l\"\n#include \"l\"\n") 1),
    ([ascii "b"], .file (ascii "#define X\n") 2),
    ([ascii "l"], .link (ascii "b"))], []⟩

theorem read_rewrittenHeaders :
    Expander.cyclicHeaders.read (ascii "/a") = rewrittenHeaders.read (ascii "/a") := by
  simp only [FileSystem.read, FileSystem.find_eq_overLinks]
  decide +kernel

open Expander in
theorem expands_rewrittenHeaders :
    noSearch.Expands rewrittenHeaders none (ascii "a") [ascii "/a", ascii "/b"]
      (.ok ⟨[.inclusion ⟨ascii "l", .custom⟩, .macroName ⟨ascii "X", .define⟩], [],
        [ascii "/a", ascii "/b"]⟩) none := by
  have hroot : rewrittenHeaders.resolve (ascii "a") = .ok (ascii "/a") := by
    rw [FileSystem.resolve_eq_overLinks]
    decide +kernel
  have hthere : noSearch.follow rewrittenHeaders (ascii "/a") (ascii "l") =
      .header (ascii "/b") := by
    simp only [follow, lookUp?, FileSystem.isFile_eq, FileSystem.find_eq_overLinks,
      FileSystem.resolve_eq_overLinks]
    decide +kernel
  have hfirst : noSearch.readFile rewrittenHeaders (ascii "/a") =
      .ok ⟨[.inclusion ⟨ascii "l", .custom⟩, .inclusion ⟨ascii "l", .custom⟩], []⟩ := by
    rw [← cyclicHeaders_includes.1]
    exact readFile_congr rfl read_rewrittenHeaders.symm
  have hread : rewrittenHeaders.read (ascii "/b") = .ok (ascii "#define X\n") := by
    rw [FileSystem.read, FileSystem.find_eq_overLinks]
    decide +kernel
  have hsecond : noSearch.readFile rewrittenHeaders (ascii "/b") =
      .ok ⟨[.macroName ⟨ascii "X", .define⟩], []⟩ := by
    rw [readFile_of_read hread]
    decide +kernel
  exact .resolved hroot
    (.read (.uncached hfirst)
      (.nested rfl hthere (by decide) (.read (.uncached hsecond) (.other rfl .done))
        (.known rfl hthere (by decide) .done)))

theorem Reads.mem {path : Bytes} {reads : List Bytes} {answer : Except ExpansionError Expansion}
    {cache₀ : Option HeaderCache} (h : call.Reads path)
    (hcall : call.expander.Expands call.fs none call.path reads answer cache₀) : path ∈ reads := by
  obtain ⟨reads', answer', cache', hcall', hmem⟩ := h
  rwa [(hcall'.agree hcall Expander.faithfulOn_none).1] at hmem

/-- The second header has another stamp when it is read again, and the first one is as before. -/
theorem stable_rewrittenHeaders :
    Stable [⟨Expander.noSearch, Expander.cyclicHeaders, ascii "a"⟩,
      ⟨Expander.noSearch, rewrittenHeaders, ascii "a"⟩] := by
  have hbefore : Expander.cyclicHeaders.stamp? (ascii "/b") = some ⟨1, 13⟩ := by
    rw [FileSystem.stamp?, FileSystem.find_eq_overLinks]
    decide +kernel
  have hafter : rewrittenHeaders.stamp? (ascii "/b") = some ⟨2, 10⟩ := by
    rw [FileSystem.stamp?, FileSystem.find_eq_overLinks]
    decide +kernel
  have hcross : ∀ path stamp, path ∈ [ascii "/a", ascii "/b"] →
      Expander.cyclicHeaders.stamp? path = some stamp →
      rewrittenHeaders.stamp? path = some stamp →
      Expander.cyclicHeaders.read path = rewrittenHeaders.read path := by
    intro path stamp hpath hstamp hstamp'
    rcases List.mem_pair.mp hpath with rfl | rfl
    · exact read_rewrittenHeaders
    · cases hbefore.symm.trans hstamp
      cases hafter.symm.trans hstamp'
  intro call hcall call' hcall' path stamp hpath hpath' hstamp hstamp'
  rcases List.mem_pair.mp hcall with rfl | rfl <;> rcases List.mem_pair.mp hcall' with rfl | rfl
  · rfl
  · exact hcross path stamp (hpath.mem Expander.expands_cyclicHeaders) hstamp hstamp'
  · exact (hcross path stamp (hpath'.mem Expander.expands_cyclicHeaders) hstamp' hstamp).symm
  · rfl

/-- In a cache with room for one header, the second header is read anew behind the change. -/
theorem answers_eq_uncached_rewrittenHeaders :
    Stable (ofSteps Expander.noSearch Expander.cyclicHeaders
        [.expand (ascii "a"), .write (ascii "b") (ascii "#define X\n") 2,
          .expand (ascii "a")]) ∧
      answers (some ⟨1, []⟩) (ofSteps Expander.noSearch Expander.cyclicHeaders
        [.expand (ascii "a"), .write (ascii "b") (ascii "#define X\n") 2,
          .expand (ascii "a")]) =
      [.ok ⟨[.inclusion ⟨ascii "l", .custom⟩, .inclusion ⟨ascii "a", .custom⟩], [],
          [ascii "/a", ascii "/b"]⟩,
        .ok ⟨[.inclusion ⟨ascii "l", .custom⟩, .macroName ⟨ascii "X", .define⟩], [],
          [ascii "/a", ascii "/b"]⟩] := by
  have hwrite : Expander.cyclicHeaders.after
      (.write (ascii "b") (ascii "#define X\n") 2) = rewrittenHeaders := by
    have hmade : Expander.cyclicHeaders.makeDirectories (Path.directory (ascii "b")) =
        (Expander.cyclicHeaders, none) := by
      unfold FileSystem.makeDirectories FileSystem.makeDirectoriesWithin
      rw [FileSystem.find_eq_overLinks]
      decide +kernel
    simp only [FileSystem.after, FileSystem.writeWithin, FileSystem.withDirectory, hmade,
      FileSystem.write, FileSystem.writePlace_eq_overLinks]
    decide +kernel
  have hcalls : ofSteps Expander.noSearch Expander.cyclicHeaders
      [.expand (ascii "a"), .write (ascii "b") (ascii "#define X\n") 2, .expand (ascii "a")] =
      [⟨Expander.noSearch, Expander.cyclicHeaders, ascii "a"⟩,
        ⟨Expander.noSearch, rewrittenHeaders, ascii "a"⟩] := by
    simp only [ofSteps, hwrite, Expander.after]
  have hstable := hcalls ▸ stable_rewrittenHeaders
  obtain ⟨cache, hcache, hanswers, -⟩ := answers_eq_uncached Expander.noSearch
    Expander.cyclicHeaders _ 1 (by decide) hstable
  cases hcache
  refine ⟨hstable, hanswers.trans ?_⟩
  rw [hcalls, List.map_cons, List.map_singleton, uncached, uncached,
    ← Expander.expands_cyclicHeaders.eq_expand, ← expands_rewrittenHeaders.eq_expand]

end ExpandCall

end HeaderBinding
