import HeaderBinding.Proofs.Expansion.Reachable
import HeaderBinding.Proofs.Reading.Collecting

/-!
# Failing at once and collecting

An expander that fails at the first fault and one that collects them take the same steps as long as
there is nothing to report. Where they differ, the collecting one has something to report: a header
that is broken, or an include that names no file.
-/

namespace HeaderBinding

namespace Expander

/-! ## The two modes -/

/-- The expander that fails at the first fault. -/
def failFast (e : Expander) : Expander :=
  { e with collect := false }

/-- The expander that reports faults and goes on. -/
def collecting (e : Expander) : Expander :=
  { e with collect := true }

/-- The header at a path is broken: reading it up to its first fault ends at this one. -/
def Rejects (e : Expander) (fs : FileSystem) (path : Bytes) (fault : Fault) : Prop :=
  ∃ text, fs.read path = .ok text ∧ (readHeader e.failFast.readOptions text).fault = some fault

/-- The header at a path includes a name in quotes, as far as it can be read, that no file is found
for. -/
def Misses (e : Expander) (fs : FileSystem) (path name : Bytes) : Prop :=
  ∃ content, e.collecting.readFile fs path = .ok content ∧
    .inclusion ⟨name, .custom⟩ ∈ content.declarations ∧ ∀ target, ¬e.Finds fs path name target

/-- What is reported of a header that includes something that is not found. -/
def notFound (path name : Bytes) : Diagnostic :=
  ⟨.headerNotFound, name, path, path, 0, 0, 0⟩

variable {e e' : Expander} {fs : FileSystem} {path name : Bytes} {content : HeaderContent}
  {task : Task} {x x' : Expansion} {cache cache' : Option HeaderCache} {reads : List Bytes}
  {out : Except ExpansionError Expansion} {fault : Fault}

/-! ## One header -/

theorem readText_eq_ok_iff {text : Bytes} :
    e.readText path text = .ok content ↔
      (readHeader e.readOptions text).fault = none ∧
        content = ⟨(readHeader e.readOptions text).declarations,
          (readHeader e.readOptions text).diagnostics.map
            fun f => (Diagnostic.ofFault f).setSource path path⟩ := by
  unfold readText
  dsimp only
  split
  · rename_i fault hfault
    simp [hfault]
  · rename_i hfault
    simp [hfault, eq_comm]

theorem readFile_eq_ok_iff :
    e.readFile fs path = .ok content ↔
      ∃ text, fs.read path = .ok text ∧ e.readText path text = .ok content := by
  unfold readFile
  cases fs.read path <;> simp

theorem readOptions_collecting :
    e.collecting.readOptions = { e.failFast.readOptions with collect := true } := by
  simp [readOptions, failFast, collecting]

theorem Rejects.readFile_ne_ok (h : e.Rejects fs path fault) :
    e.failFast.readFile fs path ≠ .ok content := by
  obtain ⟨text, htext, hfault⟩ := h
  rw [readFile_of_read htext, Ne, readText_eq_ok_iff, hfault]
  rintro ⟨⟨⟩, -⟩

section

variable (ho : e.options.collect = false)
include ho

theorem readOptions_failFast : e.failFast.readOptions.collect = false := by
  simp [readOptions, failFast, ho]

/-- What is read up to the end without a fault is what a collecting reader reads with nothing to
report. -/
theorem readText_failFast_iff {text : Bytes} :
    e.failFast.readText path text = .ok content ↔
      e.collecting.readText path text = .ok content ∧ content.diagnostics = [] := by
  have hdiagnostics := readTokens_diagnostics (readOptions_failFast ho) (tokenize text)
  rw [readText_eq_ok_iff, readText_eq_ok_iff, readOptions_collecting]
  constructor
  · rintro ⟨hfault, rfl⟩
    have hsame : readHeader { e.failFast.readOptions with collect := true } text =
        readHeader e.failFast.readOptions text :=
      readTokens_collect_of_none (readOptions_failFast ho) hfault
    rw [hsame]
    refine ⟨⟨hfault, rfl⟩, ?_⟩
    rw [readHeader, hdiagnostics]
    rfl
  · rintro ⟨⟨hfault, rfl⟩, hnone⟩
    cases hread : (readHeader e.failFast.readOptions text).fault with
    | none =>
        have hsame : readHeader { e.failFast.readOptions with collect := true } text =
            readHeader e.failFast.readOptions text :=
          readTokens_collect_of_none (readOptions_failFast ho) hread
        rw [hsame]
        exact ⟨rfl, rfl⟩
    | some fault =>
        -- The fault would stop the collecting reader, or be among what it has to report.
        rcases readTokens_collect_of_some (readOptions_failFast ho) hread with hstop | hnoted
        · cases hfault.symm.trans hstop
        · rw [List.map_eq_nil_iff] at hnone
          rw [readHeader] at hnone
          rw [hnone] at hnoted
          cases hnoted

theorem readFile_failFast_iff :
    e.failFast.readFile fs path = .ok content ↔
      e.collecting.readFile fs path = .ok content ∧ content.diagnostics = [] := by
  simp only [readFile_eq_ok_iff, readText_failFast_iff ho]
  constructor
  · rintro ⟨text, hread, htext, hnone⟩
    exact ⟨⟨text, hread, htext⟩, hnone⟩
  · rintro ⟨⟨text, hread, htext⟩, hnone⟩
    exact ⟨text, hread, htext, hnone⟩

/-- A header that is not broken is read to the same in both modes. -/
theorem readFile_failFast_of_not_rejects (h : ∀ fault, ¬e.Rejects fs path fault)
    (hread : e.collecting.readFile fs path = .ok content) :
    e.failFast.readFile fs path = .ok content := by
  obtain ⟨text, htext, -⟩ := readFile_eq_ok_iff.mp hread
  have hnone : (readHeader e.failFast.readOptions text).fault = none :=
    Option.eq_none_iff_forall_not_mem.mpr fun fault hfault => h fault ⟨text, htext, hfault⟩
  have hfailFast := readFile_eq_ok_iff.mpr ⟨text, htext, readText_eq_ok_iff.mpr ⟨hnone, rfl⟩⟩
  have hsame := ((readFile_failFast_iff ho).mp hfailFast).1
  cases hread.symm.trans hsame
  exact hfailFast

/-- A collecting reader that gets through a broken header reports why it is broken. -/
theorem Rejects.mem_diagnostics (h : e.Rejects fs path fault)
    (hread : e.collecting.readFile fs path = .ok content) :
    (Diagnostic.ofFault fault).setSource path path ∈ content.diagnostics := by
  obtain ⟨text, htext, hfault⟩ := h
  rw [readFile_of_read htext, readText_eq_ok_iff, readOptions_collecting] at hread
  obtain ⟨hnone, rfl⟩ := hread
  rcases readTokens_collect_of_some (readOptions_failFast ho) hfault with hstop | hnoted
  · cases hnone.symm.trans hstop
  · exact List.mem_map_of_mem hnoted

end

/-- Where an include leads does not depend on the mode. -/
theorem follow_failFast_iff {target : Bytes} :
    e.failFast.follow fs path name = .header target ↔
      e.collecting.follow fs path name = .header target := by
  rw [follow_eq_header_iff, follow_eq_header_iff]
  exact Iff.rfl

theorem follow_failFast_ne_missing {diagnostic : Diagnostic} :
    e.failFast.follow fs path name ≠ .missing diagnostic := by
  unfold follow
  split
  · split <;> simp
  · simp [failFast]

theorem follow_collecting_eq_missing {diagnostic : Diagnostic}
    (h : e.collecting.follow fs path name = .missing diagnostic) :
    diagnostic = notFound path name := by
  unfold follow at h
  split at h
  · split at h <;> cases h
  · simp only [collecting, if_true] at h
    cases h
    rfl

/-! ## Runs with nothing to report -/

/-- Reads what another expander reads with nothing to report, and follows includes where it does. -/
structure Covers (e e' : Expander) (fs : FileSystem) : Prop where
  readFile : ∀ {path content}, e'.readFile fs path = .ok content → content.diagnostics = [] →
    e.readFile fs path = .ok content
  follow : ∀ {path name target}, e'.follow fs path name = .header target →
    e.follow fs path name = .header target

theorem failFast_covers (ho : e.options.collect = false) (fs : FileSystem) :
    e.failFast.Covers e.collecting fs where
  readFile h hnone := (readFile_failFast_iff ho).mpr ⟨h, hnone⟩
  follow h := follow_failFast_iff.mpr h

theorem collecting_covers (ho : e.options.collect = false) (fs : FileSystem) :
    e.collecting.Covers e.failFast fs where
  readFile h _ := ((readFile_failFast_iff ho).mp h).1
  follow h := follow_failFast_iff.mp h

end Expander

namespace Expansion

variable (x : Expansion) (path : Bytes) (content : HeaderContent) (diagnostic : Diagnostic)
  (d : Declaration)

@[simp] theorem enter_diagnostics :
    (x.enter path content).diagnostics = x.diagnostics ++ content.diagnostics := rfl

@[simp] theorem note_diagnostics :
    (x.note diagnostic).diagnostics = x.diagnostics ++ [diagnostic] := rfl

@[simp] theorem add_diagnostics : (x.add d).diagnostics = x.diagnostics := by
  unfold add
  split <;> rfl

end Expansion

namespace Expander

variable {e e' : Expander} {fs : FileSystem} {path name : Bytes} {content : HeaderContent}
  {task : Task} {x x' : Expansion} {cache cache' : Option HeaderCache} {reads : List Bytes}
  {out : Except ExpansionError Expansion} {fault : Fault}

/-- What was reported stays reported. -/
theorem Runs.diagnostics_prefix (h : e.Runs fs task x cache reads out cache')
    (hout : out = .ok x') :
    x.diagnostics <+: x'.diagnostics := by
  induction h generalizing x' with
  | unreadable => cases hout
  | read _ _ ih =>
      have hrest := ih hout
      rw [Expansion.enter_diagnostics] at hrest
      exact (List.prefix_append _ _).trans hrest
  | done =>
      cases hout
      exact List.prefix_refl _
  | other _ _ ih => simpa using ih hout
  | failed => cases hout
  | missing _ _ _ ih =>
      have hrest := ih hout
      rw [Expansion.note_diagnostics, Expansion.add_diagnostics] at hrest
      exact (List.prefix_append _ _).trans hrest
  | known _ _ _ _ ih => simpa using ih hout
  | broken => cases hout
  | nested _ _ _ _ _ ihnested ih =>
      have hnested := ihnested rfl
      rw [Expansion.add_diagnostics] at hnested
      exact hnested.trans (ih hout)

/-- What lies between two equal lists of reports is no report. -/
theorem eq_nil_of_append_prefix {α : Type} {before added after : List α}
    (h : before ++ added <+: after) (heq : after = before) : added = [] := by
  subst heq
  have hlength := h.length_le
  rw [List.length_append] at hlength
  exact List.eq_nil_of_length_eq_zero (by omega)

/-- By induction on the run: with nothing to report, the expander that covers the other one loads
the same headers and follows the same includes. -/
theorem Runs.covered (h : e.Runs fs task x cache reads out cache') (hcovers : e'.Covers e fs)
    (hnone : cache = none) (hout : out = .ok x') (hquiet : x'.diagnostics = x.diagnostics) :
    e'.Runs fs task x none reads (.ok x') none := by
  induction h generalizing x' with
  | unreadable => cases hout
  | read hload hrest ih =>
      subst hnone
      cases hload with
      | uncached hread =>
          have hprefix := hrest.diagnostics_prefix hout
          rw [Expansion.enter_diagnostics] at hprefix
          have hcontent := eq_nil_of_append_prefix hprefix hquiet
          refine .read (.uncached (hcovers.readFile hread hcontent)) (ih rfl hout ?_)
          rw [Expansion.enter_diagnostics, hcontent, List.append_nil, hquiet]
  | done =>
      cases hout
      exact .done
  | other hd _ ih => exact .other hd (ih hnone hout (by simpa using hquiet))
  | failed => cases hout
  | missing _ _ hrest _ =>
      -- The header that is missing would be reported.
      have hprefix := hrest.diagnostics_prefix hout
      rw [Expansion.note_diagnostics, Expansion.add_diagnostics] at hprefix
      cases eq_nil_of_append_prefix hprefix hquiet
  | known hd hfollow hmem _ ih =>
      exact .known hd (hcovers.follow hfollow) hmem (ih hnone hout (by simpa using hquiet))
  | broken => cases hout
  | @nested path d ds x cache _ _ _ between _ _ _ _ hd hfollow hmem hnested hrest ihnested ih =>
      have hbefore := hnested.diagnostics_prefix rfl
      have hafter := hrest.diagnostics_prefix hout
      rw [Expansion.add_diagnostics] at hbefore
      -- Reports only grow, so there are none on either side of the nested header.
      have hbetween : between.diagnostics = x.diagnostics :=
        (hbefore.eq_of_length_le (hquiet ▸ hafter.length_le)).symm
      refine .nested hd (hcovers.follow hfollow) hmem (ihnested hnone rfl ?_)
        (ih (hnested.eq_none hnone) hout (hquiet.trans hbetween.symm))
      rw [Expansion.add_diagnostics, hbetween]

/-- An expander that fails at the first fault has nothing to report when it succeeds. -/
theorem Runs.failFast_quiet (h : e.failFast.Runs fs task x cache reads out cache')
    (ho : e.options.collect = false) (hnone : cache = none) (hout : out = .ok x') :
    x'.diagnostics = x.diagnostics := by
  induction h generalizing x' with
  | unreadable => cases hout
  | read hload _ ih =>
      subst hnone
      cases hload with
      | uncached hread =>
          rw [ih rfl hout, Expansion.enter_diagnostics, ((readFile_failFast_iff ho).mp hread).2,
            List.append_nil]
  | done =>
      cases hout
      rfl
  | other _ _ ih => simpa using ih hnone hout
  | failed => cases hout
  | missing _ hfollow => exact absurd hfollow follow_failFast_ne_missing
  | known _ _ _ _ ih => simpa using ih hnone hout
  | broken => cases hout
  | nested _ _ _ hnested _ ihnested ih =>
      rw [ih (hnested.eq_none hnone) hout, ihnested hnone rfl, Expansion.add_diagnostics]

theorem expand_covered (hcovers : e'.Covers e fs) (h : (e.expand fs none path).1 = .ok x)
    (hquiet : x.diagnostics = []) : (e'.expand fs none path).1 = .ok x := by
  obtain ⟨reads, hexpands⟩ := e.expands_expand fs none path
  rw [h] at hexpands
  cases hexpands with
  | resolved hroot hrun =>
      have hrun' := hrun.covered hcovers rfl rfl hquiet
      exact (Expands.resolved hroot hrun').eq_expand.symm

/-- With a fault to report, the two modes part; with none, they are one. -/
theorem expand_failFast_iff (ho : e.options.collect = false) :
    (e.failFast.expand fs none path).1 = .ok x ↔
      (e.collecting.expand fs none path).1 = .ok x ∧ x.diagnostics = [] := by
  constructor
  · intro h
    have hquiet : x.diagnostics = [] := by
      obtain ⟨reads, hexpands⟩ := e.failFast.expands_expand fs none path
      rw [h] at hexpands
      cases hexpands with
      | resolved _ hrun => exact hrun.failFast_quiet ho rfl rfl
    exact ⟨expand_covered (collecting_covers ho fs) h hquiet, hquiet⟩
  · rintro ⟨h, hquiet⟩
    exact expand_covered (failFast_covers ho fs) h hquiet

/-- What a collecting call would report makes the other one fail. -/
theorem expand_failFast_ne_ok (ho : e.options.collect = false) {diagnostic : Diagnostic}
    (hnoted : ∀ x, (e.collecting.expand fs none path).1 = .ok x → diagnostic ∈ x.diagnostics)
    (x : Expansion) : (e.failFast.expand fs none path).1 ≠ .ok x := by
  intro hx
  obtain ⟨hcollecting, hnone⟩ := (expand_failFast_iff ho).mp hx
  have hmem := hnoted x hcollecting
  rw [hnone] at hmem
  cases hmem

/-! ## Everything is reported -/

/-- Every include among declarations of the header at a path names a file or is reported. -/
def NotesIncludes (e : Expander) (fs : FileSystem) (diagnostics : List Diagnostic) (path : Bytes)
    (ds : List Declaration) : Prop :=
  ∀ name, .inclusion ⟨name, .custom⟩ ∈ ds →
    (∃ target, e.Finds fs path name target) ∨ notFound path name ∈ diagnostics

/-- The header at a path is read, and what is wrong with it and with its includes is reported. -/
def Notes (e : Expander) (fs : FileSystem) (diagnostics : List Diagnostic) (path : Bytes) : Prop :=
  ∃ content, e.readFile fs path = .ok content ∧ content.diagnostics ⊆ diagnostics ∧
    e.NotesIncludes fs diagnostics path content.declarations

def Task.Notes (e : Expander) (fs : FileSystem) (diagnostics : List Diagnostic) : Task → Prop
  | .header path => e.Notes fs diagnostics path
  | .declarations path ds => e.NotesIncludes fs diagnostics path ds

theorem NotesIncludes.cons {diagnostics : List Diagnostic} {d : Declaration}
    {ds : List Declaration} (h : e.NotesIncludes fs diagnostics path ds)
    (hd : ∀ name, d.quotedInclude? = some name →
      (∃ target, e.Finds fs path name target) ∨ notFound path name ∈ diagnostics) :
    e.NotesIncludes fs diagnostics path (d :: ds) := by
  intro name hmem
  rcases List.mem_cons.mp hmem with heq | hmem
  · exact hd name (Declaration.quotedInclude?_eq_some_iff.mpr heq.symm)
  · exact h name hmem

theorem Notes.mono {diagnostics diagnostics' : List Diagnostic}
    (h : e.Notes fs diagnostics path) (hsubset : diagnostics ⊆ diagnostics') :
    e.Notes fs diagnostics' path := by
  obtain ⟨content, hread, hcontent, hincludes⟩ := h
  refine ⟨content, hread, fun d hd => hsubset (hcontent hd), fun name hname => ?_⟩
  exact (hincludes name hname).imp_right fun hnoted => hsubset hnoted

/-- By induction on the run; a report that one step makes is kept by the steps behind it. -/
theorem Runs.notes (h : e.collecting.Runs fs task x cache reads out cache') (hnone : cache = none)
    (hout : out = .ok x') :
    task.Notes e.collecting fs x'.diagnostics ∧
      ∀ file ∈ reads, e.collecting.Notes fs x'.diagnostics file := by
  induction h generalizing x' with
  | unreadable => cases hout
  | read hload hrest ih =>
      subst hnone
      cases hload with
      | uncached hread =>
          obtain ⟨hincludes, hbelow⟩ := ih rfl hout
          have hprefix := hrest.diagnostics_prefix hout
          rw [Expansion.enter_diagnostics] at hprefix
          have hnotes : e.collecting.Notes fs _ _ :=
            ⟨_, hread, fun d hd => hprefix.subset (List.mem_append_right _ hd), hincludes⟩
          exact ⟨hnotes, List.forall_mem_cons.mpr ⟨hnotes, hbelow⟩⟩
  | done => exact ⟨nofun, nofun⟩
  | other hd _ ih =>
      obtain ⟨hincludes, hbelow⟩ := ih hnone hout
      exact ⟨hincludes.cons (by simp [hd]), hbelow⟩
  | failed => cases hout
  | missing hd hfollow hrest ih =>
      obtain ⟨hincludes, hbelow⟩ := ih hnone hout
      have hprefix := hrest.diagnostics_prefix hout
      rw [Expansion.note_diagnostics, follow_collecting_eq_missing hfollow] at hprefix
      refine ⟨hincludes.cons fun name hname => .inr ?_, hbelow⟩
      cases hd.symm.trans hname
      exact hprefix.subset (List.mem_append_right _ (List.mem_singleton.mpr rfl))
  | known hd hfollow _ _ ih =>
      obtain ⟨hincludes, hbelow⟩ := ih hnone hout
      refine ⟨hincludes.cons fun name hname => .inl ?_, hbelow⟩
      cases hd.symm.trans hname
      exact ⟨_, follow_eq_header_iff.mp hfollow⟩
  | broken => cases hout
  | nested hd hfollow _ hnested hrest ihnested ih =>
      obtain ⟨-, hinside⟩ := ihnested hnone rfl
      obtain ⟨hincludes, hbelow⟩ := ih (hnested.eq_none hnone) hout
      have hkept := (hrest.diagnostics_prefix hout).subset
      refine ⟨hincludes.cons fun name hname => .inl ?_, ?_⟩
      · cases hd.symm.trans hname
        exact ⟨_, follow_eq_header_iff.mp hfollow⟩
      · exact List.forall_mem_append.mpr ⟨fun file hfile => (hinside file hfile).mono hkept, hbelow⟩

/-- A collecting call that succeeds reports what is wrong with each reachable header. -/
theorem expand_notes {root file : Bytes} (h : (e.collecting.expand fs none path).1 = .ok x)
    (hroot : fs.resolve path = .ok root)
    (hfile : Relation.ReflTransGen (e.collecting.Includes fs) root file) :
    e.collecting.Notes fs x.diagnostics file := by
  obtain ⟨reads, hexpands⟩ := e.collecting.expands_expand fs none path
  rw [h] at hexpands
  cases hexpands with
  | resolved hroot' hrun =>
      have hfiles := hrun.files_eq rfl
      obtain ⟨root', spliced, hroot'', hsplices, -⟩ := expand_splices h
      cases hroot.symm.trans hroot''
      have hmem : file ∈ x.files :=
        (hsplices.depthFirst.mem_iff_reachable fun a successors hnext b => hnext.mem_iff).mpr hfile
      rw [hfiles] at hmem
      exact (hrun.notes rfl rfl).2 file hmem

theorem Notes.rejected {diagnostics : List Diagnostic} (h : e.collecting.Notes fs diagnostics path)
    (ho : e.options.collect = false) (hrejects : e.Rejects fs path fault) :
    (Diagnostic.ofFault fault).setSource path path ∈ diagnostics := by
  obtain ⟨content, hread, hcontent, -⟩ := h
  exact hcontent (hrejects.mem_diagnostics ho hread)

theorem Notes.missed {diagnostics : List Diagnostic} (h : e.collecting.Notes fs diagnostics path)
    (hmisses : e.Misses fs path name) : notFound path name ∈ diagnostics := by
  obtain ⟨content, hread, -, hincludes⟩ := h
  obtain ⟨content', hread', hmem, hfinds⟩ := hmisses
  cases hread.symm.trans hread'
  rcases hincludes name hmem with ⟨target, htarget⟩ | hnoted
  · exact absurd htarget (hfinds target)
  · exact hnoted

/-- Failing at the first fault succeeds exactly where collecting has nothing to report, with the
same result. A broken header, or an include that names no file, among the reachable headers makes
the first one fail, and the second one fail or report it. -/
theorem expand_modes_agree (e : Expander) (ho : e.options.collect = false) (fs : FileSystem)
    (path : Bytes) :
    (∀ x, (e.failFast.expand fs none path).1 = .ok x ↔
      (e.collecting.expand fs none path).1 = .ok x ∧ x.diagnostics = []) ∧
    ∀ root file, fs.resolve path = .ok root →
      Relation.ReflTransGen (e.collecting.Includes fs) root file →
        (∀ fault, e.Rejects fs file fault →
          (∀ x, (e.failFast.expand fs none path).1 ≠ .ok x) ∧
          ∀ x, (e.collecting.expand fs none path).1 = .ok x →
            (Diagnostic.ofFault fault).setSource file file ∈ x.diagnostics) ∧
        (∀ name, e.Misses fs file name →
          (∀ x, (e.failFast.expand fs none path).1 ≠ .ok x) ∧
          ∀ x, (e.collecting.expand fs none path).1 = .ok x →
            notFound file name ∈ x.diagnostics) := by
  refine ⟨fun x => expand_failFast_iff ho, fun root file hroot hfile => ?_⟩
  constructor
  · intro fault hrejects
    have hnoted (x) (hx : (e.collecting.expand fs none path).1 = .ok x) :=
      (expand_notes hx hroot hfile).rejected ho hrejects
    exact ⟨expand_failFast_ne_ok ho hnoted, hnoted⟩
  · intro name hmisses
    have hnoted (x) (hx : (e.collecting.expand fs none path).1 = .ok x) :=
      (expand_notes hx hroot hfile).missed hmisses
    exact ⟨expand_failFast_ne_ok ho hnoted, hnoted⟩

/-! ## A header that is broken and one that is missing -/

/-- The first header includes the second one, which is broken, and one that is not there. -/
def brokenHeaders : FileSystem :=
  ⟨[([ascii "a"], .file (ascii "#include \"b\"\n#include \"m\"\n") 1),
    ([ascii "b"], .file (ascii "int x;\n") 1)], []⟩

/-- What is wrong with the second header. -/
def scalarFault : Fault :=
  ⟨.scalarVariable, ascii "int x", ⟨0, 1, 1⟩⟩

/-- It is reported like this. -/
def scalarDiagnostic : Diagnostic :=
  (Diagnostic.ofFault scalarFault).setSource (ascii "/b") (ascii "/b")

theorem read_brokenHeaders :
    brokenHeaders.read (ascii "/a") = .ok (ascii "#include \"b\"\n#include \"m\"\n") ∧
      brokenHeaders.read (ascii "/b") = .ok (ascii "int x;\n") := by
  simp only [FileSystem.read, FileSystem.find_eq_overLinks]
  decide +kernel

theorem brokenHeaders_rejects : noSearch.Rejects brokenHeaders (ascii "/b") scalarFault :=
  ⟨_, read_brokenHeaders.2, by decide +kernel⟩

/-- What a collecting expander reads the two headers to. -/
theorem readFile_brokenHeaders :
    noSearch.collecting.readFile brokenHeaders (ascii "/a") =
        .ok ⟨[.inclusion ⟨ascii "b", .custom⟩, .inclusion ⟨ascii "m", .custom⟩], []⟩ ∧
      noSearch.collecting.readFile brokenHeaders (ascii "/b") = .ok ⟨[], [scalarDiagnostic]⟩ := by
  rw [readFile_of_read read_brokenHeaders.1, readFile_of_read read_brokenHeaders.2]
  decide +kernel

theorem follow_brokenHeaders :
    noSearch.collecting.follow brokenHeaders (ascii "/a") (ascii "b") = .header (ascii "/b") ∧
      noSearch.collecting.follow brokenHeaders (ascii "/a") (ascii "m") =
        .missing (notFound (ascii "/a") (ascii "m")) := by
  simp only [follow, lookUp?, FileSystem.isFile_eq, FileSystem.find_eq_overLinks,
    FileSystem.resolve_eq_overLinks]
  decide +kernel

theorem resolve_brokenHeaders : brokenHeaders.resolve (ascii "a") = .ok (ascii "/a") := by
  rw [FileSystem.resolve_eq_overLinks]
  decide +kernel

theorem expands_brokenHeaders :
    noSearch.collecting.Expands brokenHeaders none (ascii "a") [ascii "/a", ascii "/b"]
      (.ok ⟨[.inclusion ⟨ascii "b", .custom⟩, .inclusion ⟨ascii "m", .custom⟩],
        [scalarDiagnostic, notFound (ascii "/a") (ascii "m")], [ascii "/a", ascii "/b"]⟩) none :=
  .resolved resolve_brokenHeaders
    (.read (.uncached readFile_brokenHeaders.1)
      (.nested rfl follow_brokenHeaders.1 (by decide)
        (.read (.uncached readFile_brokenHeaders.2) .done)
        (.missing rfl follow_brokenHeaders.2 .done)))

theorem brokenHeaders_includes :
    noSearch.collecting.Includes brokenHeaders (ascii "/a") (ascii "/b") :=
  ⟨_, ascii "b", readFile_brokenHeaders.1, by decide,
    follow_eq_header_iff.mp follow_brokenHeaders.1⟩

theorem brokenHeaders_misses : noSearch.Misses brokenHeaders (ascii "/a") (ascii "m") := by
  refine ⟨_, readFile_brokenHeaders.1, by decide, fun target hfinds => ?_⟩
  have hheader : noSearch.collecting.follow brokenHeaders (ascii "/a") (ascii "m") =
      .header target := follow_eq_header_iff.mpr hfinds
  cases follow_brokenHeaders.2.symm.trans hheader

/-- From the first header the fault of the second one and the missing include are both reached. -/
theorem expand_modes_agree_brokenHeaders :
    noSearch.options.collect = false ∧
      (∀ x, (noSearch.failFast.expand brokenHeaders none (ascii "a")).1 ≠ .ok x) ∧
      ∃ x, (noSearch.collecting.expand brokenHeaders none (ascii "a")).1 = .ok x ∧
        scalarDiagnostic ∈ x.diagnostics ∧ notFound (ascii "/a") (ascii "m") ∈ x.diagnostics := by
  have hx := expands_brokenHeaders.eq_expand.symm
  obtain ⟨-, hmodes⟩ := expand_modes_agree noSearch rfl brokenHeaders (ascii "a")
  have hrejects := (hmodes _ _ resolve_brokenHeaders (.single brokenHeaders_includes)).1 _
    brokenHeaders_rejects
  have hmisses := (hmodes _ _ resolve_brokenHeaders .refl).2 _ brokenHeaders_misses
  exact ⟨rfl, hrejects.1, _, hx, hrejects.2 _ hx, hmisses.2 _ hx⟩

end Expander

end HeaderBinding
