import HeaderBinding.Expansion.Cache
import HeaderBinding.Reading.Session

/-!
# Expanding includes

A header is read together with the headers it includes in quotes. The declarations of an included
header stand right behind its include; a header that was expanded before is not expanded again, and
of several declarations with one key only the first is kept.
-/

namespace HeaderBinding

/-! ## Keys -/

/-- What identifies a declaration across headers. A macro's guard and its definition are different
things. -/
structure DeclarationKey where
  kind : Bytes
  macroKind : Option MacroKind
  name : Bytes
deriving Repr, DecidableEq

def Declaration.key : Declaration → DeclarationKey
  | .macroName m => ⟨ascii "macro", some m.kind, m.name⟩
  | d => ⟨d.kindName, none, d.name⟩

/-! ## Looking up an include -/

structure Expander where
  /-- Tried in order behind the directory of the including header. -/
  searchPaths : List Bytes
  options : ReadOptions
  /-- Report broken declarations and missing headers as diagnostics and go on. -/
  collect : Bool
deriving Repr, DecidableEq

inductive ExpansionError where
  /-- A path cannot be resolved. -/
  | unresolved (path : Bytes) (error : FileSystem.ResolveError)
  /-- An include names no file. -/
  | headerNotFound (including name : Bytes)
  /-- An include names a file that cannot be resolved. -/
  | unresolvedInclude (including path : Bytes) (error : FileSystem.ResolveError)
  /-- A file cannot be read. -/
  | unreadable (path : Bytes) (error : PathError)
  /-- A header is broken. -/
  | broken (diagnostic : Diagnostic)
deriving Repr, DecidableEq

namespace ExpansionError

def message (fs : FileSystem) : ExpansionError → Bytes
  | .unresolved path error => ascii "cannot resolve " ++ path ++ ascii ": " ++ error.message
  | .headerNotFound including name =>
    ascii "cannot expand " ++ including ++ ascii ": " ++ name ++ ascii ": header not found"
  | .unresolvedInclude including path error =>
    ascii "cannot expand " ++ including ++ ascii ": cannot resolve " ++ path ++ ascii ": "
      ++ error.message
  | .unreadable path error => ascii "read " ++ path ++ ascii ": " ++ error.message
  | .broken diagnostic => diagnostic.text fs

end ExpansionError

/-- The name in a quoted include. -/
def Declaration.quotedInclude? : Declaration → Option Bytes
  | .inclusion ⟨name, .custom⟩ => some name
  | _ => none

/-- The places where an include is looked for, in order. -/
def Expander.candidates (e : Expander) (directory name : Bytes) : List Bytes :=
  Path.join directory name :: e.searchPaths.map (Path.join · name)

/-- Does a path lead to something that is not a directory? -/
def FileSystem.isFile (fs : FileSystem) (path : Bytes) : Bool :=
  match fs.find path with
  | .ok (_, .directory) => false
  | .ok _ => true
  | .error _ => false

/-- The first candidate that is a file. -/
def Expander.lookUp? (e : Expander) (fs : FileSystem) (directory name : Bytes) : Option Bytes :=
  (e.candidates directory name).find? fs.isFile

/-! ## Reading one header -/

/-- The options a header is read with. -/
def Expander.readOptions (e : Expander) : ReadOptions :=
  { e.options with collect := e.options.collect || e.collect }

/-- Reads the text of a header that stands at a path. -/
def Expander.readText (e : Expander) (path text : Bytes) : Except ExpansionError HeaderContent :=
  let reading := readHeader e.readOptions text
  match reading.fault with
  | some fault => .error (.broken ((Diagnostic.ofFault fault).setSource path path))
  | none =>
    .ok ⟨reading.declarations,
      reading.diagnostics.map fun f => (Diagnostic.ofFault f).setSource path path⟩

/-- The stamp of the file at a path. A directory has none. -/
def FileSystem.stamp? (fs : FileSystem) (path : Bytes) : Option FileStamp :=
  match fs.find path with
  | .ok (_, .file content modified) => some ⟨modified, content.length⟩
  | _ => none

/-- Reads the file at a path. -/
def Expander.readFile (e : Expander) (fs : FileSystem) (path : Bytes) :
    Except ExpansionError HeaderContent :=
  match fs.read path with
  | .error error => .error (.unreadable path error)
  | .ok text => e.readText path text

/-- Reads the file at a path, or takes what the cache holds for it. What could not be read is not
kept. -/
def Expander.load (e : Expander) (fs : FileSystem) (cache : Option HeaderCache) (path : Bytes) :
    Except ExpansionError HeaderContent × Option HeaderCache :=
  match cache with
  | none => (e.readFile fs path, none)
  | some cache =>
    match cache.get path (fs.stamp? path) with
    | (some content, cache) => (.ok content, some cache)
    | (none, cache) =>
      match e.readFile fs path, fs.stamp? path with
      | .ok content, some stamp => (.ok content, some (cache.add ⟨path, stamp, content⟩))
      | result, _ => (result, some cache)

/-- All places where the includes of the header at a path are looked for. Broken declarations between
them are passed over. -/
def Expander.lookUps (e : Expander) (fs : FileSystem) (path : Bytes) : List Bytes :=
  match fs.resolve path with
  | .error _ => []
  | .ok resolved =>
    match { e with collect := true }.readFile fs resolved with
    | .error _ => []
    | .ok content =>
      (content.declarations.filterMap Declaration.quotedInclude?).flatMap
        (e.candidates (Path.directory resolved))

/-! ## Expanding -/

structure Expansion where
  declarations : List Declaration
  diagnostics : List Diagnostic
  /-- The resolved paths of the headers in the order they were expanded. -/
  files : List Bytes
deriving Repr, DecidableEq

namespace Expansion

def start : Expansion := ⟨[], [], []⟩

/-- Adds a declaration unless there is one with its key. -/
def add (x : Expansion) (d : Declaration) : Expansion :=
  if x.declarations.any (·.key == d.key) then x
  else { x with declarations := x.declarations ++ [d] }

end Expansion

/-- What an include in a header at a path leads to. -/
inductive IncludeTarget where
  /-- A header, by its resolved path. -/
  | header (path : Bytes)
  /-- No file, which is noted. -/
  | missing (diagnostic : Diagnostic)
  | failed (error : ExpansionError)
deriving Repr, DecidableEq

/-- Looks up an include of the header at a path. -/
def Expander.follow (e : Expander) (fs : FileSystem) (path name : Bytes) : IncludeTarget :=
  match e.lookUp? fs (Path.directory path) name with
  | some candidate =>
    match fs.resolve candidate with
    | .ok resolved => .header resolved
    | .error error => .failed (.unresolvedInclude path candidate error)
  | none =>
    if e.collect then .missing ⟨.headerNotFound, name, path, path, 0, 0, 0⟩
    else .failed (.headerNotFound path name)

/-- The state of an expansion that may have failed, beside the cache. -/
abbrev ExpansionState := Except ExpansionError Expansion × Option HeaderCache

/-- Goes through the declarations of the header at a path: adds each one, and expands what a quoted
include leads to with the given function if it was not expanded before. -/
def Expander.splice (e : Expander) (fs : FileSystem)
    (expand : Bytes → Expansion → Option HeaderCache → ExpansionState) (path : Bytes) :
    List Declaration → Expansion → Option HeaderCache → ExpansionState
  | [], x, cache => (.ok x, cache)
  | d :: ds, x, cache =>
    let x := x.add d
    match d.quotedInclude? with
    | none => e.splice fs expand path ds x cache
    | some name =>
      match e.follow fs path name with
      | .failed error => (.error error, cache)
      | .missing diagnostic =>
        e.splice fs expand path ds { x with diagnostics := x.diagnostics ++ [diagnostic] } cache
      | .header resolved =>
        if x.files.contains resolved then e.splice fs expand path ds x cache
        else match expand resolved x cache with
          | (.error error, cache) => (.error error, cache)
          | (.ok x, cache) => e.splice fs expand path ds x cache

/-- Expands the header at a resolved path. Each header on the way to it is one level of nesting. -/
def Expander.expandWithin (e : Expander) (fs : FileSystem) :
    (nesting : Nat) → Bytes → Expansion → Option HeaderCache → ExpansionState
  | 0, _, x, cache => (.ok x, cache)
  | nesting + 1, path, x, cache =>
    let x := { x with files := x.files ++ [path] }
    match e.load fs cache path with
    | (.error error, cache) => (.error error, cache)
    | (.ok content, cache) =>
      e.splice fs (e.expandWithin fs nesting) path content.declarations
        { x with diagnostics := x.diagnostics ++ content.diagnostics } cache

/-- The nesting that no expansion exceeds: the headers on the way to a header are different files.
-/
def FileSystem.nestingBound (fs : FileSystem) : Nat :=
  fs.nodes.length + 2

/-- Expands the header that a path names. -/
def Expander.expand (e : Expander) (fs : FileSystem) (cache : Option HeaderCache) (path : Bytes) :
    ExpansionState :=
  match fs.resolve path with
  | .error error => (.error (.unresolved path error), cache)
  | .ok resolved => e.expandWithin fs fs.nestingBound resolved .start cache

end HeaderBinding
