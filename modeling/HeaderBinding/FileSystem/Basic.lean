import HeaderBinding.FileSystem.Path

/-!
# File systems

A tree of directories, files and symbolic links, and the ways to reach a node in it by a path:
following links as far as the system allows, or resolving a path to the one without links.
-/

namespace HeaderBinding

inductive FileNode where
  | directory
  /-- A regular file with its content and the time of its last change. -/
  | file (content : Bytes) (modified : Int)
  /-- A symbolic link to a path. -/
  | link (target : Bytes)
deriving Repr, DecidableEq

/-- The place of a node: the components of its path from the root. -/
abbrev Location := List Bytes

/-- The nodes below the root by their places, and the place that relative paths start from. -/
structure FileSystem where
  nodes : List (Location × FileNode)
  workingDirectory : Location
deriving Repr, DecidableEq

/-- Why the system cannot do something with a path. -/
inductive PathError where
  | notFound
  | notDirectory
  | isDirectory
  | exists
  | tooManyLinks
  | nameTooLong
  | notEmpty
  | invalid
deriving Repr, DecidableEq

def PathError.message : PathError → Bytes
  | .notFound => ascii "no such file or directory"
  | .notDirectory => ascii "not a directory"
  | .isDirectory => ascii "is a directory"
  | .exists => ascii "file exists"
  | .tooManyLinks => ascii "too many levels of symbolic links"
  | .nameTooLong => ascii "file name too long"
  | .notEmpty => ascii "directory not empty"
  | .invalid => ascii "invalid argument"

namespace FileSystem

/-- A file system with a working directory and nothing in it. -/
def empty (workingDirectory : Location) : FileSystem :=
  ⟨((List.range workingDirectory.length).map fun n => (workingDirectory.take (n + 1), .directory)),
    workingDirectory⟩

/-- The node at a place. The root is a directory. -/
def node? (fs : FileSystem) (location : Location) : Option FileNode :=
  if location.isEmpty then some .directory else fs.nodes.lookup location

def isDirectory (fs : FileSystem) (location : Location) : Bool :=
  fs.node? location == some .directory

/-! ## Following a path -/

/-- The links that may be followed on the way along one path. -/
def linkLimit : Nat := 40

/-- The longest name of a component. -/
def nameLimit : Nat := 255

/-- The shortest path that is too long as a whole. -/
def pathLimit : Nat := 4096

/-- Is a path unfit to be looked up at all? -/
def refused? (path : Bytes) : Option PathError :=
  if path.contains 0 then some .invalid
  else if path.isEmpty then some .notFound
  else if pathLimit ≤ path.length then some .nameTooLong
  else none

/-- What is done with a link at the very end of a path. -/
inductive LastLink where
  | follow
  | keep
deriving Repr, DecidableEq

/-- The place that components lead to from a directory. Every component but the last leads to a
directory, and every link on the way is followed. A slash behind a link makes it one on the way. -/
def walk (fs : FileSystem) (last : LastLink) (links : Nat) (here : Location)
    (components : List Bytes) : Except PathError Location :=
  match components with
  | [] => .ok here
  | c :: cs =>
    if !fs.isDirectory here then .error .notDirectory
    else if c = [] ∨ c = ascii "." then fs.walk last links here cs
    else if c = ascii ".." then fs.walk last links here.dropLast cs
    else if nameLimit < c.length then .error .nameTooLong
    else match fs.node? (here ++ [c]) with
      | none => .error .notFound
      | some (.link target) =>
        if cs.isEmpty && last == .keep then .ok (here ++ [c])
        else match links with
          | 0 => .error .tooManyLinks
          | links + 1 =>
            fs.walk last links (if Path.isAbsolute target then [] else here)
              (Path.components target ++ cs)
      | some _ => fs.walk last links (here ++ [c]) cs
termination_by (links, components.length)

/-- Where a path starts. -/
def origin (fs : FileSystem) (path : Bytes) : Location :=
  if Path.isAbsolute path then [] else fs.workingDirectory

/-- The place of the node that a path names. -/
def locate (fs : FileSystem) (last : LastLink) (path : Bytes) : Except PathError Location :=
  match refused? path with
  | some error => .error error
  | none => fs.walk last linkLimit (fs.origin path) (Path.components path)

/-- The place and the node that a path names, behind all links. -/
def find (fs : FileSystem) (path : Bytes) : Except PathError (Location × FileNode) :=
  match fs.locate .follow path with
  | .error error => .error error
  | .ok location =>
    match fs.node? location with
    | some node => .ok (location, node)
    | none => .error .notFound

/-- The content of the file that a path names. -/
def read (fs : FileSystem) (path : Bytes) : Except PathError Bytes :=
  match fs.find path with
  | .ok (_, .file content _) => .ok content
  | .ok _ => .error .isDirectory
  | .error error => .error error

/-- The names in a directory in ascending order. -/
def names (fs : FileSystem) (directory : Location) : List Bytes :=
  let below := fs.nodes.filterMap fun (location, _) =>
    if location.length = directory.length + 1 ∧ location.dropLast = directory then location.getLast?
    else none
  below.mergeSort fun a b => decide (a ≤ b)

/-! ## Resolving a path -/

/-- Why a path has no form without links. -/
inductive ResolveError where
  /-- A part of the path cannot be examined. -/
  | examine (part : Bytes) (error : PathError)
  | notDirectory
  | tooManyLinks
deriving Repr, DecidableEq

def ResolveError.message : ResolveError → Bytes
  | .examine part error => ascii "lstat " ++ part ++ ascii ": " ++ error.message
  | .notDirectory => PathError.notDirectory.message
  | .tooManyLinks => ascii "EvalSymlinks: too many links"

/-- The links that may be replaced in one path. -/
def replacementLimit : Nat := 255

/-- A component's parent in a path that is being resolved. A path of one component, or one that ends
in a parent, keeps the parent as a component. -/
def resolveParent (resolved : List Bytes) : List Bytes :=
  if resolved.length < 2 ∨ resolved.getLast? = some (ascii "..") then resolved ++ [ascii ".."]
  else resolved.dropLast

/-- The node at a path that is being resolved. No component of it is a link, but some may be
parents. -/
def examine (fs : FileSystem) (resolved : List Bytes) : Except ResolveError FileNode :=
  let part := Path.absolute resolved
  match refused? part with
  | some error => .error (.examine part error)
  | none =>
    if resolved.any (nameLimit < ·.length) then .error (.examine part .nameTooLong)
    else match fs.node? (Path.cleanComponents true resolved) with
      | some node => .ok node
      | none => .error (.examine part .notFound)

/-- Replaces the links among the components to come. -/
def resolveComponents (fs : FileSystem) (links : Nat) (resolved : List Bytes)
    (components : List Bytes) : Except ResolveError (List Bytes) :=
  match components with
  | [] => .ok resolved
  | c :: cs =>
    if c = [] ∨ c = ascii "." then fs.resolveComponents links resolved cs
    else if c = ascii ".." then fs.resolveComponents links (resolveParent resolved) cs
    else match fs.examine (resolved ++ [c]) with
      | .error error => .error error
      | .ok (.link target) =>
        match links with
        | 0 => .error .tooManyLinks
        | links + 1 =>
          fs.resolveComponents links (if Path.isAbsolute target then [] else resolved)
            (Path.components target ++ cs)
      | .ok .directory => fs.resolveComponents links (resolved ++ [c]) cs
      | .ok (.file _ _) =>
        if cs.isEmpty then .ok (resolved ++ [c]) else .error .notDirectory
termination_by (links, components.length)

/-- The absolute text of a path, without looking at the file system. -/
def absolute (fs : FileSystem) (path : Bytes) : Bytes :=
  if Path.isAbsolute path then Path.clean path
  else Path.join (Path.absolute fs.workingDirectory) path

/-- The absolute path without links that names the same node. A node that can be reached by several
paths has one such path. -/
def resolve (fs : FileSystem) (path : Bytes) : Except ResolveError Bytes :=
  let components := Path.components (fs.absolute path)
  (fs.resolveComponents replacementLimit [] components).map fun resolved =>
    Path.absolute (Path.cleanComponents true resolved)

end FileSystem

end HeaderBinding
