import HeaderBinding.FileSystem.Basic

/-!
# Changing a file system

Writing files, making directories and links, and removing what a path names. A change that fails
half-way leaves what it has done so far.
-/

namespace HeaderBinding

/-- What the system is asked to do. -/
inductive EditAction where
  | makeDirectory (path : Bytes)
  | openFile (path : Bytes)
  | makeLink (target path : Bytes)
  | unlink (path : Bytes)
  | removeAll (path : Bytes)
deriving Repr, DecidableEq

def EditAction.text : EditAction → Bytes
  | .makeDirectory path => ascii "mkdir " ++ path
  | .openFile path => ascii "open " ++ path
  | .makeLink target path => ascii "symlink " ++ target ++ ascii " " ++ path
  | .unlink path => ascii "unlinkat " ++ path
  | .removeAll path => ascii "RemoveAll " ++ path

/-- An action that the system refuses, and why. -/
structure EditError where
  action : EditAction
  cause : PathError
deriving Repr, DecidableEq

def EditError.message (e : EditError) : Bytes :=
  e.action.text ++ ascii ": " ++ e.cause.message

/-- A file system after a change, and the error that ended the change early. -/
abbrev Edited := FileSystem × Option EditError

namespace FileSystem

/-- Puts a node at a place, replacing one that is there. -/
def put (fs : FileSystem) (location : Location) (node : FileNode) : FileSystem :=
  if (fs.nodes.lookup location).isSome then
    { fs with
      nodes := fs.nodes.map fun entry => if entry.1 = location then (location, node) else entry }
  else { fs with nodes := fs.nodes ++ [(location, node)] }

/-- Removes what is below a directory. -/
def clearBelow (fs : FileSystem) (directory : Location) : FileSystem :=
  { fs with nodes := fs.nodes.filter fun entry =>
      entry.1 == directory || !directory.isPrefixOf entry.1 }

/-- Removes a node and what is below it. -/
def clear (fs : FileSystem) (location : Location) : FileSystem :=
  { fs with nodes := fs.nodes.filter fun entry => !location.isPrefixOf entry.1 }

/-- The outcome of an action that does all or nothing. -/
def edited (fs : FileSystem) (action : EditAction) (result : Except PathError FileSystem) :
    Edited :=
  match result with
  | .ok fs => (fs, none)
  | .error cause => (fs, some ⟨action, cause⟩)

/-! ## The place of a new node -/

/-- A path without slashes at its end, up to its last slash, and its last component. -/
def splitName (path : Bytes) : Bytes × Bytes :=
  Path.splitLast (path.dropTrailing Path.slash)

/-- The directory that a new node of that path would stand in. -/
def holder (fs : FileSystem) (path : Bytes) : Except PathError Location :=
  match refused? path with
  | some error => .error error
  | none =>
    match fs.walk .follow linkLimit (fs.origin path) (Path.components (splitName path).1) with
    | .error error => .error error
    | .ok location => if fs.isDirectory location then .ok location else .error .notDirectory

/-- The free place that a path names in a directory that is there. -/
def newPlace (fs : FileSystem) (path : Bytes) : Except PathError Location :=
  match fs.holder path with
  | .error error => .error error
  | .ok location =>
    let name := (splitName path).2
    if name = [] ∨ name = ascii "." ∨ name = ascii ".." then .error .exists
    else if nameLimit < name.length then .error .nameTooLong
    else if (fs.node? (location ++ [name])).isSome then .error .exists
    else .ok (location ++ [name])

/-! ## Directories -/

/-- Makes one directory. -/
def makeDirectory (fs : FileSystem) (path : Bytes) : Except PathError FileSystem :=
  (fs.newPlace path).map fun location => fs.put location .directory

/-- The path without its last component and the slash before it, if that leaves one. -/
def parentPath? (path : Bytes) : Option Bytes :=
  let parent := (splitName path).1
  if parent.length ≤ 1 then none else some parent.dropLast

/-- Does a path name a directory itself and no link to one? -/
def isDirectoryAt (fs : FileSystem) (path : Bytes) : Bool :=
  match fs.locate .keep path with
  | .ok location => fs.isDirectory location
  | .error _ => false

/-- Makes a directory that is not there, given a file system that has its parents. A failure does
not count if there is such a directory after all. -/
def makeLast (fs : FileSystem) (path : Bytes) : Edited :=
  match fs.makeDirectory path with
  | .ok fs => (fs, none)
  | .error cause =>
    if fs.isDirectoryAt path then (fs, none) else (fs, some ⟨.makeDirectory path, cause⟩)

/-- Makes a directory and the directories above it that are missing. The length of the path bounds
the directories above it. -/
def makeDirectoriesWithin (fs : FileSystem) (bound : Nat) (path : Bytes) : Edited :=
  match fs.find path with
  | .ok (_, .directory) => (fs, none)
  | .ok _ => (fs, some ⟨.makeDirectory path, .notDirectory⟩)
  | .error _ =>
    match bound, parentPath? path with
    | bound + 1, some parent =>
      match fs.makeDirectoriesWithin bound parent with
      | (fs, none) => fs.makeLast path
      | failed => failed
    | _, _ => fs.makeLast path

/-- Makes a directory and the directories above it that are missing. -/
def makeDirectories (fs : FileSystem) (path : Bytes) : Edited :=
  fs.makeDirectoriesWithin path.length path

/-- Makes the directory that a path stands in, and then a change at that path. -/
def withDirectory (fs : FileSystem) (path : Bytes) (change : FileSystem → Edited) : Edited :=
  match fs.makeDirectories (Path.directory path) with
  | (fs, none) => change fs
  | failed => failed

/-! ## Files -/

/-- The place that writing along components writes to: a file, or a place where nothing is yet, even
if a link leads there. A slash behind the last name asks for a directory. -/
def target (fs : FileSystem) (links : Nat) (here : Location) (components : List Bytes) :
    Except PathError Location :=
  match components with
  | [] => .error .isDirectory
  | c :: cs =>
    if !fs.isDirectory here then .error .notDirectory
    else if c = [] ∨ c = ascii "." then fs.target links here cs
    else if c = ascii ".." then fs.target links here.dropLast cs
    else if !cs.isEmpty && cs.all List.isEmpty then .error .isDirectory
    else if nameLimit < c.length then .error .nameTooLong
    else match fs.node? (here ++ [c]) with
      | none => if cs.isEmpty then .ok (here ++ [c]) else .error .notFound
      | some (.link path) =>
        match links with
        | 0 => .error .tooManyLinks
        | links + 1 =>
          fs.target links (if Path.isAbsolute path then [] else here) (Path.components path ++ cs)
      | some .directory => fs.target links (here ++ [c]) cs
      | some (.file _ _) => if cs.isEmpty then .ok (here ++ [c]) else .error .notDirectory
termination_by (links, components.length)

/-- The place that writing to a path writes to. -/
def writePlace (fs : FileSystem) (path : Bytes) : Except PathError Location :=
  match refused? path with
  | some error => .error error
  | none => fs.target linkLimit (fs.origin path) (Path.components path)

/-- Writes a file, which need not exist, in a directory that does. -/
def write (fs : FileSystem) (path content : Bytes) (modified : Int) : Edited :=
  fs.edited (.openFile path) <|
    (fs.writePlace path).map fun location => fs.put location (.file content modified)

/-- Writes a file in a directory that is made if need be. -/
def writeWithin (fs : FileSystem) (path content : Bytes) (modified : Int) : Edited :=
  fs.withDirectory path fun fs => fs.write path content modified

/-! ## Links -/

/-- The free place for a link to a target. The target need not exist. A slash behind the name asks
for a directory, which a link is not. -/
def linkPlace (fs : FileSystem) (path target : Bytes) : Except PathError Location :=
  if path.contains 0 then .error .invalid
  else match refused? target with
    | some error => .error error
    | none =>
      match fs.newPlace path with
      | .error error => .error error
      | .ok location =>
        if path.getLast? = some Path.slash then .error .notFound else .ok location

/-- Makes a symbolic link where nothing is. -/
def link (fs : FileSystem) (path target : Bytes) : Edited :=
  fs.edited (.makeLink target path) <|
    (fs.linkPlace path target).map fun location => fs.put location (.link target)

/-- Makes a symbolic link in a directory that is made if need be. -/
def linkWithin (fs : FileSystem) (path target : Bytes) : Edited :=
  fs.withDirectory path fun fs => fs.link path target

/-! ## Removal -/

/-- The directory part of a path as it is written there, with one slash for the root. -/
def writtenParent (path : Bytes) : Bytes :=
  let rooted :=
    if Path.isAbsolute path then Path.slash :: path.dropWhile (· == Path.slash) else path
  match (splitName rooted).1 with
  | [] => ascii "."
  | [_] => [Path.slash]
  | parent => parent.dropLast

/-- Removes what has a name in a directory, with all that is below it. The directory itself and the
one above it can be emptied, but not removed. -/
def removeName (fs : FileSystem) (directory : Location) (name : Bytes) :
    FileSystem × Option PathError :=
  match refused? name with
  | some error => (fs, some error)
  | none =>
    if !fs.isDirectory directory then (fs, some .notDirectory)
    else if name = ascii "." then (fs.clearBelow directory, some .invalid)
    else if name = ascii ".." then (fs.clearBelow directory.dropLast, some .notEmpty)
    else if nameLimit < name.length then (fs, some .nameTooLong)
    else (fs.clear (directory ++ [name]), none)

/-- Does a path end in the place itself? -/
def endsInPlace (path : Bytes) : Bool :=
  (Path.splitLast path).2 == ascii "."

/-- Removes what a path names, with all that is below it. A link at the end of the path is not
followed, and what is not there need not be removed. -/
def remove (fs : FileSystem) (path : Bytes) : Edited :=
  if path.isEmpty then (fs, none)
  else if endsInPlace path then (fs, some ⟨.removeAll path, .invalid⟩)
  else
    let parent := writtenParent path
    let name := (splitName path).2
    match fs.find parent with
    | .error .notFound => (fs, none)
    | .error cause => (fs, some ⟨.openFile parent, cause⟩)
    | .ok (directory, _) =>
      match fs.removeName directory name with
      | (fs, none) => (fs, none)
      | (fs, some cause) => (fs, some ⟨.unlink (parent ++ Path.slash :: name), cause⟩)

end FileSystem

end HeaderBinding
