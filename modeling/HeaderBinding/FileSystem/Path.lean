import HeaderBinding.Text.Basic

/-!
# Paths

A path is a text of components between slashes. `clean` gives the shortest path that names the same
place when no component is a link.
-/

namespace HeaderBinding

namespace Path

def slash : UInt8 := 0x2F

def isAbsolute (path : Bytes) : Bool :=
  path.head? == some slash

/-- The texts between the slashes, empty ones included. -/
def components (path : Bytes) : List Bytes :=
  path.split slash

/-- The absolute path of the given components. -/
def absolute (components : List Bytes) : Bytes :=
  slash :: Bytes.join [slash] components

/-- One component behind the components kept so far, which are held in reverse. The parent of the
root is the root, and a relative path may start with parents. -/
def cleanStep (rooted : Bool) (kept : List Bytes) (component : Bytes) : List Bytes :=
  if component = [] ∨ component = ascii "." then kept
  else if component = ascii ".." then
    match kept with
    | [] => if rooted then [] else [component]
    | last :: others => if last = ascii ".." then component :: kept else others
  else component :: kept

/-- The components of a path that are left when empty ones, the place itself and parents are
resolved. -/
def cleanComponents (rooted : Bool) (components : List Bytes) : List Bytes :=
  (components.foldl (cleanStep rooted) []).reverse

/-- The shortest text for a path. The empty path is the current place. -/
def clean (path : Bytes) : Bytes :=
  if isAbsolute path then absolute (cleanComponents true (components path))
  else match cleanComponents false (components path) with
    | [] => ascii "."
    | kept => Bytes.join [slash] kept

/-- A name below a directory. An empty directory is the current place. -/
def join (directory name : Bytes) : Bytes :=
  if directory.isEmpty then (if name.isEmpty then [] else clean name)
  else if name.isEmpty then clean directory
  else clean (directory ++ slash :: name)

/-- The path up to its last slash, and what follows it. -/
def splitLast (path : Bytes) : Bytes × Bytes :=
  let name := (path.reverse.takeWhile (· != slash)).reverse
  (path.take (path.length - name.length), name)

/-- The directory that holds what a path names. -/
def directory (path : Bytes) : Bytes :=
  clean (splitLast path).1

/-- The last component of a path. -/
def base (path : Bytes) : Bytes :=
  if path.isEmpty then ascii "."
  else match (splitLast (path.dropTrailing slash)).2 with
    | [] => [slash]
    | name => name

/-- A name without its last point and what follows it. -/
def stem (name : Bytes) : Bytes :=
  let behind := (name.reverse.takeWhile (· != 0x2E)).length
  if behind = name.length then name else name.take (name.length - behind - 1)

end Path

end HeaderBinding
