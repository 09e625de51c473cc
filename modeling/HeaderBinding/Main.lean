import HeaderBinding.Command.Run

/-!
# The program

Takes the files that a command line may look up into a file system value, runs the command line on
it, and carries out what the command has left behind.
-/

namespace HeaderBinding

def bytesOfString (s : String) : Bytes :=
  s.toUTF8.toList

/-- The text of some bytes, if it is well-formed. -/
def stringOfBytes? (s : Bytes) : Option String :=
  String.fromUTF8? ⟨s.toArray⟩

/-- The place of an absolute path. -/
def locationOf (path : String) : Location :=
  Path.cleanComponents true (Path.components (bytesOfString path))

/-! ## Taking files -/

/-- The node of a name in a directory, if it can be read. A link leads to the path behind all
links. -/
def entryNode? (directory : Location) (name : Bytes) : IO (Option FileNode) := do
  match stringOfBytes? (Path.absolute directory), stringOfBytes? name with
  | some directory, some name =>
    try
      let path := (← IO.FS.realPath directory) / name
      let data ← path.symlinkMetadata
      match data.type with
      | .dir => return some .directory
      | .file =>
        let content ← IO.FS.readBinFile path
        return some (.file content.toList data.modified.sec)
      | .symlink => return some (.link (bytesOfString (← IO.FS.realPath path).toString))
      | .other => return none
    catch _ => return none
  | _, _ => return none

/-- The nodes that a walk from a directory along components meets, up to one that is missing. -/
partial def nodesAlong (here : Location) (components : List Bytes) :
    IO (List (Location × FileNode)) := do
  match components with
  | [] => return []
  | c :: cs =>
    if c.isEmpty || c == ascii "." then nodesAlong here cs
    else if c == ascii ".." then nodesAlong here.dropLast cs
    else
      let there := here ++ [c]
      match ← entryNode? here c with
      | none => return []
      | some (.link target) =>
        return (there, .link target) :: (← nodesAlong [] (Path.components target ++ cs))
      | some node => return (there, node) :: (← nodesAlong there cs)

/-- The nodes below a directory, and what its links lead to. -/
partial def nodesBelow (directory : Location) : IO (List (Location × FileNode)) := do
  let some path := stringOfBytes? (Path.absolute directory) | return []
  let entries ← (← IO.FS.realPath path).readDir
  let nodes ← entries.toList.mapM fun entry => do
    match ← nodesAlong directory [bytesOfString entry.fileName] with
    | [(there, .directory)] => return (there, .directory) :: (← nodesBelow there)
    | nodes => return nodes
  return nodes.flatten

def FileSystem.putAll (fs : FileSystem) (nodes : List (Location × FileNode)) : FileSystem :=
  nodes.foldl (fun fs (location, node) => fs.put location node) fs

def takePath (fs : FileSystem) (path : Bytes) : IO FileSystem := do
  return fs.putAll (← nodesAlong (fs.origin path) (Path.components path))

/-- Takes what paths lead to, and what the headers there include, and so on. -/
partial def takeHeaders (e : Expander) (fs : FileSystem) (taken : List Bytes) :
    List Bytes → IO FileSystem
  | [] => return fs
  | path :: paths => do
    if taken.contains path then takeHeaders e fs taken paths
    else
      let fs ← takePath fs path
      takeHeaders e fs (path :: taken) (e.lookUps fs path ++ paths)

/-- Takes what is below a path that leads to a directory. -/
def takeBelow (fs : FileSystem) (path : Bytes) : IO FileSystem := do
  match fs.find path with
  | .ok (location, .directory) => return fs.putAll (← nodesBelow location)
  | _ => return fs

/-- Takes the file of variables, what the operands lead to with all that is included from there, and
what stands in the places of outputs. Golden tests are all below one path. -/
def takeFiles (env : Environment) (arguments : List Bytes) : IO FileSystem := do
  let fs ← takePath (.empty (locationOf (← IO.currentDir).toString)) (ascii ".env")
  match readCommandLine? arguments with
  | none => return fs
  | some (command, a) =>
    let s := GenerateSettings.ofArguments env fs a
    let outputs := a.operands.map fun path =>
      Path.join (outputDirectory s.output path) (bindingFileName path)
    let fs ← takeHeaders s.header.expander (← outputs.foldlM takePath fs) [] a.operands
    if command = .test then a.operands.foldlM takeBelow fs else return fs

/-! ## Carrying out changes -/

/-- Makes a directory or writes a file that was not there before. -/
def carryOut (before : FileSystem) (change : Location × FileNode) : IO Unit := do
  if before.node? change.1 == some change.2 then return
  match stringOfBytes? (Path.absolute change.1), change.2 with
  | some path, .directory => IO.FS.createDirAll path
  | some path, .file content _ => IO.FS.writeBinFile path ⟨content.toArray⟩
  | _, _ => return

end HeaderBinding

open HeaderBinding in
def main (arguments : List String) : IO UInt32 := do
  let includePath ← IO.getEnv "HBIND_INCLUDE_PATH"
  let env : Environment := ⟨includePath.map bytesOfString, 0⟩
  let arguments := arguments.map bytesOfString
  let files ← takeFiles env arguments
  let result := runCommandLine env files arguments
  result.files.nodes.forM (carryOut files)
  (← IO.getStdout).write ⟨result.stdout.toArray⟩
  (← IO.getStderr).write ⟨result.stderr.toArray⟩
  return if result.succeeded then 0 else 1
