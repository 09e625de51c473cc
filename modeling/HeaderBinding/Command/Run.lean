import HeaderBinding.BindingModule
import HeaderBinding.Command.EnvFile
import HeaderBinding.Command.Flag
import HeaderBinding.Command.Table
import HeaderBinding.Declaration.Json
import HeaderBinding.Expansion.Basic
import HeaderBinding.FileSystem.Edit
import HeaderBinding.Golden.Run

/-!
# The commands

`parse` prints declarations as JSON, `list` as a table, `generate` writes binding modules, and
`test` runs golden tests. A command is a function of the environment, the files and its arguments.
-/

namespace HeaderBinding

/-- What a command takes from its surroundings. -/
structure Environment where
  /-- The search paths for includes, separated by colons, if they are set. -/
  includePath : Option Bytes
  /-- The time at which files are written. -/
  now : Int
deriving Repr, DecidableEq

/-- What a command leaves behind. -/
structure CommandResult where
  stdout : Bytes
  stderr : Bytes
  succeeded : Bool
  files : FileSystem
deriving Repr, DecidableEq

inductive CommandError where
  | flag (error : FlagError)
  | wantsOneOperand (given : Nat)
  | wantsOperands
  | unknownCommand (name : Bytes)
  | unopened (path : Bytes) (error : PathError)
  | unreadable (path : Bytes) (error : PathError)
  | broken (diagnostic : Diagnostic)
  | unexpanded (path : Bytes) (error : ExpansionError)
  | noOutputDirectory (directory : Bytes) (error : EditError)
  | unwritten (path : Bytes) (error : EditError)
  | unreadableTests
  | failedTests
deriving Repr, DecidableEq

def CommandError.message (fs : FileSystem) : CommandError → Bytes
  | .flag error => error.message
  | .wantsOneOperand given => ascii "accepts 1 arg(s), received " ++ decimal given
  | .wantsOperands => ascii "requires at least 1 arg(s), only received 0"
  | .unknownCommand name => ascii "unknown command " ++ name.quoted ++ ascii " for \"hbind\""
  | .unopened path error =>
    ascii "Cannot open the header " ++ path ++ ascii ": open " ++ path ++ ascii ": "
      ++ error.message
  | .unreadable path error => ascii "read " ++ path ++ ascii ": " ++ error.message
  | .broken diagnostic => diagnostic.text fs
  | .unexpanded path error => ascii "Cannot expand " ++ path ++ ascii ": " ++ error.message fs
  | .noOutputDirectory directory error =>
    ascii "Cannot create the output directory " ++ directory ++ ascii ": " ++ error.message
  | .unwritten path error =>
    ascii "Cannot write a binding file " ++ path ++ ascii ": " ++ error.message
  | .unreadableTests => ascii "Cannot run test"
  | .failedTests => ascii "Test failed"

/-- The result of a command that has failed. Its error is the last line of the error output. -/
def CommandResult.failed (fs : FileSystem) (stdout stderr : Bytes) (error : CommandError) :
    CommandResult :=
  ⟨stdout, stderr ++ error.message fs ++ [lineFeed], false, fs⟩

/-! ## Flags -/

/-- Flags of every command. They steer a log that nothing is written to. -/
def logFlags : List Flag :=
  [.ofKind .logSwitch "add_dir_header", .ofKind .logSwitch "alsologtostderr",
   .ofKind .sourceLine "log_backtrace_at", .text "log_dir", .text "log_file",
   .ofKind .size "log_file_max_size", .ofKind .logSwitch "logtostderr",
   .ofKind .logSwitch "one_output", .ofKind .logSwitch "skip_headers",
   .ofKind .logSwitch "skip_log_headers", .ofKind .severity "stderrthreshold",
   ⟨"v", some 0x76, .level⟩, .ofKind .moduleLevels "vmodule"]

def helpFlag : Flag := ⟨"help", some 0x68, .switch⟩

/-- Flags of the commands that read headers. -/
def headerFlags : List Flag :=
  [.lettered "include" 0x49, .switch "collect", .switch "multiline-enum",
   .switch "no-inline-enum-fields", .switch "expand"]

def generateFlags : List Flag :=
  [.lettered "output" 0x6F, .lettered "keyword" 0x6B, .text "indent", .switch "extern",
   .switch "no-directives"]

def testFlags : List Flag :=
  [.switch "multiline-enum"]

/-! ## Surroundings -/

/-- The variable that holds the search paths for includes. -/
def includePathVariable : Bytes := ascii "HBIND_INCLUDE_PATH"

/-- The search paths in the environment, or those that the file of variables sets if the environment
has none. A value with a zero byte cannot be set. -/
def Environment.effectiveIncludePath (env : Environment) (fs : FileSystem) : Bytes :=
  match env.includePath with
  | some value => value
  | none =>
    match fs.read (ascii ".env") with
    | .error _ => []
    | .ok text =>
      match ((EnvFile.parse text).getD []).lookup includePathVariable with
      | some value => if value.contains 0 then [] else value
      | none => []

/-- The paths of a list of paths. An empty list has none. -/
def searchPathList (s : Bytes) : List Bytes :=
  if s.isEmpty then [] else s.split 0x3A

/-! ## Loading headers -/

/-- How a command reads headers. -/
structure HeaderSettings where
  searchPaths : List Bytes
  collect : Bool
  multilineEnum : Bool
  noInlineEnum : Bool
  expand : Bool
deriving Repr, DecidableEq

namespace HeaderSettings

/-- The settings that flags give. Search paths of the environment count only where no flag names
one. -/
def ofArguments (env : Environment) (fs : FileSystem) (a : Arguments) : HeaderSettings :=
  let includes := a.values "include"
  { searchPaths :=
      if includes.isEmpty then searchPathList (env.effectiveIncludePath fs) else includes
    collect := a.isOn "collect"
    multilineEnum := a.isOn "multiline-enum"
    noInlineEnum := a.isOn "no-inline-enum-fields"
    expand := a.isOn "expand" }

def expander (s : HeaderSettings) : Expander :=
  ⟨s.searchPaths, ⟨false, s.multilineEnum, s.noInlineEnum⟩, s.collect⟩

/-- Reads one header without the headers it includes. -/
def loadSingle (s : HeaderSettings) (fs : FileSystem) (path : Bytes) :
    Except CommandError HeaderContent :=
  match fs.find path with
  | .error error => .error (.unopened path error)
  | .ok _ =>
    match s.expander.readFile fs path with
    | .ok content => .ok content
    | .error (.unreadable path error) => .error (.unreadable path error)
    | .error (.broken diagnostic) => .error (.broken diagnostic)
    | .error error => .error (.unexpanded path error)

/-- Reads one header, with the headers it includes if that is asked for. -/
def load (s : HeaderSettings) (fs : FileSystem) (cache : Option HeaderCache) (path : Bytes) :
    Except CommandError HeaderContent × Option HeaderCache :=
  if s.expand then
    match s.expander.expand fs cache path with
    | (.ok x, cache) => (.ok ⟨x.declarations, x.diagnostics⟩, cache)
    | (.error error, cache) => (.error (.unexpanded path error), cache)
  else (s.loadSingle fs path, cache)

end HeaderSettings

/-- The warnings for what was passed over in a header. -/
def warnings (fs : FileSystem) (content : HeaderContent) : Bytes :=
  content.diagnostics.flatMap fun d => ascii "warning: " ++ d.text fs ++ [lineFeed]

/-! ## The commands -/

/-- Prints one header with the given function. -/
def showHeader (print : List Declaration → Bytes) (s : HeaderSettings) (fs : FileSystem)
    (path : Bytes) : CommandResult :=
  match (s.load fs none path).1 with
  | .error error => .failed fs [] [] error
  | .ok content => ⟨print content.declarations, warnings fs content, true, fs⟩

/-- The declarations of a header as a JSON document. -/
def printJson (declarations : List Declaration) : Bytes :=
  Declaration.document declarations ++ [lineFeed]

/-- The declarations of a header as a table. -/
def printTable (declarations : List Declaration) : Bytes :=
  Table.render [ascii "KIND", ascii "NAME", ascii "DETAIL"]
    (declarations.map fun d => [d.kindName, d.name, d.summary])

/-- How `generate` writes modules. -/
structure GenerateSettings where
  header : HeaderSettings
  /-- The output directory, or an empty text for none. -/
  output : Bytes
  keyword : Option Bytes
  indent : Bytes
  useExtern : Bool
  noDirectives : Bool
deriving Repr, DecidableEq

namespace GenerateSettings

def ofArguments (env : Environment) (fs : FileSystem) (a : Arguments) : GenerateSettings :=
  { header := .ofArguments env fs a
    output := (a.last? "output").getD []
    keyword := a.last? "keyword"
    indent := (a.last? "indent").getD (ascii "    ")
    useExtern := a.isOn "extern"
    noDirectives := a.isOn "no-directives" }

/-- The options for the module of the header at a path. Outside an extern block there is always a
keyword. -/
def moduleOptions (s : GenerateSettings) (path : Bytes) : List ModuleOption :=
  let banner := ascii "Generated by hbind from " ++ Path.base path ++ ascii ". DO NOT EDIT."
  [.indent s.indent, .banner banner]
    ++ (match s.keyword with
      | some keyword => [.keyword keyword]
      | none => if s.useExtern then [] else [.keyword (ascii "cdef")])
    ++ (if s.useExtern then [.externFrom (Path.base path)] else [])
    ++ (if s.noDirectives then [.omitDirectives] else [])

end GenerateSettings

/-- The module text for one header, or the error that prevents it, with the warnings on the way. -/
structure Generated where
  path : Bytes
  warnings : Bytes
  content : Except CommandError Bytes

/-- Generates the module for each header, all with one cache. A header is generated even if one
before it has failed. -/
def generateModules (s : GenerateSettings) (fs : FileSystem) (cache : Option HeaderCache) :
    List Bytes → List Generated
  | [] => []
  | path :: paths =>
    match s.header.load fs cache path with
    | (.error error, cache) => ⟨path, [], .error error⟩ :: generateModules s fs cache paths
    | (.ok content, cache) =>
      ⟨path, warnings fs content, .ok (renderModule (s.moduleOptions path) content.declarations)⟩
        :: generateModules s fs cache paths

/-- The name of the module of a header. -/
def bindingFileName (path : Bytes) : Bytes :=
  Path.stem (Path.base path) ++ ascii ".pxd"

/-- The directory that the module of a header is written to: the output directory, or the header's
own. -/
def outputDirectory (output path : Bytes) : Bytes :=
  if output.isEmpty then Path.directory path else output

/-- Writes the module of the header at a path. A directory made on the way stays even if the module
cannot be written. -/
def writeModule (now : Int) (output : Bytes) (fs : FileSystem) (path content : Bytes) :
    FileSystem × Option CommandError :=
  let directory := outputDirectory output path
  match fs.makeDirectories directory with
  | (fs, some error) => (fs, some (.noOutputDirectory directory error))
  | (fs, none) =>
    let file := Path.join directory (bindingFileName path)
    match fs.write file content now with
    | (fs, some error) => (fs, some (.unwritten file error))
    | (fs, none) => (fs, none)

/-- Writes modules until one cannot be written. What was written before stays. -/
def writeModules (now : Int) (output stderr : Bytes) (fs : FileSystem) :
    List (Bytes × Bytes) → CommandResult
  | [] => ⟨[], stderr, true, fs⟩
  | (path, content) :: modules =>
    match writeModule now output fs path content with
    | (fs, some error) => .failed fs [] stderr error
    | (fs, none) => writeModules now output stderr fs modules

/-- The modules for all headers, or the error of the first header that failed. -/
def allGenerated : List Generated → Except CommandError (List (Bytes × Bytes))
  | [] => .ok []
  | g :: gs =>
    match g.content, allGenerated gs with
    | .error error, _ => .error error
    | .ok _, .error error => .error error
    | .ok content, .ok others => .ok ((g.path, content) :: others)

/-- Generates modules and writes them, or prints the only one if there is no output directory.
Nothing is written if a header cannot be loaded. -/
def runGenerate (now : Int) (s : GenerateSettings) (fs : FileSystem) (paths : List Bytes) :
    CommandResult :=
  let generated := generateModules s fs (HeaderCache.ofCapacity? 256) paths
  let stderr := generated.flatMap Generated.warnings
  match allGenerated generated with
  | .error error => .failed fs [] stderr error
  | .ok [(path, content)] =>
    if s.output.isEmpty then ⟨content, stderr, true, fs⟩
    else writeModules now s.output stderr fs [(path, content)]
  | .ok modules => writeModules now s.output stderr fs modules

/-- The test cases that can be read, with their paths. -/
def readableCases (files : List GoldenFile) : List (Bytes × GoldenCase) :=
  files.filterMap fun file => file.content.toOption.map (file.path, ·)

/-- The report on the test cases that cannot be read. -/
def unreadableReport (files : List GoldenFile) : Bytes :=
  files.flatMap fun file =>
    match file.content with
    | .ok _ => []
    | .error error =>
      ascii "Failed to read a test case or a directory: " ++ file.path ++ [lineFeed]
        ++ error.message ++ [lineFeed]

/-- Runs the golden tests at a path, if all of them can be read. -/
def runTests (multilineEnum : Bool) (fs : FileSystem) (path : Bytes) : CommandResult :=
  let files := GoldenFile.list fs path
  let report := unreadableReport files
  if !report.isEmpty then .failed fs [] report .unreadableTests
  else
    let results := runGoldenCases ⟨false, multilineEnum, false⟩ [] (readableCases files)
    let stdout := results.flatMap fun r => r.text fs ++ [lineFeed]
    if results.any (·.failure.isSome) then .failed fs stdout [] .failedTests
    else ⟨stdout, [], true, fs⟩

/-! ## The command line -/

inductive Command where
  | parse
  | list
  | generate
  | test
deriving Repr, DecidableEq

namespace Command

def ofName? (name : Bytes) : Option Command :=
  if name = ascii "parse" then some .parse
  else if name = ascii "list" then some .list
  else if name = ascii "generate" then some .generate
  else if name = ascii "test" then some .test
  else none

def flags : Command → List Flag
  | .parse | .list => helpFlag :: headerFlags ++ logFlags
  | .generate => helpFlag :: headerFlags ++ generateFlags ++ logFlags
  | .test => helpFlag :: testFlags ++ logFlags

/-- Runs a command on its flags and operands. -/
def run (command : Command) (env : Environment) (fs : FileSystem) (a : Arguments) : CommandResult :=
  match command, a.operands with
  | .parse, [path] => showHeader printJson (.ofArguments env fs a) fs path
  | .list, [path] => showHeader printTable (.ofArguments env fs a) fs path
  | .test, [path] => runTests (a.isOn "multiline-enum") fs path
  | .generate, path :: paths => runGenerate env.now (.ofArguments env fs a) fs (path :: paths)
  | .generate, [] => .failed fs [] [] .wantsOperands
  | _, operands => .failed fs [] [] (.wantsOneOperand operands.length)

end Command

/-- Reads flags and runs what they are meant for. A call for help does nothing else. -/
def withFlags (fs : FileSystem) (flags : List Flag) (arguments : List Bytes)
    (run : Arguments → CommandResult) : CommandResult :=
  match Arguments.read flags arguments with
  | .error error => .failed fs [] [] (.flag error)
  | .ok a => if a.isOn "help" then ⟨[], [], true, fs⟩ else run a

/-- The command of a command line with its flags and operands, if there is one and they can be
read. -/
def readCommandLine? (arguments : List Bytes) : Option (Command × Arguments) :=
  match commandWords logFlags arguments with
  | [] => none
  | name :: _ =>
    match Command.ofName? name with
    | none => none
    | some command =>
      match Arguments.read command.flags (arguments.erase name) with
      | .error _ => none
      | .ok a => some (command, a)

/-- Runs a command line. -/
def runCommandLine (env : Environment) (fs : FileSystem) (arguments : List Bytes) : CommandResult :=
  match commandWords logFlags arguments with
  | [] => withFlags fs (helpFlag :: logFlags) arguments fun _ => ⟨[], [], true, fs⟩
  | name :: _ =>
    match Command.ofName? name with
    | some command =>
      withFlags fs command.flags (arguments.erase name) fun a => command.run env fs a
    | none => .failed fs [] [] (.unknownCommand name)

end HeaderBinding
