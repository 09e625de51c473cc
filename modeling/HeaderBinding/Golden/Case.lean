import HeaderBinding.FileSystem.Basic
import HeaderBinding.Text.Lines

/-!
# Golden test cases

A test case is a file of three parts between two delimiter lines of hyphens: a description, a
header, and the binding text expected for it.
-/

namespace HeaderBinding

structure GoldenCase where
  description : Bytes
  source : Bytes
  expected : Bytes
  /-- The line of the file at which the expected text starts, counted from 1. -/
  expectedLine : Nat
deriving Repr, DecidableEq

inductive GoldenError where
  | lineTooLong
  | wrongPartCount (count : Nat)
  /-- The system refuses an operation on a path. -/
  | system (operation : String) (path : Bytes) (error : PathError)
deriving Repr, DecidableEq

def GoldenError.message : GoldenError → Bytes
  | .lineTooLong => ascii "bufio.Scanner: token too long"
  | .wrongPartCount count =>
    ascii "too many or too few part delimiters: a test case consists of just three parts: "
      ++ decimal count ++ ascii " parts found"
  | .system operation path error =>
    ascii operation ++ ascii " " ++ path ++ ascii ": " ++ error.message

namespace GoldenCase

/-! ## Parts -/

/-- A blank around the hyphens of a delimiter. -/
def isDelimiterBlank (b : UInt8) : Bool :=
  b == 0x09 || b == 0x0A || b == 0x0C || b == 0x0D || b == 0x20

/-- A delimiter is a line of three or more hyphens, with blanks around them or without. -/
def isDelimiter (line : Bytes) : Bool :=
  let inner := line.dropWhile isDelimiterBlank
  let hyphens := inner.takeWhile (· == 0x2D)
  3 ≤ hyphens.length && (inner.drop hyphens.length).all isDelimiterBlank

/-- The lines of a file up to a delimiter, and the lines behind it. -/
structure Part where
  lines : List Bytes
  /-- The lines behind the delimiter, or nothing if the file ends without one. -/
  behind : Option (List Bytes)
deriving Repr, DecidableEq

def nextPart (lines : List Bytes) : Part :=
  let part := lines.takeWhile (!isDelimiter ·)
  match lines.drop part.length with
  | [] => ⟨part, none⟩
  | _ :: behind => ⟨part, some behind⟩

theorem length_behind_lt {lines behind : List Bytes} (h : (nextPart lines).behind = some behind) :
    behind.length < lines.length := by
  unfold nextPart at h
  dsimp only at h
  split at h
  · simp at h
  · rename_i delimiter rest hdrop
    simp only [Option.some.injEq] at h
    subst h
    have := congrArg List.length hdrop
    simp only [List.length_drop, List.length_cons] at this
    omega

/-- The parts of a file, given by its lines and whether a line behind them was too long. Parts end
with the file, and also at a part of just one empty line, behind which nothing is read. -/
def parts (overflow : Bool) (lines : List Bytes) : Except GoldenError (List (List Bytes)) :=
  match h : (nextPart lines).behind with
  | none =>
    if overflow then .error .lineTooLong
    else if (nextPart lines).lines = [] ∨ (nextPart lines).lines = [[]] then .ok []
    else .ok [(nextPart lines).lines]
  | some behind =>
    if (nextPart lines).lines = [[]] then .ok []
    else
      have := length_behind_lt h
      (parts overflow behind).map ((nextPart lines).lines :: ·)
termination_by lines.length

/-- Reads a test case from the text of its file. -/
def parse (text : Bytes) : Except GoldenError GoldenCase :=
  match parts (Lines.ofText text).overflow (Lines.ofText text).lines with
  | .error error => .error error
  | .ok [description, source, expected] =>
    .ok ⟨Bytes.join [lineFeed] description, Bytes.join [lineFeed] source,
      Bytes.join [lineFeed] expected, description.length + source.length + 3⟩
  | .ok parts => .error (.wrongPartCount parts.length)

end GoldenCase

/-! ## Test cases in files -/

/-- A test case or the reason why it cannot be read, with the path of its file. -/
structure GoldenFile where
  path : Bytes
  content : Except GoldenError GoldenCase

namespace GoldenFile

/-- The test case in the file at a path. -/
def read (fs : FileSystem) (path : Bytes) : GoldenFile :=
  match fs.read path with
  | .ok text => ⟨path, GoldenCase.parse text⟩
  | .error error => ⟨path, .error (.system "open" path error)⟩

/-- The test cases at a path: the file there, or all files below the directory in order of their
names. -/
def listWithin (fs : FileSystem) : (levels : Nat) → Bytes → List GoldenFile
  | 0, _ => []
  | levels + 1, path =>
    match fs.find path with
    | .error error => [⟨path, .error (.system "stat" path error)⟩]
    | .ok (location, .directory) =>
      (fs.names location).flatMap fun name => listWithin fs levels (Path.join path name)
    | .ok _ => [read fs path]

/-- The directories on one path: between two links there are no more than the nodes of the system,
and a path with more links than the limit is refused. -/
def levelBound (fs : FileSystem) : Nat :=
  (FileSystem.linkLimit + 2) * (fs.nodes.length + 2)

/-- The test cases at a path. -/
def list (fs : FileSystem) (path : Bytes) : List GoldenFile :=
  listWithin fs (levelBound fs) path

end GoldenFile

end HeaderBinding
