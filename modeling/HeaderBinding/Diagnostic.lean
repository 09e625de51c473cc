import HeaderBinding.FileSystem.Basic
import HeaderBinding.SyntaxError
import HeaderBinding.Text.Lines

/-!
# Diagnostics

What is reported to a user: a cause, what it is about, and where. The text of a diagnostic quotes
the line it points at, if the file can be read.
-/

namespace HeaderBinding

inductive Diagnostic.Cause where
  | fault (cause : SyntaxError)
  /-- A quoted include names no file. -/
  | headerNotFound
  | other (text : Bytes)
deriving Repr, DecidableEq

def Diagnostic.Cause.message : Diagnostic.Cause → Bytes
  | .fault cause => cause.message
  | .headerNotFound => ascii "header not found"
  | .other text => text

/-- A report. An empty text or a zero stands for what is not known. -/
structure Diagnostic where
  cause : Diagnostic.Cause
  detail : Bytes
  /-- The file to quote from. -/
  path : Bytes
  /-- The file as it is named to the user. -/
  source : Bytes
  offset : Int
  row : Int
  column : Int
deriving Repr, DecidableEq

namespace Diagnostic

/-- The diagnostic of a fault in a source that has no name yet. -/
def ofFault (f : Fault) : Diagnostic :=
  ⟨.fault f.cause, f.detail, [], [], f.position.offset, f.position.row, f.position.column⟩

/-- Fills in the file and its name where they are not known. -/
def setSource (path source : Bytes) (d : Diagnostic) : Diagnostic :=
  { d with
    path := if d.path.isEmpty then path else d.path
    source := if d.source.isEmpty then source else d.source }

/-- The line of a row, counted from 1, or nothing if there is none that can be read. -/
def lineAt (fs : FileSystem) (path : Bytes) (row : Int) : Bytes :=
  if path.isEmpty ∨ row ≤ 0 then []
  else match fs.read path with
    | .error _ => []
    | .ok content => (Lines.get? content (row.toNat - 1)).getD []

/-- The text of a diagnostic: name, place, cause, detail, and below them the quoted line. -/
def text (fs : FileSystem) (d : Diagnostic) : Bytes :=
  let line := lineAt fs d.path d.row
  (if d.source.isEmpty then [] else d.source ++ ascii ": ")
    ++ (if d.row = 0 then []
        else signedDecimal d.row ++ ascii ":" ++ signedDecimal d.column ++ ascii ": ")
    ++ ascii "error: " ++ d.cause.message
    ++ (if d.detail.isEmpty then [] else ascii ": " ++ d.detail)
    ++ (if line.isEmpty then [] else lineFeed :: ascii "    " ++ line)

/-- The texts of several diagnostics, one below the other. -/
def joined (fs : FileSystem) (ds : List Diagnostic) : Bytes :=
  Bytes.join [lineFeed] (ds.map (text fs))

end Diagnostic

end HeaderBinding
