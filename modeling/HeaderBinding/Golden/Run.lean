import HeaderBinding.BindingModule
import HeaderBinding.Diagnostic
import HeaderBinding.Golden.Case
import HeaderBinding.Reading.Session
import HeaderBinding.Text.Quoted

/-!
# Running golden tests

The header of a case is read and rendered, and the result is compared with the expected text line by
line. Line feeds at the end of either text do not matter.
-/

namespace HeaderBinding

/-- The first line at which two texts differ. A text that has ended has an empty line there. -/
structure LineDifference where
  /-- The number of the line, counted from 1. -/
  line : Int
  expected : Bytes
  actual : Bytes
deriving Repr, DecidableEq

namespace LineDifference

/-- The first difference of two lists of lines, the first of which has the given number. -/
def between (line : Nat) : List Bytes → List Bytes → Option LineDifference
  | [], [] => none
  | [], a :: _ => some ⟨line, [], a⟩
  | e :: _, [] => some ⟨line, e, []⟩
  | e :: es, a :: as => if e = a then between (line + 1) es as else some ⟨line, e, a⟩

/-- The first difference of two texts, without the line feeds at their ends. -/
def ofTexts (expected actual : Bytes) : Option LineDifference :=
  between 1 expected.significantLines actual.significantLines

end LineDifference

inductive GoldenFailure where
  /-- The header cannot be read. -/
  | broken (diagnostic : Diagnostic)
  /-- The binding text is not the expected one. -/
  | mismatch (difference : LineDifference)
deriving Repr, DecidableEq

/-- The reason of a failure in words. -/
def GoldenFailure.message (fs : FileSystem) : GoldenFailure → Bytes
  | .broken diagnostic => diagnostic.text fs
  | .mismatch _ => ascii "output mismatch"

structure GoldenResult where
  path : Bytes
  failure : Option GoldenFailure
deriving Repr, DecidableEq

namespace GoldenResult

/-- The text of a result: that the case at a path has passed, or why it has failed and where. -/
def describe (path : Bytes) (failure : Option Bytes) (difference : Option LineDifference) : Bytes :=
  let indent := ascii "    "
  match failure with
  | none => ascii "Passed " ++ path
  | some message =>
    let failed := ascii "Failed " ++ path ++ ascii ":\n" ++ indent
      ++ Bytes.join (lineFeed :: indent) (message.split lineFeed)
    match difference with
    | none => failed
    | some d =>
      failed ++ lineFeed :: indent ++ indent
        ++ Bytes.join (lineFeed :: indent ++ indent)
          [ascii "line " ++ signedDecimal d.line,
           indent ++ ascii "expected: " ++ d.expected.quoted,
           indent ++ ascii "actual:   " ++ d.actual.quoted]

def difference (r : GoldenResult) : Option LineDifference :=
  match r.failure with
  | some (.mismatch d) => some d
  | _ => none

def text (fs : FileSystem) (r : GoldenResult) : Bytes :=
  describe r.path (r.failure.map (GoldenFailure.message fs)) r.difference

end GoldenResult

/-- Runs one test case. The line of a difference is its line in the file of the case. -/
def GoldenCase.run (o : ReadOptions) (style : List ModuleOption) (path : Bytes) (c : GoldenCase) :
    GoldenResult :=
  let reading := readHeader o c.source
  match reading.fault with
  | some fault => ⟨path, some (.broken (Diagnostic.ofFault fault))⟩
  | none =>
    match LineDifference.ofTexts c.expected (renderModule style reading.declarations) with
    | none => ⟨path, none⟩
    | some d => ⟨path, some (.mismatch { d with line := d.line + c.expectedLine - 1 })⟩

/-- Runs test cases in their order. -/
def runGoldenCases (o : ReadOptions) (style : List ModuleOption)
    (cases : List (Bytes × GoldenCase)) : List GoldenResult :=
  cases.map fun (path, c) => c.run o style path

end HeaderBinding
