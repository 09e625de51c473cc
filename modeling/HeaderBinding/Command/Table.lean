import HeaderBinding.Text.Width

/-!
# Tables

A table has a heading and rows of cells, each column as wide as its widest cell. A cell that is
wider than the limit is broken at spaces into lines that are as even as possible.
-/

namespace HeaderBinding

namespace Table

/-- The columns at which cells are broken. -/
def cellLimit : Nat := 30

/-- The gap behind a cell. -/
def gap : Bytes := ascii "    "

/-! ## Colour marks -/

/-- The numbers in a colour mark: groups of one to three digits between semicolons. -/
def isNumberList (s : Bytes) : Bool :=
  s.isEmpty || (s.split 0x3B).all fun n => 1 ≤ n.length && n.length ≤ 3 && n.all isDigit

/-- What follows the colour mark at the start of a text. -/
def afterMark? : Bytes → Option Bytes
  | 0x1B :: 0x5B :: s =>
    let numbers := s.takeWhile fun b => isDigit b || b == 0x3B
    match s.drop numbers.length with
    | final :: rest =>
      if isNumberList numbers && (final == 0x6D || final == 0x7C || final == 0x4B) then some rest
      else none
    | [] => none
  | _ => none

/-- The text without colour marks. The number of bytes bounds the work. -/
def withoutMarksWithin : (bound : Nat) → Bytes → Bytes
  | 0, s => s
  | _, [] => []
  | bound + 1, b :: s =>
    match afterMark? (b :: s) with
    | some rest => withoutMarksWithin bound rest
    | none => b :: withoutMarksWithin bound s

/-- The columns that a text takes when it is shown. -/
def shownWidth (s : Bytes) : Nat :=
  (withoutMarksWithin s.length s).width

/-! ## Breaking a cell -/

structure Word where
  text : Bytes
  width : Nat
deriving Repr, DecidableEq

/-- Words in lines, with what is missing to even lines. -/
structure Breaking where
  /-- The columns of all the words in one line, with a space between neighbours. -/
  width : Nat
  cost : Nat
  lines : List (List Word)
deriving Repr, DecidableEq

/-- The cost of a line that is not the last: the square of its distance from the limit, and a
penalty if it is too long. -/
def lineCost (limit width : Nat) : Nat :=
  if width ≤ limit then (limit - width) * (limit - width)
  else (width - limit) * (width - limit) + 100000

/-- A way to end a line: the number of words in it, and the lines behind it. -/
structure Ending where
  size : Nat
  cost : Nat
  behind : List (List Word)
deriving Repr, DecidableEq

/-- The cheapest way to end a line that has words already, their number and width given. It may end
before any of the words behind them, where `tails` holds the breakings of the suffixes of `words`.
The shortest line wins among equals. -/
def cheapest (limit size width : Nat) : (words : List Word) → (tails : List Breaking) →
    Option Ending
  | w :: words, tail :: tails =>
    let here : Ending := ⟨size, lineCost limit width + tail.cost, tail.lines⟩
    match cheapest limit (size + 1) (width + 1 + w.width) words tails with
    | some later => if later.cost < here.cost then some later else some here
    | none => some here
  | _, _ => none

/-- The best breakings of the words and of each of their suffixes, the longest first. Words that fit
in one line stay in one line. -/
def breakings (limit : Nat) : List Word → List Breaking
  | [] => []
  | w :: words =>
    let tails := breakings limit words
    let width :=
      match tails with
      | [] => w.width
      | tail :: _ => w.width + 1 + tail.width
    let best : Breaking :=
      if width ≤ limit then ⟨width, 0, [w :: words]⟩
      else match cheapest limit 1 w.width words tails with
        | some e => ⟨width, e.cost, (w :: words).take e.size :: e.behind⟩
        | none => ⟨width, 0, [w :: words]⟩
    best :: tails

/-- Breaks a text at spaces into lines of at most the given width, or the width of its widest word.
-/
def breakText (limit : Nat) (s : Bytes) : List Bytes :=
  let words := (s.split 0x20).map fun word => (⟨word, word.width⟩ : Word)
  let limit := (words.map Word.width).foldl max limit
  match breakings limit words with
  | best :: _ => best.lines.map fun line => Bytes.join (ascii " ") (line.map Word.text)
  | [] => []

/-- A cell in lines, and the columns it needs. -/
structure Cell where
  lines : List Bytes
  width : Nat
deriving Repr, DecidableEq

/-- Lays out a cell. Line breaks in its text count as spaces. -/
def Cell.ofText (s : Bytes) : Cell :=
  let limit := min (((s.split lineFeed).map shownWidth).foldl max 0) cellLimit
  let lines := breakText limit (Bytes.join (ascii " ") (s.split lineFeed))
  ⟨lines, (lines.map shownWidth).foldl max limit⟩

/-! ## Rows -/

/-- A text with spaces behind it up to a width. -/
def pad (width : Nat) (s : Bytes) : Bytes :=
  s ++ List.replicate (width - shownWidth s) 0x20

/-- The widths of the columns of a table. -/
def columnWidths (rows : List (List Cell)) : List Nat :=
  rows.foldl (fun widths row => List.zipWith max widths (row.map Cell.width))
    ((rows.headD []).map fun _ => 0)

/-- The lines of a row. Where a cell has no line, it is blank. -/
def rowLines (widths : List Nat) (row : List Cell) : Bytes :=
  let height := (row.map fun cell => cell.lines.length).foldl max 0
  (List.range height).flatMap fun n =>
    (List.zipWith (fun width cell => pad width ((cell.lines[n]?).getD (ascii "  ")) ++ gap) widths
      row).flatten ++ [lineFeed]

/-- The line of the heading: a gap behind every cell but the last, and one space behind that. -/
def headingLine (widths : List Nat) (heading : List Bytes) : Bytes :=
  Bytes.join gap (List.zipWith pad widths heading) ++ ascii " " ++ [lineFeed]

/-- The text of a table. Headings are single words that are not broken. -/
def render (heading : List Bytes) (rows : List (List Bytes)) : Bytes :=
  let cells := rows.map (·.map Cell.ofText)
  let widths := columnWidths (heading.map Cell.ofText :: cells)
  headingLine widths heading ++ cells.flatMap (rowLines widths)

end Table

end HeaderBinding
