import HeaderBinding.Text.Basic

/-!
# Lines of a file

A line ends at a line feed or at the end of the text, and one carriage return at its end is dropped.
Reading stops at a line that is too long to be held. `get?` finds one line without cutting the
others: it is the line that `ofText` has at that place.
-/

namespace HeaderBinding

/-- The lines of a text up to the first one that is too long. -/
structure Lines where
  lines : List Bytes
  /-- Was there a line that is too long? -/
  overflow : Bool
deriving Repr, DecidableEq

namespace Lines

/-- The bytes of a line that can be held, with the line feed or without. -/
def limit : Nat := 65535

/-- A line without the carriage return at its end. -/
def dropReturn (line : Bytes) : Bytes :=
  if line.getLast? = some carriageReturn then line.dropLast else line

/-- The lines between line feeds. The end of a text behind a line feed starts no line. -/
def raw (s : Bytes) : List Bytes :=
  let pieces := s.split lineFeed
  if pieces.getLast? = some [] then pieces.dropLast else pieces

/-- The lines before the first one that is too long. -/
def held (lines : List Bytes) : List Bytes :=
  lines.takeWhile fun line => line.length ≤ limit

/-- The lines of a text. -/
def ofText (s : Bytes) : Lines :=
  ⟨(held (raw s)).map dropReturn, (held (raw s)).length < (raw s).length⟩

/-! ## A single line -/

/-- What is behind the next `count` lines of a text. Each of them can be held, and the first has no
more than `room` bytes. -/
def skip (room : Nat) : (count : Nat) → Bytes → Option Bytes
  | 0, s => some s
  | _ + 1, [] => none
  | count + 1, b :: s =>
    if b = lineFeed then skip limit count s
    else match room with
      | 0 => none
      | room + 1 => skip room (count + 1) s

/-- The first line of a text with its carriage return, if it can be held. -/
def first? (s : Bytes) : Option Bytes :=
  if s.isEmpty then none
  else
    let line := s.takeWhile (· != lineFeed)
    if line.length ≤ limit then some line else none

/-- The line behind `count` others. -/
def get? (s : Bytes) (count : Nat) : Option Bytes :=
  ((skip limit count s).bind first?).map dropReturn

/-! ## Cutting byte by byte -/

theorem raw_nil : raw [] = [] := rfl

/-- A line feed ends an empty line. -/
theorem raw_lineFeed (s : Bytes) : raw (lineFeed :: s) = [] :: raw s := by
  have h := Bytes.split_ne_nil lineFeed s
  unfold raw
  rw [Bytes.split_cons, if_pos rfl]
  cases hs : Bytes.split lineFeed s with
  | nil => exact absurd hs h
  | cons piece pieces =>
    simp only [List.getLast?_cons_cons]
    split <;> simp

/-- Any other byte belongs to the first line. -/
theorem raw_cons {b : UInt8} (hb : b ≠ lineFeed) (s : Bytes) :
    raw (b :: s) = (b :: (raw s).headD []) :: (raw s).tail := by
  have h := Bytes.split_ne_nil lineFeed s
  unfold raw
  rw [Bytes.split_cons, if_neg hb]
  cases hs : Bytes.split lineFeed s with
  | nil => exact absurd hs h
  | cons piece pieces =>
    cases pieces with
    | nil => cases piece <;> simp
    | cons next pieces =>
      simp only [List.getLast?_cons_cons]
      split <;> simp

theorem headD_raw (s : Bytes) : (raw s).headD [] = s.takeWhile (· != lineFeed) := by
  induction s with
  | nil => rfl
  | cons b s ih =>
    by_cases hb : b = lineFeed
    · subst hb
      simp [raw_lineFeed]
    · simp [raw_cons hb, hb, ← ih]

theorem raw_eq_cons (b : UInt8) (s : Bytes) :
    raw (b :: s) = (b :: s).takeWhile (· != lineFeed) :: (raw (b :: s)).tail := by
  rw [← headD_raw]
  by_cases hb : b = lineFeed
  · subst hb
    simp [raw_lineFeed]
  · simp [raw_cons hb]

/-! ## The line at a place -/

theorem getElem?_held_succ (lines : List Bytes) (n : Nat) :
    (held lines)[n + 1]? =
      if (lines.headD []).length ≤ limit then (held lines.tail)[n]? else none := by
  cases lines with
  | nil => simp [held]
  | cons line lines => by_cases h : line.length ≤ limit <;> simp [held, h]

theorem first?_eq (s : Bytes) : first? s = (held (raw s))[0]? := by
  cases s with
  | nil => rfl
  | cons b s =>
    rw [raw_eq_cons, first?, if_neg (by simp)]
    generalize (b :: s).takeWhile (· != lineFeed) = line
    by_cases h : line.length ≤ limit <;> simp [held, h]

theorem bind_first?_skip (room n : Nat) (s : Bytes) :
    (skip room (n + 1) s).bind first? =
      if ((raw s).headD []).length ≤ room then (held (raw s).tail)[n]? else none := by
  induction s generalizing room n with
  | nil => simp [skip, raw_nil, held]
  | cons b s ih =>
    by_cases hb : b = lineFeed
    · subst hb
      cases n with
      | zero => simp [skip, raw_lineFeed, first?_eq]
      | succ n => simp [skip, raw_lineFeed, ih, getElem?_held_succ]
    · cases room with
      | zero => simp [skip, raw_cons hb, hb]
      | succ room => simp [skip, raw_cons hb, hb, ih]

/-- The line at a place is the one that cutting the whole text gives. -/
theorem get?_eq_getElem? (s : Bytes) (n : Nat) : get? s n = (ofText s).lines[n]? := by
  cases n with
  | zero => simp [get?, ofText, skip, first?_eq]
  | succ n => simp [get?, ofText, bind_first?_skip, getElem?_held_succ]

end Lines

end HeaderBinding
