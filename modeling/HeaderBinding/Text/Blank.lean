import HeaderBinding.Text.Basic

/-!
# Blank characters

The characters with the Unicode property White_Space, by their encodings. No encoding is a proper
part of another one or of another character's encoding, so blanks can be cut off at either end of a
text without decoding it.
-/

namespace HeaderBinding

namespace Blank

/-- The encodings of the blank characters: ASCII, next line, no-break space, ogham space, the spaces
of general punctuation, the line and paragraph separators, and the ideographic space. -/
def encodings : List Bytes :=
  [[0x09], [0x0A], [0x0B], [0x0C], [0x0D], [0x20], [0xC2, 0x85], [0xC2, 0xA0], [0xE1, 0x9A, 0x80],
   [0xE2, 0x80, 0x80], [0xE2, 0x80, 0x81], [0xE2, 0x80, 0x82], [0xE2, 0x80, 0x83],
   [0xE2, 0x80, 0x84], [0xE2, 0x80, 0x85], [0xE2, 0x80, 0x86], [0xE2, 0x80, 0x87],
   [0xE2, 0x80, 0x88], [0xE2, 0x80, 0x89], [0xE2, 0x80, 0x8A], [0xE2, 0x80, 0xA8],
   [0xE2, 0x80, 0xA9], [0xE2, 0x80, 0xAF], [0xE2, 0x81, 0x9F], [0xE3, 0x80, 0x80]]

/-- The length of the first of the given encodings that the text starts with, or 0. -/
def matchLength (encodings : List Bytes) (s : Bytes) : Nat :=
  match encodings.find? (·.isPrefixOf s) with
  | some encoding => encoding.length
  | none => 0

end Blank

namespace Bytes

/-- Cuts the given encodings off the start of a text as often as one of them stands there. -/
def dropEncodings (encodings : List Bytes) : Bytes → Bytes
  | [] => []
  | b :: s =>
    match Blank.matchLength encodings (b :: s) with
    | 0 => b :: s
    | n + 1 => dropEncodings encodings (s.drop n)
termination_by s => s.length
decreasing_by simp only [List.length_drop, List.length_cons]; omega

theorem length_dropEncodings_le (encodings : List Bytes) (s : Bytes) :
    (dropEncodings encodings s).length ≤ s.length := by
  fun_induction dropEncodings encodings s with
  | case1 => simp
  | case2 => simp
  | case3 b s n h ih =>
    simp only [List.length_drop] at ih
    simp only [List.length_cons]
    omega

/-- The text without the blanks at its start. -/
def trimLeft (s : Bytes) : Bytes :=
  dropEncodings Blank.encodings s

/-- The text without the blanks at its end. -/
def trimRight (s : Bytes) : Bytes :=
  (dropEncodings (Blank.encodings.map List.reverse) s.reverse).reverse

/-- The text without the blanks at its start and its end. -/
def trim (s : Bytes) : Bytes :=
  s.trimLeft.trimRight

/-- Collects the maximal runs without blanks, holding the current run in reverse. -/
def wordsOnto (run : Bytes) : Bytes → List Bytes
  | [] => if run.isEmpty then [] else [run.reverse]
  | b :: s =>
    match Blank.matchLength Blank.encodings (b :: s) with
    | 0 => wordsOnto (b :: run) s
    | n + 1 =>
      if run.isEmpty then wordsOnto [] (s.drop n) else run.reverse :: wordsOnto [] (s.drop n)
termination_by s => s.length
decreasing_by all_goals simp only [List.length_drop, List.length_cons]; omega

/-- The maximal runs of a text that hold no blank. -/
def words (s : Bytes) : List Bytes :=
  wordsOnto [] s

end Bytes

end HeaderBinding
