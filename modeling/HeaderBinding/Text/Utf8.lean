import HeaderBinding.Text.Basic

/-!
# Code points in a text

A text is read as a sequence of units: an encoded code point, or a single byte that starts no
well-formed encoding. Overlong forms, surrogates and values above `0x10FFFF` are not well-formed.
-/

namespace HeaderBinding

/-- One step of reading a text as UTF-8. -/
inductive TextUnit where
  /-- A well-formed encoding of a code point. -/
  | point (code : Nat) (encoding : Bytes)
  /-- A byte at which no well-formed encoding starts. -/
  | stray (byte : UInt8)
deriving Repr, DecidableEq

namespace Utf8

def isContinuation (b : UInt8) : Bool :=
  0x80 ≤ b && b ≤ 0xBF

/-- The range of second bytes that may follow a first byte of a longer encoding. It excludes
overlong forms, surrogates and values above the last code point. -/
def secondRange (lead : UInt8) : UInt8 × UInt8 :=
  if lead = 0xE0 then (0xA0, 0xBF)
  else if lead = 0xED then (0x80, 0x9F)
  else if lead = 0xF0 then (0x90, 0xBF)
  else if lead = 0xF4 then (0x80, 0x8F)
  else (0x80, 0xBF)

def isSecond (lead b : UInt8) : Bool :=
  (secondRange lead).1 ≤ b && b ≤ (secondRange lead).2

/-- The six payload bits of a continuation byte below the bits read so far. -/
def extend (code : Nat) (b : UInt8) : Nat :=
  code * 64 + (b.toNat - 0x80)

/-- The unit at the head of `a :: s`. -/
def headUnit (a : UInt8) (s : Bytes) : TextUnit :=
  if a < 0x80 then .point a.toNat [a]
  else match s with
    | b :: s =>
      if isSecond a b then
        if 0xC2 ≤ a && a ≤ 0xDF then .point (extend (a.toNat - 0xC0) b) [a, b]
        else match s with
          | c :: s =>
            if isContinuation c then
              if 0xE0 ≤ a && a ≤ 0xEF then .point (extend (extend (a.toNat - 0xE0) b) c) [a, b, c]
              else match s with
                | d :: _ =>
                  if isContinuation d && (0xF0 ≤ a && a ≤ 0xF4) then
                    .point (extend (extend (extend (a.toNat - 0xF0) b) c) d) [a, b, c, d]
                  else .stray a
                | [] => .stray a
            else .stray a
          | [] => .stray a
      else .stray a
    | [] => .stray a

end Utf8

namespace TextUnit

/-- The bytes that a unit stands for. -/
def bytes : TextUnit → Bytes
  | .point _ encoding => encoding
  | .stray b => [b]

/-- The code point a unit is read as: a stray byte reads as the replacement character. -/
def code : TextUnit → Nat
  | .point code _ => code
  | .stray _ => 0xFFFD

end TextUnit

namespace Utf8

/-- The encoding of the replacement character. -/
def replacement : Bytes := [0xEF, 0xBF, 0xBD]

/-- Reads the units of a text behind the units already read, which are held in reverse. -/
def unitsOnto (read : List TextUnit) : Bytes → List TextUnit
  | [] => read.reverse
  | a :: s => unitsOnto (headUnit a s :: read) (s.drop ((headUnit a s).bytes.length - 1))
termination_by s => s.length
decreasing_by simp only [List.length_drop, List.length_cons]; omega

/-- The units of a text from its start to its end. -/
def units (s : Bytes) : List TextUnit :=
  unitsOnto [] s

/-- The text with every stray byte replaced by the replacement character. -/
def sanitize (s : Bytes) : Bytes :=
  (units s).flatMap fun
    | .point _ encoding => encoding
    | .stray _ => replacement

end Utf8

end HeaderBinding
