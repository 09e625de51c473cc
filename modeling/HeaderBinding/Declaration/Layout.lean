import HeaderBinding.Declaration.Basic

/-!
# Declarations as binding text

A directive becomes a comment line, a prototype one line, an enum or a struct a heading with one
line per member below it, or `pass` if it has none.
-/

namespace HeaderBinding

/-- How declarations are written. An empty keyword or comment mark takes its space with it. -/
structure Format where
  /-- Stands before `enum` and `struct`. -/
  keyword : Bytes
  /-- Written once per level. -/
  indent : Bytes
  /-- Starts a comment line. -/
  comment : Bytes
deriving Repr, DecidableEq

namespace Format

def cython : Format := ⟨ascii "cdef", ascii "    ", ascii "#"⟩

/-- A word and a space, or nothing for the empty word. -/
def lead (word : Bytes) : Bytes :=
  if word.isEmpty then [] else word ++ ascii " "

/-- The start of a line at a depth. A depth below zero counts as zero. -/
def indentation (f : Format) (depth : Int) : Bytes :=
  Bytes.repeated depth.toNat f.indent

end Format

def Include.render (f : Format) (depth : Int) (i : Include) : Bytes :=
  f.indentation depth ++ Format.lead f.comment ++
    match i.kind with
    | .standard => ascii "include <" ++ i.name ++ ascii ">"
    | .custom => ascii "include \"" ++ i.name ++ ascii "\""

def Macro.render (f : Format) (depth : Int) (m : Macro) : Bytes :=
  f.indentation depth ++ Format.lead f.comment ++ m.kind.directive ++ ascii " " ++ m.name

def Argument.render (f : Format) (depth : Int) (a : Argument) : Bytes :=
  f.indentation depth ++ a.type.name ++ ascii " " ++ a.name

/-- A heading and the lines below it, or `pass` where there are none. -/
def Format.block (f : Format) (depth : Int) (heading : Bytes) (lines : List Bytes) : Bytes :=
  let body := if lines.isEmpty then [f.indentation (depth + 1) ++ ascii "pass"] else lines
  Bytes.join [lineFeed]
    ((f.indentation depth ++ Format.lead f.keyword ++ heading ++ ascii ":") :: body)

def Enum.render (f : Format) (depth : Int) (e : Enum) : Bytes :=
  f.block depth (ascii "enum " ++ e.name) (e.attributes.map (f.indentation (depth + 1) ++ ·))

def Struct.render (f : Format) (depth : Int) (s : Struct) : Bytes :=
  f.block depth (ascii "struct " ++ s.name) (s.attributes.map (·.render f (depth + 1)))

def Prototype.render (f : Format) (depth : Int) (p : Prototype) : Bytes :=
  f.indentation depth ++ p.returnType.name ++ ascii " " ++ p.name ++ ascii "(" ++
    Bytes.join (ascii ", ") (p.arguments.map (·.render f 0)) ++ ascii ")"

namespace Declaration

def render (f : Format) (depth : Int) : Declaration → Bytes
  | .inclusion i => i.render f depth
  | .macroName m => m.render f depth
  | .enum e => e.render f depth
  | .struct s => s.render f depth
  | .prototype p => p.render f depth

/-- The number of members in words. -/
def memberCount (n : Nat) : Bytes :=
  if n = 1 then ascii "1 member" else decimal n ++ ascii " members"

/-- What a table of declarations says beside kind and name. -/
def summary : Declaration → Bytes
  | .inclusion i => i.kind.name
  | .macroName m => m.kind.name
  | .enum e => memberCount e.attributes.length
  | .struct s => memberCount s.attributes.length
  | .prototype p => p.render Format.cython 0

end Declaration

end HeaderBinding
