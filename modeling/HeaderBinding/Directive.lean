import HeaderBinding.Declaration.Basic
import HeaderBinding.SyntaxError
import HeaderBinding.Text.Blank

/-!
# Directives

A directive is a `#`, a word and what the word asks for: an include target, a macro name, or
nothing. Blanks around the word are tab, LF, FF, CR and space. The word ends where no word byte
follows.
-/

namespace HeaderBinding

namespace Directive

def isBlank (b : UInt8) : Bool :=
  b == 0x09 || b == 0x0A || b == 0x0C || b == 0x0D || b == 0x20

def skipBlanks (s : Bytes) : Bytes :=
  s.dropWhile isBlank

/-- What follows a word, if the text starts with it and no word byte follows. -/
def afterWord? (word s : Bytes) : Option Bytes :=
  match Bytes.strip? word s with
  | some rest => if rest.head?.all fun b => !isWord b then some rest else none
  | none => none

/-- The non-empty text before the first occurrence of a closing byte. -/
def enclosed? (close : UInt8) (s : Bytes) : Option Bytes :=
  let name := s.takeWhile (· != close)
  if name.isEmpty || name.length == s.length then none else some name

/-- The target of an include: a name in quotes or in angle brackets. -/
def target? (s : Bytes) : Option Include :=
  match s with
  | 0x22 :: s => (enclosed? 0x22 s).map (⟨·, .custom⟩)
  | 0x3C :: s => (enclosed? 0x3E s).map (⟨·, .standard⟩)
  | _ => none

/-- The identifier behind at least one blank. -/
def macroName? (s : Bytes) : Option Bytes :=
  match s with
  | b :: s =>
    let name : Bytes := (skipBlanks s).takeWhile isWord
    if isBlank b && name.isIdentifier then some name else none
  | [] => none

/-- The declaration of a macro directive from what follows its word. -/
def macroFrom (kind : MacroKind) (s : Bytes) : Except SyntaxError (Option Declaration) :=
  match macroName? s with
  | some name => .ok (some (.macroName ⟨name, kind⟩))
  | none => .error .noMacroName

/-- Reads a directive without blanks around it. An `endif` is accepted and declares nothing. -/
def read (s : Bytes) : Except SyntaxError (Option Declaration) :=
  match s with
  | 0x23 :: s =>
    let s := skipBlanks s
    match afterWord? (ascii "include") s with
    | some rest =>
      match target? (skipBlanks rest) with
      | some i => .ok (some (.inclusion i))
      | none => .error .invalidInclude
    | none =>
      match afterWord? (ascii "ifndef") s with
      | some rest => macroFrom .includeGuard rest
      | none =>
        match afterWord? (ascii "define") s with
        | some rest => macroFrom .define rest
        | none =>
          match afterWord? (ascii "endif") s with
          | some _ => .ok none
          | none => .error .invalidDirective
  | _ => .error .invalidDirective

end Directive

/-- Reads one directive, from its `#` up to but without the line break or `;`. Blanks around it do
not matter. A fault names the whole directive and has no place. -/
def parseStatement (s : Bytes) : Except Fault (Option Declaration) :=
  (Directive.read s.trim).mapError fun cause => ⟨cause, s.trim, Position.unknown⟩

end HeaderBinding
