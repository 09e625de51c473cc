import HeaderBinding.Declaration.Layout

/-!
# Binding modules

A module is a list of declarations as one text, one declaration after another, optionally under a
banner of comment lines and inside a block that names the header they come from.
-/

namespace HeaderBinding

inductive ModuleOption where
  /-- The declaration keyword. An empty one is allowed. -/
  | keyword (word : Bytes)
  | indent (unit : Bytes)
  /-- Wrap the declarations in a block for the named header. -/
  | externFrom (header : Bytes)
  /-- Leave out includes and macros. -/
  | omitDirectives
  /-- Comment lines at the top. -/
  | banner (text : Bytes)
deriving Repr, DecidableEq

structure ModuleStyle where
  format : Format
  keywordGiven : Bool
  externFrom : Bytes
  omitDirectives : Bool
  banner : Bytes
deriving Repr, DecidableEq

namespace ModuleStyle

def default : ModuleStyle := ⟨Format.cython, false, [], false, []⟩

def apply (style : ModuleStyle) : ModuleOption → ModuleStyle
  | .keyword word =>
    { style with format := { style.format with keyword := word }, keywordGiven := true }
  | .indent unit => { style with format := { style.format with indent := unit } }
  | .externFrom header => { style with externFrom := header }
  | .omitDirectives => { style with omitDirectives := true }
  | .banner text => { style with banner := text }

/-- Declarations inside a block for a header have no keyword unless one was given. -/
def settled (style : ModuleStyle) : ModuleStyle :=
  if !style.externFrom.isEmpty && !style.keywordGiven then
    { style with format := { style.format with keyword := [] } }
  else style

/-- The style that options give in order, a later one replacing an earlier one of its sort. -/
def ofOptions (options : List ModuleOption) : ModuleStyle :=
  (options.foldl apply default).settled

/-- A banner line as a comment. -/
def commentLine (style : ModuleStyle) (line : Bytes) : Bytes :=
  if line.isEmpty then style.format.comment else style.format.comment ++ ascii " " ++ line

/-- The comment lines of the banner. Line feeds at its end do not count. -/
def bannerLines (style : ModuleStyle) : List Bytes :=
  if style.banner.isEmpty then [] else style.banner.significantLines.map style.commentLine

/-- The declarations that are written, each as one text that may have several lines. -/
def entries (style : ModuleStyle) (declarations : List Declaration) : List Bytes :=
  let depth : Int := if style.externFrom.isEmpty then 0 else 1
  (declarations.filter fun d => !(style.omitDirectives && d.isDirective)).map
    (·.render style.format depth)

/-- The heading and the content of the block, or just the content. A block without content holds
`pass`. -/
def body (style : ModuleStyle) (entries : List Bytes) : List Bytes :=
  if style.externFrom.isEmpty then entries
  else
    (ascii "cdef extern from \"" ++ style.externFrom ++ ascii "\":") ::
      if entries.isEmpty then [style.format.indentation 1 ++ ascii "pass"] else entries

/-- The text of a module: its parts, each ended by a line feed. -/
def render (style : ModuleStyle) (declarations : List Declaration) : Bytes :=
  (style.bannerLines ++ style.body (style.entries declarations)).flatMap (· ++ [lineFeed])

end ModuleStyle

/-- The text of the module that holds the declarations under the given options. -/
def renderModule (options : List ModuleOption) (declarations : List Declaration) : Bytes :=
  (ModuleStyle.ofOptions options).render declarations

end HeaderBinding
