import PhpPages.Text.Pieces

namespace PhpPages

/-- What a path starts from: the working directory, the root, or the root written with exactly two
slashes, which is kept apart from the root. -/
inductive Anchor where
  | relative
  | root
  | doubleRoot
  deriving DecidableEq

def Anchor.text : Anchor → String
  | relative => ""
  | root => "/"
  | doubleRoot => "//"

structure Path where
  anchor : Anchor := .relative
  segments : List String := []
  deriving DecidableEq

namespace Path

/-- The segments of a text between slashes, without empty ones and single dots. Double dots stay. -/
def textSegments (s : String) : List String :=
  (Text.pieces '/' s).filter fun p => !p.isEmpty && p != "."

def ofText (s : String) : Path :=
  let slashes := (s.toList.takeWhile (· = '/')).length
  let anchor : Anchor :=
    if slashes = 0 then .relative else if slashes = 2 then .doubleRoot else .root
  ⟨anchor, textSegments s⟩

/-- The text of a path. The path without anchor and segments is a single dot. -/
def text (p : Path) : String :=
  if p.anchor = .relative && p.segments.isEmpty then "."
  else p.anchor.text ++ "/".intercalate p.segments

instance : ToString Path := ⟨text⟩

def isAbsolute (p : Path) : Bool :=
  p.anchor != .relative

/-- The path `q` seen from `p`. An absolute path is the same from everywhere. -/
def join (p q : Path) : Path :=
  if q.isAbsolute then q else { p with segments := p.segments ++ q.segments }

/-- The path without its last segment. -/
def parent (p : Path) : Path :=
  { p with segments := p.segments.dropLast }

/-- The last segment, empty when there is none. -/
def name (p : Path) : String :=
  p.segments.getLast?.getD ""

/-- The end of the name from its last dot on. A dot at either end of the name starts no suffix. -/
def suffix (p : Path) : String :=
  let cs := p.name.toList
  let tail := (cs.reverse.takeWhile (· ≠ '.')).reverse
  let head := cs.take (cs.length - tail.length - 1)
  if tail.isEmpty || head.isEmpty then "" else String.ofList ('.' :: tail)

/-- What a path is sorted by: its anchor, if it has one, and its segments. -/
def parts (p : Path) : List String :=
  if p.isAbsolute then p.anchor.text :: p.segments else p.segments

/-- The order of paths, segment by segment. -/
def le (p q : Path) : Bool :=
  !decide (q.parts < p.parts)

/-- The path seen from another one that it lies below. Only the texts of the segments count. -/
def relativeTo? (p base : Path) : Option Path :=
  if p.anchor = base.anchor && base.segments.isPrefixOf p.segments then
    some ⟨.relative, p.segments.drop base.segments.length⟩
  else none

end Path

end PhpPages
