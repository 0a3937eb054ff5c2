import PhpPages.Event
import PhpPages.FileSystem.Resolve
import PhpPages.Link.Page

namespace PhpPages.Link

open Text

/-- The most levels that a link to a source may climb. -/
def maxLevels : Nat := 5

/-- The absolute text of a path with all links followed. A path that does not exist is cleaned
segment by segment first; if it is relative it stays so. -/
def normalizePath (fs : FileSystem) (path : String) : Except ResolveError String :=
  match fs.resolveStrict (Path.ofText path) with
  | .ok location => .ok (Path.at location).text
  | .error .nullCharacter => .error .nullCharacter
  | .error _ =>
    let clamped := Segments.clamped path
    if !Segments.startsAtRoot clamped then .ok clamped
    else
      match fs.resolveLenient (Path.ofText clamped) with
      | .ok location => .ok (Path.at location).text
      | .error .nullCharacter => .error .nullCharacter
      | .error _ => .ok clamped

/-- How many elements two lists have in common at the front. -/
def commonLength {α : Type} [DecidableEq α] : List α → List α → Nat
  | a :: as, b :: bs => if a = b then commonLength as bs + 1 else 0
  | _, _ => 0

/-- A link to a source: the way there, or the page with the suffix of the source when the
way is too long. -/
inductive SourceLink where
  | near (link : String)
  | far (page : String) (levels : Nat) (instead : String)
  deriving DecidableEq

def SourceLink.text : SourceLink → String
  | near link => link
  | far _ _ instead => instead

def SourceLink.events : SourceLink → List Event
  | near _ => []
  | far page levels instead => [.sourceFar page levels instead]

/-- The link from a directory to a file. There is no way when they share nothing but the root, and
none that climbs too far. -/
def sourceLinkFrom (page directory source : String) : SourceLink :=
  let start := pieces '/' directory
  let target := pieces '/' (Slashed.directory source)
  let common := commonLength start target
  let levels := start.length - common
  if common = 0 || (common = 1 && start.head? = some "") || levels > maxLevels then
    .far page levels (Slashed.stem page ++ (Path.ofText source).suffix)
  else .near (route levels (target.drop common) ++ Slashed.last source)

/-- The link from a page below the output directory to the source it documents. -/
def toSource (fs : FileSystem) (page source output : String) : Except ResolveError SourceLink := do
  let directory ← normalizePath fs (Slashed.directory (output ++ "/" ++ page))
  let source ← normalizePath fs source
  return sourceLinkFrom page directory source

end PhpPages.Link
