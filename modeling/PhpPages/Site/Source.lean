import PhpPages.Link.Page
import PhpPages.Php.Source
import PhpPages.Site.Plan

namespace PhpPages.Site

/-- The declarations of a source, and what is reported about it. A source that is no
PHP has none. -/
def declarationsOf (audience : Audience) (file : Path) (content : ByteArray) :
    Event × List Declaration :=
  match Php.outline content with
  | .error reason => (.fileSkipped file reason, [])
  | .ok statements =>
    let found := declarations audience statements
    (.fileRead found.length file, found)

/-- Reads the declarations of one file. -/
def extractFile (fs : FileSystem) (audience : Audience) (file : Path) :
    Except Failure (Event × List Declaration) :=
  if file.segments.any (·.toList.contains '\x00') then .error (.resolve .nullCharacter)
  else
    match fs.read file with
    | .error _ => .error (.files (.read file))
    | .ok content => .ok (declarationsOf audience file content)

/-- Lets a failure to resolve a path end a run. -/
def resolving {α : Type} (r : Except ResolveError α) : Except Failure α :=
  r.mapError .resolve

/-- Reads one file and works out where its page goes. -/
def parseFile (fs : FileSystem) (audience : Audience) (sources : List Path) (base : Option Path)
    (file : Path) : Except Failure (Event × ParsedFile) := do
  let relative ← resolving (Scan.relativeSource fs file sources base)
  let location ← resolving (fs.resolveLenient file)
  let (event, found) ← extractFile fs audience file
  return (event, ⟨Path.at location, relative, Link.pageOf relative, found⟩)

end PhpPages.Site
