import PhpPages.ClassMap
import PhpPages.FileSystem.Change
import PhpPages.Link.Source
import PhpPages.Page.Class
import PhpPages.Page.Index
import PhpPages.Site.Source

namespace PhpPages.Site

/-- The file system a run works on and what it has reported. -/
structure World where
  files : FileSystem
  log : List Event := []

/-- A run changes the world even when it fails in the end. -/
abbrev Run := ExceptT Failure (StateM World)

/-- The name of the index page. -/
def indexFile : String := "README.md"

def report (events : List Event) : Run Unit :=
  modify fun w => { w with log := w.log ++ events }

def files : Run FileSystem := do
  return (← get).files

/-- Does something that only looks at the file system. -/
def look {α : Type} (f : FileSystem → Except Failure α) : Run α := do
  match f (← files) with
  | .ok a => return a
  | .error e => throw e

/-- Changes the file system, or fails with the given error. -/
def change (f : FileSystem → Except Fault FileSystem) (error : FileError) : Run Unit := do
  match f (← files) with
  | .ok changed => modify fun w => { w with files := changed }
  | .error _ => throw (.files error)

/-- The resolved form of a path that is not checked. -/
def absolute (fs : FileSystem) (root : Path) (path : String) : Except Failure Path := do
  return Path.at (← resolving (fs.resolveLenient (root.join (Path.ofText path))))

/-- The resolved form of a path of the plan. -/
def place (fs : FileSystem) (plan : Plan) (path label : String) : Except Failure Path :=
  if plan.unchecked then absolute fs plan.root path
  else (Boundary.check fs path plan.root.text label).mapError .boundary

/-- The resolved output directory and source directories of a plan. -/
def places (fs : FileSystem) (plan : Plan) : Except Failure (Path × List Path) := do
  let output ← place fs plan plan.output "Output path"
  let sources ← plan.sources.mapM fun s => place fs plan s "Source directory"
  return (output, sources)

/-- Refuses an output directory whose deletion would remove the project or a source directory. -/
def guardOutput (fs : FileSystem) (plan : Plan) (output : Path) (sources : List Path) :
    Except Failure Unit := do
  let root ← resolving (fs.resolveLenient plan.root)
  if output = Path.at root then throw (.outputIsRoot output)
  match sources.find? fun source => Segments.isWithin source.text output.text with
  | some source => throw (.outputHoldsSource output source)
  | none => return

/-- Everything that can be wrong before the first change: gives the places of the run. Without a
configured root the working directory must not be gone. -/
def prepare (fs : FileSystem) (s : Settings) : Except Failure (Plan × Path × List Path) := do
  if !(Settings.problems s).isEmpty then throw (.settings (Settings.problems s))
  if fs.here.isNone && (filled? (s.text? "project_root")).isNone then throw (.resolve (.missing {}))
  let plan := planOf s fs.here
  let (output, sources) ← places fs plan
  guardOutput fs plan output sources
  return (plan, output, sources)

/-- Deletes a directory: what is below it first, and then the directory itself, if the path
still leads there. -/
def removeTree (directory : Path) : Run Unit := do
  change (·.clearDirectory directory) (.delete directory)
  change (·.removeDirectory directory) (.delete directory)

/-- Deletes the output directory, if it is one, and makes it anew. -/
def resetOutput (output : Path) : Run Unit := do
  if (← files).isDirectory output then removeTree output
  change (·.makeDirectories output) (.create output)

/-- Writes a file in a directory that is made if it is missing. -/
def writeFile (file : Path) (text : String) : Run Unit := do
  change (·.makeDirectories file.parent) (.create file.parent)
  change (·.write file text.toUTF8) (.write file)

/-- Finds the source files. -/
def scanSources (plan : Plan) (sources : List Path) : Run (List Path) := do
  let base ← look fun fs => resolving (fs.resolveLenient plan.root)
  let (events, found) := Scan.sources (← files)
    { excluded := plan.excluded, extensions := plan.extensions, base := some (Path.at base) }
    sources
  report events
  match found with
  | .ok found => return found
  | .error e => throw (.files e)

/-- Reads the source files one after the other. -/
def parseFiles (plan : Plan) (sources : List Path) : List Path → Run (List ParsedFile)
  | [] => return []
  | file :: rest => do
    let (event, parsed) ← look fun fs => parseFile fs plan.audience sources (some plan.root) file
    report [event]
    return parsed :: (← parseFiles plan sources rest)

/-- The text of a page: all declarations of its file. -/
def pageText (map : ClassMap) (sourceLink : String) (file : ParsedFile) : String :=
  let links : Page.Links := ⟨file.relativePath, sourceLink, Link.toClass map file.pagePath⟩
  "\n".intercalate (file.declarations.map (Page.ofDeclaration links))

/-- Writes the page of one file. A file without declarations has none. -/
def writePage (map : ClassMap) (output : Path) (file : ParsedFile) : Run Unit := do
  if file.declarations.isEmpty then return
  let link ← look fun fs =>
    resolving (Link.toSource fs file.pagePath file.sourcePath.text output.text)
  report link.events
  writeFile (output.join (Path.ofText file.pagePath)) (pageText map link.text file)

def writePages (map : ClassMap) (output : Path) : List ParsedFile → Run Unit
  | [] => return
  | file :: rest => do
    writePage map output file
    writePages map output rest

/-- The totals of a run over the given files. -/
def statsOf (parsed : List ParsedFile) : Stats :=
  let found := parsed.flatMap (·.declarations)
  { files := parsed.length
    declarations := found.length
    methods := (found.flatMap (·.methods)).length
    properties := (found.flatMap (·.properties)).length }

/-- Generates the tree for prepared places. The class map is complete before the first page is
written, so that a page may link to a class found later. -/
def writeTree (plan : Plan) (output : Path) (sources : List Path) (now : Moment) : Run Stats := do
  resetOutput output
  let found ← scanSources plan sources
  report [.filesFound found.length]
  let parsed ← parseFiles plan sources found
  report (ClassMap.eventsOf parsed)
  writePages (ClassMap.ofFiles parsed) output parsed
  let written := parsed.filter fun f => !f.declarations.isEmpty
  report [.pagesWritten written.length output]
  writeFile (output.join (Path.ofText indexFile)) (Page.index plan.title parsed now)
  return statsOf parsed

/-- Generates the documentation that settings describe. -/
def generate (s : Settings) (now : Moment) : Run Stats := do
  let (plan, output, sources) ← look fun fs => prepare fs s
  writeTree plan output sources now

end PhpPages.Site
