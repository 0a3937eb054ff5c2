import PhpPages.Event
import PhpPages.FileSystem.Resolve
import PhpPages.Text.Lower

namespace PhpPages

/-- What failed while files were read or written. -/
inductive FileError where
  | scan (directory : Path)
  | read (file : Path)
  | delete (directory : Path)
  | create (directory : Path)
  | write (file : Path)
  deriving DecidableEq

def FileError.message : FileError → String
  | scan directory => s!"Failed to scan directory: {directory}. Check permissions."
  | read file => s!"Failed to read source file: {file}"
  | delete directory => s!"Failed to delete directory: {directory}. Check permissions."
  | create directory =>
    s!"Failed to create directory: {directory}. Check permissions and disk space."
  | write file => s!"Failed to write file: {file}. Check permissions and disk space."

namespace Scan

/-- Which files are wanted: by suffix, and by texts that must not occur in their paths. Without any
extension those of PHP are meant. Paths are looked at from `base`, if there is one and they lie
below it, or else from the directory they were found in. -/
structure Filter where
  excluded : List String := []
  extensions : List String := []
  base : Option Path := none

/-- A suffix or an extension without dots in front and without regard to case. -/
def bareExtension (s : String) : String :=
  Text.lower (Text.dropLeading ['.'] s)

def Filter.wantsSuffix (f : Filter) (file : Path) : Bool :=
  let extensions := if f.extensions.isEmpty then ["php"] else f.extensions
  (extensions.map bareExtension).contains (bareExtension file.suffix)

/-- The text in which excluded texts are looked for. -/
def Filter.matchText (f : Filter) (directory file : Path) : String :=
  let fromBase := f.base.bind file.relativeTo?
  ((fromBase.orElse fun _ => file.relativeTo? directory).getD file).text

def Filter.excludes (f : Filter) (directory file : Path) : Bool :=
  (f.excluded.filter fun e => !e.isEmpty).any fun e =>
    Text.occursIn (Segments.slashed e).toList (f.matchText directory file).toList

/-- The wanted files of one directory, given where it is. Linked directories are not entered,
linked files count. -/
def filesBelow (fs : FileSystem) (f : Filter) (directory : Path) (location : Location) :
    List Path :=
  (fs.below location).filterMap fun (names, _) =>
    let file := directory.join ⟨.relative, names⟩
    if f.wantsSuffix file && !f.excludes directory file && fs.isFile file then some file else none

/-- Searches directories one after the other. Missing ones are reported; a directory that cannot be
listed ends the search. -/
def collect (fs : FileSystem) (f : Filter) : List Path → List Event × Except FileError (List Path)
  | [] => ([], .ok [])
  | directory :: rest =>
    match fs.lookup true directory with
    | .entry location .directory =>
      if fs.mayList then
        let (events, found) := collect fs f rest
        (events, found.map fun files => filesBelow fs f directory location ++ files)
      else ([], .error (.scan directory))
    | _ =>
      let (events, found) := collect fs f rest
      (.directoryMissing directory :: events, found)

/-- The wanted files below the directories, sorted, each once. -/
def sources (fs : FileSystem) (f : Filter) (directories : List Path) :
    List Event × Except FileError (List Path) :=
  let (events, found) := collect fs f directories
  (events, found.map fun files => (files.mergeSort Path.le).eraseDups)

/-- The name of a source directory in front of its files: its path below `base`, or
its bare name. -/
def directoryLabel (fs : FileSystem) (base : Option Path) (directory : Location) :
    Except ResolveError String := do
  match base with
  | none => return (Path.at directory).name
  | some base =>
    match (Path.at directory).relativeTo? (Path.at (← fs.resolveLenient base)) with
    | some relative =>
      return if relative.text = "." then (Path.at directory).name else relative.text
    | none => return (Path.at directory).name

/-- Looks for the first source directory that contains a file. -/
def relativeAmong (fs : FileSystem) (base : Option Path) (several : Bool) (file : Path)
    (location : Location) : List Path → Except ResolveError String
  | [] => return file.name
  | directory :: rest => do
    let top ← fs.resolveLenient directory
    match (Path.at location).relativeTo? (Path.at top) with
    | none => relativeAmong fs base several file location rest
    | some relative =>
      if several then return (← directoryLabel fs base top) ++ "/" ++ relative.text
      else return relative.text

/-- The path of a file below the source directory that contains it. With several source directories
it starts with the label of that directory, so that files of different directories stay apart. -/
def relativeSource (fs : FileSystem) (file : Path) (directories : List Path) (base : Option Path) :
    Except ResolveError String := do
  relativeAmong fs base (directories.length > 1) file (← fs.resolveLenient file) directories

end Scan

end PhpPages
