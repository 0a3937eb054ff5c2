import PhpPages.Boundary
import PhpPages.Extraction
import PhpPages.Scan
import PhpPages.Settings.Check

namespace PhpPages.Site

/-- Why a run fails. A failure to resolve a path of the project is passed on as it is. -/
inductive Failure where
  | settings (problems : List Settings.Problem)
  | boundary (refusal : Boundary.Refusal)
  | outputIsRoot (output : Path)
  | outputHoldsSource (output source : Path)
  | files (error : FileError)
  | resolve (error : ResolveError)
  deriving DecidableEq

def Failure.message : Failure → String
  | settings problems => Settings.problemsMessage problems
  | boundary (.path problem) => problem.message
  | boundary (.rootMissing root) =>
    "Project root directory does not exist or is not accessible: " ++ root
  | boundary .rootUnreadable => ResolveError.nullCharacter.message
  | outputIsRoot output => s!"Output path must not be the project root: {output}"
  | outputHoldsSource output source =>
    s!"Output path {output} contains source directory {source}; it is deleted before generation."
  | files error => error.message
  | resolve error => error.message

/-- What a run is asked to do. -/
structure Plan where
  root : Path
  output : String
  sources : List String
  excluded : List String
  extensions : List String
  audience : Audience
  title : String
  unchecked : Bool

/-- The title of an index without one of its own. -/
def defaultTitle : String := "PHP Documentation"

/-- The plan that settings give in a working directory. Where a setting is empty or absent, the
default holds. -/
def planOf (s : Settings) (here : Option Location) : Plan where
  root := match filled? (s.text? "project_root") with
    | some root => Path.ofText root
    | none => Path.at (here.getD [])
  output := Text.trim ((s.text? "output_path").getD "")
  sources := (s.textList "source_directories").map Text.trim
  excluded := s.textList "excluded_directories"
  extensions := s.textList "file_extensions"
  audience := ⟨s.isOn "include_private_methods", s.isOn "include_protected_methods"⟩
  title := (filled? (s.text? "title")).getD defaultTitle
  unchecked := s.isOn "skip_path_validation"

end PhpPages.Site
