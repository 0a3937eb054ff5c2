import PhpPages.Command.Options
import PhpPages.Settings.Load
import PhpPages.Site.Generate

namespace PhpPages.Command

open Yaml (Value)

def program : String := "php-autodoc"

def usage : String :=
  "usage: php-autodoc [-h] [--config CONFIG] [--path PATH] [--source SOURCE]\n" ++
  "                   [--exclude EXCLUDE] [--protected] [--private]\n" ++
  "                   [--title TITLE] [--project-root PROJECT_ROOT] [-v]\n"

def help : String :=
  usage ++ "\n" ++
  "Generate cross-linked Markdown documentation for PHP sources.\n" ++
  "\n" ++
  "options:\n" ++
  "  -h, --help            show this help message and exit\n" ++
  "  --config CONFIG       Path to an autodoc.yml / autodoc.json file\n" ++
  "  --path PATH           Output directory for the documentation\n" ++
  "  --source SOURCE       Additional source directory to scan (repeatable)\n" ++
  "  --exclude EXCLUDE     Additional path substring to exclude (repeatable)\n" ++
  "  --protected           Include protected methods\n" ++
  "  --private             Include private methods\n" ++
  "  --title TITLE         Title of the index page\n" ++
  "  --project-root PROJECT_ROOT\n" ++
  "                        Directory all paths must stay inside (default: current\n" ++
  "                        directory)\n" ++
  "  -v, --verbose         Enable debug logging\n"

/-- How a run ends: with a code, or with a failure that it has no message for. -/
inductive Ending where
  | code (n : Nat)
  | site (failure : Site.Failure)
  | load (error : Settings.LoadError)
  | markAsValue

structure Outcome where
  ending : Ending
  output : String
  errors : String
  files : FileSystem

/-- Texts without white space around them and without blank ones, `none` when nothing is left. -/
def cleanList (values : List String) : Value :=
  match (values.map Text.trim).filter fun v => !v.isEmpty with
  | [] => .null
  | kept => Settings.texts kept

def textOrNull (t : Option String) : Value :=
  match t with
  | some t => .text t
  | none => .null

/-- The settings that options overrule. -/
def Options.overrides (o : Options) : List (String × Value) :=
  [("output_path", textOrNull ((filled? o.path).map Text.trim)),
    ("source_directories", cleanList o.sources),
    ("excluded_directories", cleanList o.excludes),
    ("title", textOrNull o.title)] ++
  (if o.showProtected then [("include_protected_methods", .bool true)] else []) ++
  (if o.showPrivate then [("include_private_methods", .bool true)] else []) ++
  (match o.projectRoot with
    | some root => [("project_root", .text (Path.ofText root).text)]
    | none => [])

/-- Failures without a message of their own end the run at once. -/
def hasMessage : Site.Failure → Bool
  | .resolve _ | .boundary .rootUnreadable => false
  | _ => true

def loadHasMessage : Settings.LoadError → Bool
  | .notFound _ | .unreadable _ | .noMapping _ => true
  | .notUtf8 | .badValue _ | .notAppendable => false

/-- The lines that a log shows: warnings, or everything. -/
def logText (verbose : Bool) (log : List Event) : String :=
  String.join ((log.filter fun e => verbose || e.level = .warning).map fun e => e.line ++ "\n")

def started : String := "Starting documentation generation...\n"

/-- The settings of a run as they are shown before it starts. -/
def summary (s : Settings) : String :=
  let answer (b : Bool) : String := if b then "Yes" else "No"
  "Configuration:\n  Output Path: " ++ (s.text? "output_path").getD "" ++
    "\n  Source Directories: " ++ ", ".intercalate (s.textList "source_directories") ++
    "\n  Include Protected Methods: " ++ answer (s.isOn "include_protected_methods") ++
    "\n  Include Private Methods: " ++ answer (s.isOn "include_private_methods") ++ "\n\n"

def completed (s : Settings) (stats : Stats) : String :=
  let output := (s.text? "output_path").getD ""
  "Documentation generation completed!\n\n" ++ Markdown.table ["Metric", "Count"] stats.rows ++
    "\n\nDocumentation saved to: " ++ output ++ "\nIndex file: " ++ output ++ "/" ++
    Site.indexFile ++ "\n"

def errorLine (message : String) : String :=
  "Error: " ++ message ++ "\n"

/-- Generates with settings that are well formed. -/
def generateWith (fs : FileSystem) (verbose : Bool) (s : Settings) (now : Moment) : Outcome :=
  let shown := started ++ summary s
  let (result, world) := (Site.generate s now).run.run { files := fs }
  let log := logText verbose world.log
  match result with
  | .ok stats => ⟨.code 0, shown ++ completed s stats, log, world.files⟩
  | .error failure =>
    if hasMessage failure then ⟨.code 1, shown, log ++ errorLine failure.message, world.files⟩
    else ⟨.site failure, shown, log, world.files⟩

/-- Runs with the given options. -/
def runWith (fs : FileSystem) (o : Options) (now : Moment) : Outcome :=
  match Settings.load fs o.config o.overrides (o.projectRoot.map Path.ofText) with
  | .error e =>
    if loadHasMessage e then ⟨.code 1, started, errorLine e.message, fs⟩
    else ⟨.load e, started, "", fs⟩
  | .ok s =>
    match Settings.problems s with
    | [] => generateWith fs o.verbose s now
    | problems => ⟨.code 1, started, errorLine (Settings.problemsMessage problems), fs⟩

/-- Runs a command line at a given time. -/
def run (fs : FileSystem) (arguments : List String) (now : Moment) : Outcome :=
  match readArguments arguments with
  | .options o => runWith fs o now
  | .help => ⟨.code 0, help, "", fs⟩
  | .refused e => ⟨.code 2, "", usage ++ program ++ ": error: " ++ e.message ++ "\n", fs⟩
  | .markAsValue => ⟨.markAsValue, "", "", fs⟩

end PhpPages.Command
