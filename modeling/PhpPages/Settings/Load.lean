import PhpPages.FileSystem.Lookup
import PhpPages.Settings.Basic
import PhpPages.Yaml.Document

namespace PhpPages.Settings

open Yaml (Value)

/-- The names of settings files, in the order in which they are looked for. -/
def fileNames : List String := ["autodoc.yml", "autodoc.yaml", "autodoc.json"]

/-- Why settings cannot be loaded. -/
inductive LoadError where
  | notFound (path : String)
  | unreadable (file : Path)
  | noMapping (file : Path)
  | notUtf8
  | badValue (failure : Yaml.Failure)
  | notAppendable

def LoadError.message : LoadError → String
  | notFound path => "Configuration file not found: " ++ path
  | unreadable file => s!"Failed to read configuration file {file}: not a well-formed document"
  | noMapping file => s!"Configuration file {file} must contain a mapping of settings"
  | notUtf8 => "configuration is not valid UTF-8"
  | badValue _ => "configuration holds a value that cannot be read"
  | notAppendable => "value cannot be appended to a list"

/-- The first settings file in a directory. -/
def find (fs : FileSystem) (directory : Path) : Option Path :=
  (fileNames.map fun name => directory.join (Path.ofText name)).find? fs.isFile

/-- A text with every line ended by a line feed alone. -/
def unifyLines : List Char → List Char
  | [] => []
  | '\x0d' :: '\n' :: rest => '\n' :: unifyLines rest
  | c :: rest => (if c = '\x0d' then '\n' else c) :: unifyLines rest

/-- The settings in a file. A file without a value has none. -/
def ofFile (fs : FileSystem) (file : Path) : Except LoadError Settings :=
  match fs.read file with
  | .error _ => .error (.unreadable file)
  | .ok content =>
    match String.fromUTF8? content with
    | none => .error .notUtf8
    | some text =>
      match Yaml.parse (String.ofList (unifyLines text.toList)) with
      | .error .malformed => .error (.unreadable file)
      | .error failure => .error (.badValue failure)
      | .ok .null => .ok []
      | .ok (.mapping entries) => .ok entries
      | .ok _ => .error (.noMapping file)

/-- The file to read: the given one, which must exist, or the one found in the project. An empty
path counts as none. -/
def chooseFile (fs : FileSystem) (path : Option String) (root : Option Path) :
    Except LoadError (Option Path) :=
  match path.filter fun p => !p.isEmpty with
  | some p =>
    if fs.isFile (Path.ofText p) then .ok (some (Path.ofText p)) else .error (.notFound p)
  | none => .ok (find fs (root.getD (Path.at (fs.here.getD []))))

/-- The settings of a run. -/
def load (fs : FileSystem) (path : Option String) (overrides : List (String × Value))
    (root : Option Path) : Except LoadError Settings := do
  let fromFile ← match ← chooseFile fs path root with
    | some file => ofFile fs file
    | none => .ok []
  match (defaults.update fromFile).overrideAll? overrides with
  | some settings => .ok settings
  | none => .error .notAppendable

end PhpPages.Settings
