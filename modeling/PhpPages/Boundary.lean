import PhpPages.FileSystem.Resolve
import PhpPages.Text.Blank

/-!
The boundary of a project: configured paths have to stay inside its root. A path is judged with all
links followed. A path that does not exist yet is judged three times: by its segments, by what it
would denote, and by the nearest ancestor that exists.
-/

namespace PhpPages.Boundary

open Text

/-- What is wrong with a configured path. `label` says which path it is. -/
inductive Problem where
  | empty (label : String)
  | nullCharacter (label : String)
  | climbs (path : String)
  | unresolvable (label path : String) (cause : ResolveError) (root : Path)
  | outside (label path : String) (resolved root : Path)
  | createdOutside (label path : String) (resolved root : Path)
  | parentOutside (label path : String) (parent root : Path)
  deriving DecidableEq

def Problem.message : Problem → String
  | empty label => label ++ " cannot be empty. Please provide a valid directory path."
  | nullCharacter label =>
    label ++ " contains invalid characters (null byte). This is a potential security issue."
  | climbs path => "Path attempts to traverse above the starting directory: " ++ path
  | unresolvable label path cause root =>
    label ++ " '" ++ path ++ "' cannot be resolved: " ++ cause.message ++
      "\nProject root: " ++ root.text
  | outside label path resolved root =>
    label ++ " '" ++ path ++ "' is outside the allowed project root.\nResolved to: " ++
      resolved.text ++ "\nProject root: " ++ root.text ++
      "\nPlease use a path within your project directory, such as 'docs'."
  | createdOutside label path resolved root =>
    label ++ " '" ++ path ++
      "' would be created outside the allowed project root.\nResolved to: " ++ resolved.text ++
      "\nProject root: " ++ root.text ++ "\nPlease use a path within your project directory."
  | parentOutside label path parent root =>
    label ++ " '" ++ path ++
      "' would be created outside the allowed project root.\nParent directory: " ++ parent.text ++
      "\nProject root: " ++ root.text ++ "\nPlease use a path within your project directory."

/-- Why a path is refused: the path is wrong, the project root is, or the root cannot be
looked up at all. -/
inductive Refusal where
  | path (problem : Problem)
  | rootMissing (root : String)
  | rootUnreadable
  deriving DecidableEq

/-- The path without single dots, double dots and doubled slashes. -/
def normalize (path : String) : Except Problem String :=
  match Segments.normalize? path with
  | some normalized => .ok normalized
  | none => .error (.climbs (Segments.slashed path))

/-- A path to be judged: what was written, what it is called, and the text that is looked up. -/
structure Request where
  label : String
  path : String
  candidate : String
  root : Location

namespace Request

def rootPath (r : Request) : Path := Path.at r.root

def admits (r : Request) (p : Path) : Bool :=
  Segments.isWithin p.text r.rootPath.text

/-- The ancestors of a path, the nearest first. -/
def ancestorsOf (p : Path) : List Path :=
  (List.range p.segments.length).reverse.map fun n => ⟨p.anchor, p.segments.take n⟩

/-- Judges a missing path by the first of the given ancestors that exists, and puts the rest of the
path behind what that ancestor denotes. -/
def viaAncestor (r : Request) (fs : FileSystem) (normalized : Path) :
    List Path → Except Problem Path
  | [] => .ok normalized
  | parent :: further =>
    match fs.resolveStrict parent with
    | .error (.missing _) => viaAncestor r fs normalized further
    | .error cause => .error (.unresolvable r.label r.path cause r.rootPath)
    | .ok location =>
      if !r.admits (Path.at location) then
        .error (.parentOutside r.label r.path (Path.at location) r.rootPath)
      else do
        let below := (Path.ofText r.candidate).segments.drop parent.segments.length
        return Path.ofText (← normalize (Path.at (location ++ below)).text)

/-- Judges a path that does not exist. -/
def judgeMissing (r : Request) (fs : FileSystem) : Except Problem Path := do
  let normalized := Path.ofText (← normalize r.candidate)
  match fs.resolveLenient (Path.ofText r.candidate) with
  | .error cause => .error (.unresolvable r.label r.path cause r.rootPath)
  | .ok followed =>
    match [normalized, Path.at followed].find? fun p => !r.admits p with
    | some tentative => .error (.createdOutside r.label r.path tentative r.rootPath)
    | none => r.viaAncestor fs normalized (ancestorsOf (Path.ofText r.candidate))

/-- Judges a path by what it denotes. -/
def judge (r : Request) (fs : FileSystem) : Except Problem Path := do
  let resolved ← match fs.resolveStrict (Path.ofText r.candidate) with
    | .ok location => .ok (Path.at location)
    | .error (.missing _) => r.judgeMissing fs
    | .error cause => .error (.unresolvable r.label r.path cause r.rootPath)
  if r.admits resolved then .ok resolved else .error (.outside r.label r.path resolved r.rootPath)

end Request

/-- The text to look up for a path: the path itself if it is absolute on some system, otherwise the
path below the root. -/
def candidateFor (root : Location) (path : String) : String :=
  if Segments.isAbsolute path then path
  else dropTrailing ['/', '\\'] (Path.at root).text ++ "/" ++ dropLeading ['/', '\\'] path

/-- The resolved form of a path, or why it must not be used in the project. -/
def check (fs : FileSystem) (path root : String) (label : String) : Except Refusal Path :=
  if (trim path).isEmpty then .error (.path (.empty label))
  else if path.toList.contains '\x00' then .error (.path (.nullCharacter label))
  else
    match fs.resolveStrict (Path.ofText root) with
    | .error .nullCharacter => .error .rootUnreadable
    | .error _ => .error (.rootMissing root)
    | .ok location =>
      match Request.judge ⟨label, path, candidateFor location path, location⟩ fs with
      | .ok resolved => .ok resolved
      | .error problem => .error (.path problem)

end PhpPages.Boundary
