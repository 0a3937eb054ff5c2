import PhpPages.Settings.Basic
import PhpPages.Text.Blank

namespace PhpPages.Settings

open Yaml (Value)

/-- What is wrong with settings. -/
inductive Problem where
  | required (key : String)
  | notText (key : String)
  | blank (key : String)
  | notList (key : String)
  | noDirectory
  | elementNotText (key : String) (index : Nat)
  | elementBlank (key : String) (index : Nat)
  | notTruth (key : String)
  deriving DecidableEq

def Problem.message : Problem → String
  | required key => s!"{key} is required"
  | notText key => s!"{key} must be a string"
  | blank key => s!"{key} must be a non-empty string"
  | notList key => s!"{key} must be a list"
  | noDirectory => "source_directories must contain at least one directory"
  | elementNotText key index => s!"{key} element at index {index} must be a string"
  | elementBlank key index => s!"{key} element at index {index} must be a non-empty string"
  | notTruth key => s!"{key} must be a boolean"

def isBlankText (s : String) : Bool :=
  (Text.trim s).isEmpty

def outputProblems (s : Settings) : List Problem :=
  match s.get? "output_path" with
  | none | some .null => [.required "output_path"]
  | some (.text path) => if isBlankText path then [.blank "output_path"] else []
  | some _ => [.notText "output_path"]

/-- The problems of elements that must be texts, counted from an index. With `filled`, a text must
not be blank. -/
def elementProblems (key : String) (filled : Bool) (index : Nat) : List Value → List Problem
  | [] => []
  | .text t :: rest =>
    (if filled && isBlankText t then [.elementBlank key index] else []) ++
      elementProblems key filled (index + 1) rest
  | _ :: rest => .elementNotText key index :: elementProblems key filled (index + 1) rest

def sourceProblems (s : Settings) : List Problem :=
  match s.get? "source_directories" with
  | none | some .null => [.required "source_directories"]
  | some (.list []) => [.noDirectory]
  | some (.list items) => elementProblems "source_directories" true 0 items
  | some _ => [.notList "source_directories"]

def listProblems (s : Settings) (key : String) : List Problem :=
  match s.get? key with
  | none => []
  | some (.list items) => elementProblems key false 0 items
  | some _ => [.notList key]

def truthProblems (s : Settings) (key : String) : List Problem :=
  match s.get? key with
  | none | some (.bool _) => []
  | some _ => [.notTruth key]

def titleProblems (s : Settings) : List Problem :=
  match s.get? "title" with
  | none | some (.text _) => []
  | some _ => [.notText "title"]

def rootProblems (s : Settings) : List Problem :=
  match s.get? "project_root" with
  | none | some .null | some (.text _) => []
  | some _ => [.notText "project_root"]

/-- Everything that is wrong with settings, in a fixed order. -/
def problems (s : Settings) : List Problem :=
  outputProblems s ++ sourceProblems s ++
    listProblems s "excluded_directories" ++ listProblems s "file_extensions" ++
    truthProblems s "include_private_methods" ++ truthProblems s "include_protected_methods" ++
    truthProblems s "skip_path_validation" ++ titleProblems s ++ rootProblems s

/-- All problems in one message. -/
def problemsMessage (problems : List Problem) : String :=
  "Invalid configuration:\n" ++ "\n".intercalate (problems.map (·.message))

def text? (s : Settings) (key : String) : Option String :=
  match s.get? key with
  | some (.text t) => some t
  | _ => none

/-- The texts of a list, none when the key has no list. -/
def textList (s : Settings) (key : String) : List String :=
  match s.get? key with
  | some (.list items) => items.filterMap fun
    | .text t => some t
    | _ => none
  | _ => []

def isOn (s : Settings) (key : String) : Bool :=
  match s.get? key with
  | some (.bool b) => b
  | _ => false

end PhpPages.Settings
