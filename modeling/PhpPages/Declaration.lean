import PhpPages.Php.Outline
import PhpPages.Path.Basic

namespace PhpPages

/-- Who may use a member. -/
inductive Visibility where
  | «public»
  | «protected»
  | «private»
  | other (word : String)
  deriving DecidableEq

namespace Visibility

def word : Visibility → String
  | .public => "public"
  | .protected => "protected"
  | .private => "private"
  | .other w => w

def ofWord (w : String) : Visibility :=
  if w = "public" then .public
  else if w = "protected" then .protected
  else if w = "private" then .private
  else .other w

/-- The visibility that modifiers give a member, public when none of them says otherwise. -/
def ofModifiers (modifiers : List String) : Visibility :=
  if modifiers.contains "private" then .private
  else if modifiers.contains "protected" then .protected
  else .public

end Visibility

structure Parameter where
  name : String
  type : Option String := none
  default : Option String := none
  byRef : Bool := false
  variadic : Bool := false
  deriving DecidableEq

structure Method where
  name : String
  visibility : Visibility := .public
  isStatic : Bool := false
  isAbstract : Bool := false
  isFinal : Bool := false
  parameters : List Parameter := []
  returnType : Option String := none
  doc : Option String := none
  deriving DecidableEq

structure Property where
  name : String
  visibility : Visibility := .public
  isStatic : Bool := false
  type : Option String := none
  default : Option String := none
  doc : Option String := none
  deriving DecidableEq

structure Declaration where
  name : String
  kind : Kind
  «namespace» : Option String := none
  doc : Option String := none
  superType : Option String := none
  contracts : List String := []
  mixins : List String := []
  methods : List Method := []
  properties : List Property := []
  deriving DecidableEq

/-- An optional text in which an empty text counts as absent. -/
def filled? (text : Option String) : Option String :=
  text.filter fun t => !t.isEmpty

/-- Namespace and simple name. -/
def Declaration.fullName (d : Declaration) : String :=
  match filled? d.namespace with
  | some n => n ++ "\\" ++ d.name
  | none => d.name

/-- A scanned source file with the page it gets and the declarations it contains. `relativePath` is
the path below its source directory. -/
structure ParsedFile where
  sourcePath : Path
  relativePath : String
  pagePath : String
  declarations : List Declaration := []
  deriving DecidableEq

/-- Totals of a run. -/
structure Stats where
  files : Nat := 0
  declarations : Nat := 0
  methods : Nat := 0
  properties : Nat := 0
  deriving DecidableEq

/-- The totals as table rows. -/
def Stats.rows (s : Stats) : List (List String) :=
  [["Files scanned", toString s.files],
    ["Declarations documented", toString s.declarations],
    ["Methods documented", toString s.methods],
    ["Properties documented", toString s.properties]]

end PhpPages
