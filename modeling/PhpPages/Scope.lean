import PhpPages.Text.Pieces

namespace PhpPages

/-- The current namespace and the imports of a file, the latest import first. -/
structure Scope where
  current : Option String := none
  aliases : List (String × String) := []
  deriving DecidableEq

namespace Scope

/-- Enters a namespace. An empty name is the global namespace. -/
def enter (name : Option String) (scope : Scope) : Scope :=
  { scope with current := name.filter fun n => !n.isEmpty }

/-- Imports a name. A later import of the same alias wins. -/
def define (short target : String) (scope : Scope) : Scope :=
  { scope with aliases := (short, Text.dropLeading ['\\'] target) :: scope.aliases }

/-- Forgets the namespace and all imports. -/
def clear (_ : Scope) : Scope := {}

/-- The full name of a class reference. An import beats membership in the namespace, and a reference
with a separator inside is taken as complete. -/
def resolve (scope : Scope) (reference : String) : String :=
  if reference.toList.head? = some '\\' then Text.dropLeading ['\\'] reference
  else
    match scope.aliases.lookup reference with
    | some target => target
    | none =>
      if reference.toList.contains '\\' then reference
      else
        match scope.current with
        | some name => name ++ "\\" ++ reference
        | none => reference

end Scope

end PhpPages
