import PhpPages.Path.Basic

namespace PhpPages

/-- The names that lead to a place from the root through real directories. -/
abbrev Location := List String

local instance contentEq : DecidableEq ByteArray := fun _ _ =>
  decidable_of_decidable_of_iff ByteArray.ext_iff.symm

/-- What stands at a location. The target of a link is kept as it was written. -/
inductive Entry where
  | directory
  | file (content : ByteArray)
  | link (target : String)
  deriving DecidableEq

/-- A file system with a working directory, which is gone when it was deleted. Deleting trees and
listing directories may be forbidden. -/
structure FileSystem where
  entries : List (Location × Entry) := []
  here : Option Location := some []
  mayDelete : Bool := true
  mayList : Bool := true

/-- The path that leads from the root to a location. -/
def Path.at (location : Location) : Path :=
  ⟨.root, location⟩

namespace FileSystem

def entry? (fs : FileSystem) (location : Location) : Option Entry :=
  if location.isEmpty then some .directory else fs.entries.lookup location

/-- Puts an entry at a location in place of what stands there. -/
def insert (fs : FileSystem) (location : Location) (entry : Entry) : FileSystem :=
  { fs with entries := (location, entry) :: fs.entries.filter (·.1 ≠ location) }

/-- Removes what stands at a location and below it. -/
def erase (fs : FileSystem) (location : Location) : FileSystem :=
  { fs with
    entries := fs.entries.filter fun e => !location.isPrefixOf e.1
    here := fs.here.filter fun h => !location.isPrefixOf h }

/-- Removes what stands below a location, but not what stands at it. -/
def clear (fs : FileSystem) (location : Location) : FileSystem :=
  { fs with
    entries := fs.entries.filter fun e => e.1 = location || !location.isPrefixOf e.1
    here := fs.here.filter fun h => h = location || !location.isPrefixOf h }

/-- The entries strictly below a location, each with the names that lead to it from there. -/
def below (fs : FileSystem) (location : Location) : List (List String × Entry) :=
  fs.entries.filterMap fun e =>
    if location.isPrefixOf e.1 && e.1.length > location.length then
      some (e.1.drop location.length, e.2)
    else none

/-- How many links there are. -/
def linkCount (fs : FileSystem) : Nat :=
  fs.entries.countP fun e => match e.2 with
    | .link _ => true
    | _ => false

end FileSystem

end PhpPages
