import PhpPages.FileSystem.Basic

namespace PhpPages

/-- Why an operation on the file system fails. -/
inductive Fault where
  | missing
  | notDirectory
  | tooManyLinks
  | occupied
  | isDirectory
  | isLink
  | forbidden
  deriving DecidableEq

/-- Where a path leads: to an entry, to a free place in a directory, or nowhere. -/
inductive Found where
  | entry (location : Location) (entry : Entry)
  | free (location : Location)
  | nowhere (fault : Fault)

namespace FileSystem

/-- How many links a path may lead through. -/
def linkLimit : Nat := 40

/-- The pieces of a link target between slashes, and where it starts when it is seen
from a location. -/
def targetStart (location : Location) (target : String) : Location :=
  if target.toList.head? = some '/' then [] else location

/-- Walks pieces of a path from the entry at a location. A link is handed to `enter` together with
the pieces behind it; a link at the end is followed only on demand. -/
def walk (fs : FileSystem) (followLast : Bool) (enter : Location → List String → Found)
    (location : Location) (entry : Entry) : List String → Found
  | [] => .entry location entry
  | piece :: rest =>
    if entry ≠ .directory then .nowhere .notDirectory
    else if piece.isEmpty || piece == "." then walk fs followLast enter location entry rest
    else if piece = ".." then walk fs followLast enter location.dropLast .directory rest
    else
      let next := location ++ [piece]
      match fs.entry? next with
      | none => if rest.isEmpty then .free next else .nowhere .missing
      | some (.link target) =>
        if rest.isEmpty && !followLast then .entry next (.link target)
        else enter (targetStart location target) (Text.pieces '/' target ++ rest)
      | some other => walk fs followLast enter next other rest

/-- Walks from a directory through at most the given number of links. -/
def walkLinks (fs : FileSystem) (followLast : Bool) : Nat → Location → List String → Found
  | 0, location, pieces =>
    walk fs followLast (fun _ _ => .nowhere .tooManyLinks) location .directory pieces
  | n + 1, location, pieces =>
    walk fs followLast (walkLinks fs followLast n) location .directory pieces

/-- Where a path leads. A path that needs too many links leads nowhere. -/
def lookup (fs : FileSystem) (followLast : Bool) (p : Path) : Found :=
  if p.isAbsolute then walkLinks fs followLast linkLimit [] p.segments
  else
    match fs.here with
    | some here => walkLinks fs followLast linkLimit here p.segments
    | none => .nowhere .missing

def isDirectory (fs : FileSystem) (p : Path) : Bool :=
  match fs.lookup true p with
  | .entry _ .directory => true
  | _ => false

def isFile (fs : FileSystem) (p : Path) : Bool :=
  match fs.lookup true p with
  | .entry _ (.file _) => true
  | _ => false

/-- The bytes of a file. -/
def read (fs : FileSystem) (p : Path) : Except Fault ByteArray :=
  match fs.lookup true p with
  | .entry _ (.file content) => .ok content
  | .entry _ _ => .error .isDirectory
  | .free _ => .error .missing
  | .nowhere fault => .error fault

end FileSystem

end PhpPages
