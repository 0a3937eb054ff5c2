import PhpPages.Text.Pieces

/-!
Path texts handled by their segments alone. A backslash is read as a slash here, so that a text
written for another system is judged by the same rules.
-/

namespace PhpPages.Segments

open Text

/-- A path text with slashes only. -/
def slashed (path : String) : String :=
  substitute '\\' '/' path

def startsAtRoot (path : String) : Bool :=
  path.toList.head? = some '/'

def isDropped (segment : String) : Bool :=
  segment.isEmpty || segment == "."

/-- Walks segments, keeping the ones passed with the last in front. A double dot goes back one
segment and stays at the start when there is none. -/
def collapseFrom (passed : List String) : List String → List String
  | [] => passed.reverse
  | s :: rest =>
    if isDropped s then collapseFrom passed rest
    else if s = ".." then collapseFrom passed.tail rest
    else collapseFrom (s :: passed) rest

def collapse (segments : List String) : List String :=
  collapseFrom [] segments

/-- The same walk from a start that must not be left: `none` if it goes back beyond it. At the
root it stays. -/
def collapse? (atRoot : Bool) (passed : List String) : List String → Option (List String)
  | [] => some passed.reverse
  | s :: rest =>
    if isDropped s then collapse? atRoot passed rest
    else if s = ".." then
      match passed with
      | [] => if atRoot then collapse? atRoot [] rest else none
      | _ :: above => collapse? atRoot above rest
    else collapse? atRoot (s :: passed) rest

/-- The text of collapsed segments, behind the root or not. -/
def rendered (atRoot : Bool) (segments : List String) : String :=
  (if atRoot then "/" else "") ++ "/".intercalate segments

/-- The path without single dots, double dots and doubled slashes, `none` if it is relative and
climbs above its start. -/
def normalize? (path : String) : Option String :=
  let path := slashed path
  let atRoot := startsAtRoot path
  (collapse? atRoot [] (pieces '/' path)).map fun names =>
    let result := rendered atRoot names
    if result.isEmpty then "." else result

/-- The same without a start to climb above: the walk stays there. -/
def clamped (path : String) : String :=
  let path := slashed path
  rendered (startsAtRoot path) (collapse (pieces '/' path))

/-- Whether a path text is absolute on some system: from the root, on a drive, or on a share. -/
def isAbsolute (path : String) : Bool :=
  match path.toList with
  | '/' :: _ => true
  | '\\' :: '\\' :: _ => true
  | drive :: ':' :: c :: _ => drive.isAlpha && (c = '\\' || c = '/')
  | _ => false

/-- Whether a path is the root or lies below it. -/
def isWithin (path root : String) : Bool :=
  let path := (slashed path).toList
  let root := (dropTrailing ['/'] (slashed root)).toList
  path = root || (root ++ ['/']).isPrefixOf path

end PhpPages.Segments
