import PhpPages.Path.Slashed

namespace PhpPages.Link

open Text

/-- The ending of every page. -/
def pageEnding : String := ".md"

/-- The page of a source file. -/
def pageOf (relativeSource : String) : String :=
  Slashed.stem relativeSource ++ pageEnding

/-- Drops what two lists have in common at the front. -/
def dropCommon {α : Type} [DecidableEq α] : List α → List α → List α × List α
  | a :: as, b :: bs => if a = b then dropCommon as bs else (a :: as, b :: bs)
  | as, bs => (as, bs)

/-- The directories `ups` levels up and then down through `downs`, ready for a name to follow. -/
def route (ups : Nat) (downs : List String) : String :=
  String.join (List.replicate ups "../") ++
    (if downs.isEmpty then "" else "/".intercalate downs ++ "/")

/-- The link from one page to another, relative to the directory of the first. -/
def between (source target : String) : String :=
  let sourceDirectory := Slashed.directory (Slashed.withoutEnding pageEnding source)
  let targetStem := Slashed.withoutEnding pageEnding target
  let (up, down) := dropCommon (Slashed.segments sourceDirectory)
    (Slashed.segments (Slashed.directory targetStem))
  route up.length down ++ Slashed.last targetStem ++ pageEnding

/-- The last part of a full class name. -/
def shortName (fullName : String) : String :=
  lastPiece '\\' (dropLeading ['\\'] fullName)

/-- Link to the page that documents a class, or its name as code when no page does. -/
def toClass (pages : List (String × String)) (current fullName : String) : String :=
  match pages.lookup (dropLeading ['\\'] fullName) with
  | some page => "[" ++ shortName fullName ++ "](" ++ between current page ++ ")"
  | none => "`" ++ shortName fullName ++ "`"

end PhpPages.Link
