import PhpPages.Text.Blank
import PhpPages.Text.Pieces
import PhpPages.Text.Word

namespace PhpPages.Docblock

open Text

/-- Takes `/**` off the front and then `*/` off the end. -/
def withoutDelimiters (cs : List Char) : List Char :=
  let inner := match cs with
    | '/' :: '*' :: '*' :: rest => rest
    | _ => cs
  if ['*', '/'].isSuffixOf inner then inner.dropLast.dropLast else inner

/-- Takes the star off the front of a line, with the white space before it and one
blank after it. -/
def withoutStar (line : List Char) : List Char :=
  match line.dropWhile isBlank with
  | '*' :: rest =>
    match rest with
    | c :: after => if isBlank c then after else rest
    | [] => []
  | _ => line

/-- Whether a line starts with a tag. A sign inside prose, as in an address, starts none. -/
def isTagLine (line : List Char) : Bool :=
  match line.dropWhile fun c => c == ' ' || c == '\t' with
  | '@' :: c :: _ => isWord c
  | _ => false

/-- Shortens each run of more than two line feeds to two. `run` is how many have
just been passed. -/
def shortenRuns (run : Nat) : List Char → List Char
  | [] => []
  | c :: rest =>
    if c = '\n' then
      if run < 2 then c :: shortenRuns (run + 1) rest else shortenRuns run rest
    else c :: shortenRuns 0 rest

def proseChars (cs : List Char) : List Char :=
  let lines := ((withoutDelimiters (trimChars cs)).splitOn '\n').map withoutStar
  let kept := lines.map fun line => if isTagLine line then [] else line
  trimChars (shortenRuns 0 (List.intercalate ['\n'] kept))

/-- The prose of a doc comment: without markers, with tag lines left empty. -/
def prose (doc : Option String) : String :=
  match doc with
  | none => ""
  | some text => String.ofList (proseChars text.toList)

/-- What follows the first occurrence of `tag` after which `read` succeeds. -/
def firstAfter (tag : List Char) (read : List Char → Option (List Char)) :
    List Char → Option (List Char)
  | [] => none
  | c :: rest =>
    if tag.isPrefixOf (c :: rest) then
      match read ((c :: rest).drop tag.length) with
      | some found => some found
      | none => firstAfter tag read rest
    else firstAfter tag read rest

/-- Skips the longest run of characters of a class, which must not be empty. -/
def skipSome (p : Char → Bool) (cs : List Char) : Option (List Char) :=
  match cs with
  | [] => none
  | c :: _ => if p c then some (cs.dropWhile p) else none

/-- The characters of a type in a parameter tag. -/
def isTypeChar (c : Char) : Bool :=
  isWord c || ['\\', '|', '?', '<', '>', ',', '[', ']'].contains c

def isIndent (c : Char) : Bool :=
  c == ' ' || c == '\t'

/-- The description behind the name of a parameter: the rest of the line, which must be
apart from the name. Of a line with nothing but blanks, one blank is the separator and
another the description. -/
def descriptionAfterName (cs : List Char) : Option (List Char) :=
  let blanks := cs.takeWhile isIndent
  let text := (cs.dropWhile isIndent).takeWhile (· ≠ '\n')
  if blanks.isEmpty then none
  else if text.isEmpty then (if blanks.length ≥ 2 then some [] else none)
  else some (trimChars text)

/-- Reads what follows `@param`: a type, the parameter and its description. -/
def readParam (name : List Char) (cs : List Char) : Option (List Char) := do
  let atType ← skipSome isBlank cs
  let afterType ← skipSome isTypeChar atType
  let atName ← skipSome isBlank afterType
  if ('$' :: name).isPrefixOf atName then descriptionAfterName (atName.drop (name.length + 1))
  else none

/-- The description that the doc comment gives a parameter, empty when it gives none. -/
def paramDescription (doc : Option String) (name : String) : String :=
  match doc with
  | none => ""
  | some text =>
    String.ofList ((firstAfter "@param".toList (readParam name.toList) text.toList).getD [])

/-- A character of a type outside angle brackets. -/
def isReturnChar (c : Char) : Bool :=
  !isBlank c && c != '<'

/-- Skips the type of a return tag: words, each with an argument list in angle brackets at most, of
which all but the last are followed by a bar. -/
def skipReturnType (fuel : Nat) (cs : List Char) : Option (List Char) :=
  match fuel with
  | 0 => none
  | fuel + 1 => do
    let rest ← skipSome isReturnChar cs
    match rest with
    | '<' :: arguments =>
      let close ← skipSome (· ≠ '>') arguments
      match close with
      | '>' :: '|' :: next => skipReturnType fuel next
      | '>' :: after => some after
      | _ => none
    | _ => some rest

/-- The description behind the type of a return tag. It ends at a line feed or a star. When
only white space stands there, it is empty, and there is one if more than one character of it
can be spared. -/
def descriptionAfterType (cs : List Char) : Option (List Char) :=
  let space := cs.takeWhile isBlank
  let text := (cs.dropWhile isBlank).takeWhile fun c => c ≠ '\n' && c ≠ '*'
  if space.isEmpty then none
  else if text.isEmpty then (if (space.drop 1).any (· ≠ '\n') then some [] else none)
  else some (trimChars text)

/-- Reads what follows `@return`: a type and its description. -/
def readReturn (cs : List Char) : Option (List Char) := do
  let atType ← skipSome isBlank cs
  let afterType ← skipReturnType (atType.length + 1) atType
  descriptionAfterType afterType

/-- The description that the doc comment gives the returned value, empty when it gives none. -/
def returnDescription (doc : Option String) : String :=
  match doc with
  | none => ""
  | some text => String.ofList ((firstAfter "@return".toList readReturn text.toList).getD [])

end PhpPages.Docblock
