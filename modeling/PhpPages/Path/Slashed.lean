import PhpPages.Text.Blank
import PhpPages.Text.Pieces

namespace PhpPages.Slashed

open Text

def directoryChars (cs : List Char) : List Char :=
  let head := dropEndWhile (· ≠ '/') cs
  if head.all (· = '/') then head else dropEndWhile (· = '/') head

/-- The text before the last slash. Slashes at its end are dropped unless there is nothing else. -/
def directory (s : String) : String :=
  String.ofList (directoryChars s.toList)

/-- The text behind the last slash. -/
def last (s : String) : String :=
  lastPiece '/' s

/-- The text before the last dot of the last segment. Dots at the front of the segment
do not count. -/
def stem (s : String) : String :=
  if ((last s).toList.dropWhile (· = '.')).contains '.' then
    String.ofList (dropEndWhile (· ≠ '.') s.toList).dropLast
  else s

/-- The segments of a text, none for the empty text. Unlike those of a path, they are
kept as they are. -/
def segments (s : String) : List String :=
  if s.isEmpty then [] else pieces '/' s

/-- Takes an ending off a text that has it. -/
def withoutEnding (ending s : String) : String :=
  if ending.toList.isSuffixOf s.toList then String.ofList (s.toList.take (s.length - ending.length))
  else s

end PhpPages.Slashed
