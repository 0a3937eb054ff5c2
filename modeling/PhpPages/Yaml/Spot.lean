import PhpPages.Yaml.Value

namespace PhpPages.Yaml

/-- What the end of a text reads as. No text contains it. -/
def endChar : Char := '\x00'

/-- Line feed, next line, line separator and paragraph separator. -/
def isBreak (c : Char) : Bool :=
  c == '\n' || c == '\u0085' || c == '\u2028' || c == '\u2029'

def isBreakOrEnd (c : Char) : Bool :=
  c == endChar || isBreak c

/-- Whether a character ends a word: a blank, a tab, a line break or the end. -/
def isGap (c : Char) : Bool :=
  c == ' ' || c == '\t' || isBreakOrEnd c

/-- Blank, line break or end, but no tab. -/
def isBlankOrEnd (c : Char) : Bool :=
  c == ' ' || isBreakOrEnd c

/-- The characters of names: of anchors, handles and directives. -/
def isNameChar (c : Char) : Bool :=
  c.isAlphanum || c == '-' || c == '_'

def isFlowMark (c : Char) : Bool :=
  [',', '[', ']', '{', '}'].contains c

/-- Characters that a document may contain. -/
def isAllowed (c : Char) : Bool :=
  let n := c.toNat
  n == 9 || n == 10 || n == 13 || (0x20 ≤ n && n ≤ 0x7e) || n == 0x85 ||
    (0xa0 ≤ n && n ≤ 0xfffd) || 0x10000 ≤ n

/-- A place in a text: what lies ahead, and how far it is from the start and from the
start of the line. -/
structure Spot where
  rest : List Char
  index : Nat := 0
  line : Nat := 0
  column : Nat := 0

namespace Spot

def peekAt (s : Spot) (n : Nat) : Char :=
  s.rest.getD n endChar

def peek (s : Spot) : Char :=
  s.peekAt 0

/-- The place behind the next character. A byte order mark has no width. -/
def next (s : Spot) : Spot :=
  match s.rest with
  | [] => s
  | c :: rest =>
    if isBreak c then ⟨rest, s.index + 1, s.line + 1, 0⟩
    else ⟨rest, s.index + 1, s.line, if c == '\ufeff' then s.column else s.column + 1⟩

def skip (s : Spot) : Nat → Spot
  | 0 => s
  | n + 1 => s.next.skip n

/-- The longest run of characters of a class, and the place behind it. -/
def takeWhile (p : Char → Bool) (s : Spot) : List Char × Spot :=
  let run := s.rest.takeWhile p
  (run, s.skip run.length)

def dropWhile (p : Char → Bool) (s : Spot) : Spot :=
  (s.takeWhile p).2

/-- Passes a line break, if there is one. A separator of lines or paragraphs stays what it is, any
other break is a line feed. -/
def lineBreak (s : Spot) : List Char × Spot :=
  let c := s.peek
  if c == '\n' || c == '\u0085' then (['\n'], s.next)
  else if isBreak c then ([c], s.next)
  else ([], s)

/-- Passes blanks and a comment, up to the end of the line. -/
def skipComment (s : Spot) : Spot :=
  let s := s.dropWhile (· == ' ')
  if s.peek == '#' then s.dropWhile (!isBreakOrEnd ·) else s

/-- Passes the rest of a line on which nothing but a comment may follow. -/
def finishLine (s : Spot) : Except Failure Spot :=
  let s := s.skipComment
  if isBreakOrEnd s.peek then .ok s.lineBreak.2 else .error .malformed

/-- Whether the next three characters are the given one and end a word. -/
def isMarker (s : Spot) (c : Char) : Bool :=
  s.rest.take 3 == [c, c, c] && isGap (s.peekAt 3)

/-- Whether a line starts here that separates documents. -/
def isSeparator (s : Spot) : Bool :=
  s.isMarker '-' || s.isMarker '.'

end Spot

end PhpPages.Yaml
