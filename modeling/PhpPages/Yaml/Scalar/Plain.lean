import PhpPages.Yaml.Spot

namespace PhpPages.Yaml.Plain

/-- Whether the scalar ends at a character, given the one after it. -/
def stopsAt (flow : Bool) (c next : Char) : Bool :=
  isGap c || (c == ':' && (isGap next || (flow && isFlowMark next))) ||
    (flow && (isFlowMark c || c == '?'))

/-- The longest part of the text without a gap that belongs to the scalar. -/
def run (flow : Bool) : List Char → List Char
  | [] => []
  | c :: rest => if stopsAt flow c (rest.headD endChar) then [] else c :: run flow rest

/-- Line breaks and blanks behind a first line break, up to text or a line that
separates documents. -/
def gapLines : Nat → Spot → Option (List Char) × Spot
  | 0, s => (some [], s)
  | fuel + 1, s =>
    if s.peek == ' ' then gapLines fuel s.next
    else if isBreak s.peek then
      let (br, s) := s.lineBreak
      if s.isSeparator then (none, s)
      else
        let (breaks, s) := gapLines fuel s
        (breaks.map (br ++ ·), s)
    else (some [], s)

/-- What stands between two parts of a scalar, the place behind it, and whether a line was ended.
There is nothing between them when documents are separated. -/
def gap (s : Spot) : List Char × Spot × Bool :=
  let (blanks, s) := s.takeWhile (· == ' ')
  if isBreak s.peek then
    let (br, s) := s.lineBreak
    if s.isSeparator then ([], s, true)
    else
      match gapLines (s.rest.length + 1) s with
      | (none, s) => ([], s, true)
      | (some breaks, s) =>
        let first := if br != ['\n'] then br else if breaks.isEmpty then [' '] else []
        (first ++ breaks, s, true)
  else (blanks, s, false)

/-- Reads parts of a scalar. Gives the text, the place behind it and the gap, and whether a line was
ended since the last part. -/
def parts (flow : Bool) (indent : Int) : Nat → List Char → Spot → List Char × Spot × Bool
  | 0, _, s => ([], s, false)
  | fuel + 1, before, s =>
    let text := run flow s.rest
    if s.peek == '#' || text.isEmpty then ([], s, false)
    else
      let (between, after, ended) := gap (s.skip text.length)
      if between.isEmpty || after.peek == '#' || (!flow && (after.column : Int) < indent) then
        (before ++ text, after, ended)
      else
        let (more, last, endedLater) := parts flow indent fuel between after
        (before ++ text ++ more, last, if more.isEmpty then ended else endedLater)

/-- Reads a plain scalar that is indented at least as given. The flag tells whether the line was
ended, so that a key may follow. -/
def read (flow : Bool) (indent : Int) (s : Spot) : String × Spot × Bool :=
  let (text, s, ended) := parts flow indent (s.rest.length + 1) [] s
  (String.ofList text, s, ended)

end PhpPages.Yaml.Plain
