import PhpPages.Yaml.Spot

namespace PhpPages.Yaml.Block

/-- What happens to line breaks at the end: they are kept, one is, or none is. -/
inductive Chomping where
  | keep
  | clip
  | strip
  deriving DecidableEq

structure Header where
  chomping : Chomping := .clip
  increment : Option Nat := none

def chompingMark? (c : Char) : Option Chomping :=
  if c == '+' then some .keep else if c == '-' then some .strip else none

/-- The digit of an indentation, which must not be zero. -/
def digit? (s : Spot) : Except Failure (Option Nat × Spot) :=
  if s.peek == '0' then .error .malformed
  else if s.peek.isDigit then .ok (some (s.peek.toNat - '0'.toNat), s.next)
  else .ok (none, s)

/-- Reads the marks behind the bar or bracket, in either order. -/
def header (s : Spot) : Except Failure (Header × Spot) := do
  let (h, s) ← match chompingMark? s.peek with
    | some chomping => do
      let (increment, s) ← digit? s.next
      pure (⟨chomping, increment⟩, s)
    | none => do
      let (increment, s) ← digit? s
      match increment, chompingMark? s.peek with
      | some _, some chomping => pure (⟨chomping, increment⟩, s.next)
      | _, _ => pure (⟨.clip, increment⟩, s)
  if isBlankOrEnd s.peek then return (h, s) else throw .malformed

/-- Passes empty lines at the start. Gives their breaks and the deepest column reached. -/
def leading : Nat → Nat → Spot → List Char × Nat × Spot
  | 0, deepest, s => ([], deepest, s)
  | fuel + 1, deepest, s =>
    if s.peek == ' ' then leading fuel (max deepest s.next.column) s.next
    else if isBreak s.peek then
      let (br, s) := s.lineBreak
      let (more, deepest, s) := leading fuel deepest s
      (br ++ more, deepest, s)
    else ([], deepest, s)

def skipIndent (indent : Nat) : Nat → Spot → Spot
  | 0, s => s
  | fuel + 1, s => if s.column < indent && s.peek == ' ' then skipIndent indent fuel s.next else s

/-- Passes empty lines and the indentation of the next line. -/
def breaks (indent : Nat) : Nat → Spot → List Char × Spot
  | 0, s => ([], s)
  | fuel + 1, s =>
    let s := skipIndent indent indent s
    if isBreak s.peek then
      let (br, s) := s.lineBreak
      let (more, s) := breaks indent fuel s
      (br ++ more, s)
    else ([], s)

/-- Reads the lines of the scalar. `before` are the breaks in front of the next line; the result
also has the break behind the last line and the breaks after it. -/
def lines (folded : Bool) (indent : Nat) :
    Nat → List Char → Spot → List Char × List Char × List Char × Spot
  | 0, before, s => ([], [], before, s)
  | fuel + 1, before, s =>
    if s.column = indent && s.peek != endChar then
      let isText (c : Char) : Bool := c != ' ' && c != '\t'
      let (text, afterText) := s.takeWhile (!isBreakOrEnd ·)
      let (br, afterBreak) := afterText.lineBreak
      let (after, next) := breaks indent (afterBreak.rest.length + 1) afterBreak
      if next.column = indent && next.peek != endChar then
        let joint :=
          if folded && br == ['\n'] && isText s.peek && isText next.peek then
            if after.isEmpty then [' '] else []
          else br
        let (more, last, tail, s) := lines folded indent fuel after next
        (before ++ text ++ joint ++ more, last, tail, s)
      else (before ++ text, br, after, next)
    else ([], [], before, s)

/-- Reads a block scalar from its bar or bracket on, inside a collection with the
given indentation. -/
def read (folded : Bool) (indent : Int) (s : Spot) : Except Failure (String × Spot) := do
  let (h, s) ← header s.next
  let s ← s.finishLine
  let least := (max 1 (indent + 1)).toNat
  let (before, depth, s) := match h.increment with
    | none =>
      let (before, deepest, s) := leading (s.rest.length + 1) 0 s
      (before, max least deepest, s)
    | some increment =>
      let depth := least + increment - 1
      let (before, s) := breaks depth (s.rest.length + 1) s
      (before, depth, s)
  let (text, last, tail, s) := lines folded depth (s.rest.length + 1) before s
  let ending := match h.chomping with
    | .strip => []
    | .clip => last
    | .keep => last ++ tail
  return (String.ofList (text ++ ending), s)

end PhpPages.Yaml.Block
