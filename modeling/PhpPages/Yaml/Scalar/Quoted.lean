import PhpPages.Yaml.Spot

namespace PhpPages.Yaml.Quoted

/-- Characters that are escaped by a letter or a mark. -/
def escapes : List (Char × Char) :=
  [('0', '\x00'), ('a', '\x07'), ('b', '\x08'), ('t', '\t'), ('\t', '\t'), ('n', '\n'),
    ('v', '\x0b'), ('f', '\x0c'), ('r', '\x0d'), ('e', '\x1b'), (' ', ' '), ('"', '"'),
    ('\\', '\\'), ('/', '/'), ('N', '\u0085'), ('_', '\u00a0'), ('L', '\u2028'), ('P', '\u2029')]

/-- How many digits follow a letter that starts a character code. -/
def codeLengths : List (Char × Nat) := [('x', 2), ('u', 4), ('U', 8)]

def isHexDigit (c : Char) : Bool :=
  c.isDigit || ('a' ≤ c && c ≤ 'f') || ('A' ≤ c && c ≤ 'F')

def hexValue (c : Char) : Nat :=
  if c.isDigit then c.toNat - '0'.toNat
  else if 'a' ≤ c then c.toNat - 'a'.toNat + 10
  else c.toNat - 'A'.toNat + 10

def hexNumber (digits : List Char) : Nat :=
  digits.foldl (fun n c => 16 * n + hexValue c) 0

/-- A code of two halves: the second half of a character outside the basic plane
follows the first. -/
def secondHalf? (s : Spot) : Option Nat :=
  match s.rest with
  | '\\' :: 'u' :: digits =>
    let code := hexNumber (digits.take 4)
    if (digits.take 4).length = 4 && (digits.take 4).all
      isHexDigit && 0xdc00 ≤ code && code ≤ 0xdfff then
      some code
    else none
  | _ => none

/-- The character of a code, and the place behind it. Two codes that are the halves of one character
are put together; a half alone stands for no character. -/
def codeChar (code : Nat) (s : Spot) : Except Failure (Char × Spot) :=
  if code > 0x7fffffff then .error .hugeCharacter
  else if code > 0x10ffff then .error .badCharacter
  else if 0xd800 ≤ code && code ≤ 0xdbff then
    match secondHalf? s with
    | some second =>
      .ok (Char.ofNat (0x10000 + (code - 0xd800) * 0x400 + (second - 0xdc00)), s.skip 6)
    | none => .ok ('\ufffd', s)
  else if 0xdc00 ≤ code && code ≤ 0xdfff then .ok ('\ufffd', s)
  else .ok (Char.ofNat code, s)

/-- Line breaks with blanks around them. A line that separates documents must not stand here. -/
def breaks : Nat → Spot → Except Failure (List Char × Spot)
  | 0, s => .ok ([], s)
  | fuel + 1, s =>
    if s.isSeparator then .error .malformed
    else
      let s := s.dropWhile fun c => c == ' ' || c == '\t'
      if isBreak s.peek then do
        let (br, s) := s.lineBreak
        let (more, s) ← breaks fuel s
        return (br ++ more, s)
      else .ok ([], s)

def breaksFrom (s : Spot) : Except Failure (List Char × Spot) :=
  breaks (s.rest.length + 1) s

/-- Reads what follows a backslash in double quotes. -/
def escape (s : Spot) : Except Failure (List Char × Spot) :=
  match escapes.lookup s.peek with
  | some c => .ok ([c], s.next)
  | none =>
    match codeLengths.lookup s.peek with
    | some length => do
      let digits := s.next.rest.take length
      if digits.length = length && digits.all isHexDigit then
        let (c, s) ← codeChar (hexNumber digits) (s.next.skip length)
        return ([c], s)
      else .error .malformed
    | none => if isBreak s.peek then breaksFrom s.lineBreak.2 else .error .malformed

/-- Reads text up to a gap or the closing quote. -/
def solid (double : Bool) : Nat → Spot → Except Failure (List Char × Spot)
  | 0, s => .ok ([], s)
  | fuel + 1, s =>
    let c := s.peek
    if isGap c then .ok ([], s)
    else if !double && c == '\'' && s.peekAt 1 == '\'' then
      keep ['\''] (solid double fuel (s.skip 2))
    else if c == (if double then '"' else '\'') then .ok ([], s)
    else if double && c == '\\' then do
      let (text, s) ← escape s.next
      keep text (solid double fuel s)
    else keep [c] (solid double fuel s.next)
where
  keep (text : List Char) (more : Except Failure (List Char × Spot)) :
      Except Failure (List Char × Spot) :=
    more.map fun r => (text ++ r.1, r.2)

/-- Reads blanks, or a line break with everything blank around it, which is folded. -/
def gap (s : Spot) : Except Failure (List Char × Spot) :=
  let (blanks, s) := s.takeWhile fun c => c == ' ' || c == '\t'
  if s.peek == endChar then .error .malformed
  else if isBreak s.peek then do
    let (br, s) := s.lineBreak
    let (more, s) ← breaksFrom s
    let first := if br != ['\n'] then br else if more.isEmpty then [' '] else []
    return (first ++ more, s)
  else .ok (blanks, s)

/-- Reads text and gaps up to the closing quote. -/
def body (double : Bool) : Nat → Spot → Except Failure (List Char × Spot)
  | 0, _ => .error .malformed
  | fuel + 1, s => do
    let (text, s) ← solid double (s.rest.length + 1) s
    if s.peek == (if double then '"' else '\'') then return (text, s.next)
    let (between, s) ← gap s
    let (more, s) ← body double fuel s
    return (text ++ between ++ more, s)

/-- Reads a scalar from its opening quote on. -/
def read (double : Bool) (s : Spot) : Except Failure (String × Spot) := do
  let (text, after) ← body double (s.rest.length + 1) s.next
  return (String.ofList text, after)

end PhpPages.Yaml.Quoted
