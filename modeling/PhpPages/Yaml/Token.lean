import PhpPages.Yaml.Spot

namespace PhpPages.Yaml

/-- A tag as it is written: behind a handle, or in full. -/
structure WrittenTag where
  handle : Option String
  suffix : String

inductive Token where
  | version (major : Nat)
  | tagHandle (handle start : String)
  | unknownDirective
  | documentStart
  | documentEnd
  | blockSequenceStart
  | blockMappingStart
  | blockEnd
  | flowSequenceStart
  | flowSequenceEnd
  | flowMappingStart
  | flowMappingEnd
  | flowEntry
  | blockEntry
  | key
  | value
  | reference (name : String)
  | anchor (name : String)
  | tag (t : WrittenTag)
  | scalar (text : String) (plain : Bool)
  | streamEnd

namespace Token

/-- Reads a name, which must not be empty. -/
def readName (s : Spot) : Except Failure (String × Spot) :=
  match s.takeWhile isNameChar with
  | ([], _) => .error .malformed
  | (name, after) => .ok (String.ofList name, after)

/-- Reads the name of an anchor or alias behind its mark. -/
def readAnchor (s : Spot) : Except Failure (String × Spot) := do
  let (name, s) ← readName s.next
  if isGap s.peek || ['?', ':', ',', ']', '}', '%', '@', Char.ofNat 96].contains s.peek then
    return (name, s)
  else throw .malformed

def isUriChar (c : Char) : Bool :=
  c.isAlphanum || "-;/?:@&=+$,_.!~*'()[]%".toList.contains c

def isHex (c : Char) : Bool :=
  c.isDigit || ('a' ≤ c && c ≤ 'f') || ('A' ≤ c && c ≤ 'F')

def hexByte (a b : Char) : UInt8 :=
  let digit (c : Char) : Nat :=
    if c.isDigit then c.toNat - '0'.toNat else c.toLower.toNat - 'a'.toNat + 10
  UInt8.ofNat (16 * digit a + digit b)

/-- The bytes of a run of percent escapes at the front, and what follows them. -/
def percentBytes : List Char → Except Failure (List UInt8 × List Char)
  | '%' :: a :: b :: rest =>
    if isHex a && isHex b then do
      let (bytes, rest) ← percentBytes rest
      return (hexByte a b :: bytes, rest)
    else .error .malformed
  | '%' :: _ => .error .malformed
  | rest => .ok ([], rest)

/-- Replaces percent escapes, which must spell characters. -/
def decodeUri : Nat → List Char → Except Failure (List Char)
  | 0, _ => .error .malformed
  | _ + 1, [] => .ok []
  | fuel + 1, c :: rest =>
    if c == '%' then do
      let (bytes, rest) ← percentBytes (c :: rest)
      match String.fromUTF8? ⟨bytes.toArray⟩ with
      | some text => return text.toList ++ (← decodeUri fuel rest)
      | none => throw .malformed
    else return c :: (← decodeUri fuel rest)

/-- Reads the text of a tag, which must not be empty. -/
def readUri (s : Spot) : Except Failure (String × Spot) := do
  match s.takeWhile isUriChar with
  | ([], _) => throw .malformed
  | (written, after) => return (String.ofList (← decodeUri (written.length + 1) written), after)

/-- Reads a handle: an exclamation mark, alone or with a name and another mark behind it. -/
def readHandle (s : Spot) : Except Failure (String × Spot) :=
  if s.peek != '!' then .error .malformed
  else if s.peekAt 1 == ' ' then .ok ("!", s.next)
  else
    let (name, after) := s.next.takeWhile isNameChar
    if after.peek == '!' then .ok (String.ofList ('!' :: name ++ ['!']), after.next)
    else .error .malformed

/-- Whether another exclamation mark follows before the next blank. -/
def hasHandle (s : Spot) : Bool :=
  (s.next.rest.takeWhile (!isBlankOrEnd ·)).contains '!'

/-- Reads a tag from its exclamation mark on. -/
def readTag (s : Spot) : Except Failure (WrittenTag × Spot) := do
  let (written, s) ← readParts s
  if isBlankOrEnd s.peek then return (written, s) else throw .malformed
where
  readParts (s : Spot) : Except Failure (WrittenTag × Spot) := do
    if s.peekAt 1 == '<' then
      let (suffix, s) ← readUri (s.skip 2)
      if s.peek == '>' then return (⟨none, suffix⟩, s.next) else throw .malformed
    else if isGap (s.peekAt 1) then return (⟨none, "!"⟩, s.next)
    else
      let (handle, s) ← if hasHandle s then readHandle s else pure ("!", s.next)
      let (suffix, s) ← readUri s
      return (⟨some handle, suffix⟩, s)

/-- Reads a number of a version. -/
def readNumber (s : Spot) : Except Failure (Nat × Spot) :=
  match s.takeWhile Char.isDigit with
  | ([], _) => .error .malformed
  | (digits, after) => .ok (digits.foldl (fun n c => 10 * n + (c.toNat - '0'.toNat)) 0, after)

def readVersion (s : Spot) : Except Failure (Token × Spot) := do
  let (major, s) ← readNumber (s.dropWhile (· == ' '))
  if s.peek != '.' then throw .malformed
  let (_, s) ← readNumber s.next
  if isBlankOrEnd s.peek then return (.version major, s) else throw .malformed

def readTagHandle (s : Spot) : Except Failure (Token × Spot) := do
  let (handle, s) ← readHandle (s.dropWhile (· == ' '))
  if s.peek != ' ' then throw .malformed
  let (start, s) ← readUri (s.dropWhile (· == ' '))
  if isBlankOrEnd s.peek then return (.tagHandle handle start, s) else throw .malformed

/-- Reads a directive from its percent sign on to the end of its line. -/
def readDirective (s : Spot) : Except Failure (Token × Spot) := do
  let (name, s) ← readName s.next
  if !isBlankOrEnd s.peek then throw .malformed
  let (token, s) ←
    if name = "YAML" then readVersion s
    else if name = "TAG" then readTagHandle s
    else pure (.unknownDirective, s.dropWhile (!isBreakOrEnd ·))
  return (token, ← s.finishLine)

end Token

end PhpPages.Yaml
