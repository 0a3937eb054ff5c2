import PhpPages.Yaml.Scalar.Block
import PhpPages.Yaml.Scalar.Plain
import PhpPages.Yaml.Scalar.Quoted
import PhpPages.Yaml.Token

/-!
The tokens of a document. The start of a mapping shows only at the colon behind its first key, so a
place where a key may have started is remembered until its line ends, and tokens are put in there
later.
-/

namespace PhpPages.Yaml

/-- A place where a key may have started: the number of tokens before it and where it stands. A key
is required when nothing else can stand there. -/
structure PendingKey where
  level : Nat
  tokens : Nat
  required : Bool
  index : Nat
  line : Nat
  column : Nat

/-- The state of reading tokens. `flow` counts open brackets; `indent` is the column of the block
collection being read, -1 outside all of them. -/
structure Lexer where
  spot : Spot
  flow : Nat := 0
  indent : Int := -1
  indents : List Int := []
  keyAllowed : Bool := true
  keys : List PendingKey := []
  tokens : Array Token := #[]

namespace Lexer

/-- How far the colon may be from the start of its key. -/
def keyLength : Nat := 1024

def push (l : Lexer) (t : Token) : Lexer :=
  { l with tokens := l.tokens.push t }

def inFlow (l : Lexer) : Bool := l.flow > 0

/-- Passes blanks, comments and line breaks. Behind a line break a key is allowed. -/
def skipGaps : Nat → Lexer → Lexer
  | 0, l => l
  | fuel + 1, l =>
    let s := l.spot.skipComment
    if isBreak s.peek then
      skipGaps fuel { l with spot := s.lineBreak.2, keyAllowed := l.keyAllowed || !l.inFlow }
    else { l with spot := s }

/-- Passes a byte order mark at the start, then gaps. -/
def skipToToken (l : Lexer) : Lexer :=
  let l :=
    if l.spot.index == 0 && l.spot.peek == '\ufeff' then { l with spot := l.spot.next } else l
  skipGaps (l.spot.rest.length + 1) l

def isStale (l : Lexer) (k : PendingKey) : Bool :=
  k.line != l.spot.line || l.spot.index - k.index > keyLength

/-- Forgets keys whose colon can no longer follow. -/
def dropStaleKeys (l : Lexer) : Except Failure Lexer :=
  if l.keys.any fun k => l.isStale k && k.required then .error .malformed
  else .ok { l with keys := l.keys.filter fun k => !l.isStale k }

/-- Forgets the key of the current level. -/
def dropKey (l : Lexer) : Except Failure Lexer :=
  if l.keys.any fun k => k.level == l.flow && k.required then .error .malformed
  else .ok { l with keys := l.keys.filter (·.level != l.flow) }

/-- Remembers that a key may start here. -/
def saveKey (l : Lexer) : Except Failure Lexer :=
  if l.keyAllowed then do
    let l ← l.dropKey
    let required := !l.inFlow && l.indent == (l.spot.column : Int)
    let key : PendingKey :=
      ⟨l.flow, l.tokens.size, required, l.spot.index, l.spot.line, l.spot.column⟩
    return { l with keys := key :: l.keys }
  else .ok l

/-- Ends the block collections that are indented more than the given column. -/
def unwind (column : Int) : List Int → Lexer → Lexer
  | [], l => l
  | outer :: rest, l =>
    if l.indent > column then
      unwind column rest { l.push .blockEnd with indent := outer, indents := rest }
    else l

def unwindTo (l : Lexer) (column : Int) : Lexer :=
  if l.inFlow then l else unwind column l.indents l

/-- Starts a block collection if the column is deeper than the current one. Its token goes behind
the given number of tokens. -/
def openBlock (l : Lexer) (column : Nat) (place : Nat) (t : Token) : Lexer :=
  if !l.inFlow && l.indent < (column : Int) then
    { l with
      indents := l.indent :: l.indents
      indent := column
      tokens := l.tokens.insertIdxIfInBounds place t }
  else l

def openBlockHere (l : Lexer) (t : Token) : Lexer :=
  l.openBlock l.spot.column l.tokens.size t

def finish (l : Lexer) : Except Failure Lexer := do
  let l ← (l.unwindTo (-1)).dropKey
  return l.push .streamEnd

def directive (l : Lexer) : Except Failure Lexer := do
  let l ← (l.unwindTo (-1)).dropKey
  let (t, s) ← Token.readDirective l.spot
  return { l.push t with spot := s, keyAllowed := false }

def documentMark (l : Lexer) (t : Token) : Except Failure Lexer := do
  let l ← (l.unwindTo (-1)).dropKey
  return { l.push t with spot := l.spot.skip 3, keyAllowed := false }

def flowStart (l : Lexer) (t : Token) : Except Failure Lexer := do
  let l ← l.saveKey
  return { l.push t with flow := l.flow + 1, keyAllowed := true, spot := l.spot.next }

def flowEnd (l : Lexer) (t : Token) : Except Failure Lexer := do
  let l ← l.dropKey
  return { l.push t with flow := l.flow - 1, keyAllowed := false, spot := l.spot.next }

def flowEntry (l : Lexer) : Except Failure Lexer := do
  let l ← l.dropKey
  return { l.push .flowEntry with keyAllowed := true, spot := l.spot.next }

def blockEntry (l : Lexer) : Except Failure Lexer := do
  if !l.inFlow && !l.keyAllowed then throw .malformed
  let l ← (l.openBlockHere .blockSequenceStart).dropKey
  return { l.push .blockEntry with keyAllowed := true, spot := l.spot.next }

def explicitKey (l : Lexer) : Except Failure Lexer := do
  if !l.inFlow && !l.keyAllowed then throw .malformed
  let l ← (l.openBlockHere .blockMappingStart).dropKey
  return { l.push .key with keyAllowed := !l.inFlow, spot := l.spot.next }

/-- A colon. If a key may have started on this level, the key starts there. -/
def value (l : Lexer) : Except Failure Lexer := do
  match l.keys.find? (·.level == l.flow) with
  | some k =>
    let l := { l with
      keys := l.keys.filter (·.level != l.flow)
      tokens := l.tokens.insertIdxIfInBounds k.tokens .key
      keyAllowed := false }
    let l := l.openBlock k.column k.tokens .blockMappingStart
    return { l.push .value with spot := l.spot.next }
  | none =>
    if !l.inFlow && !l.keyAllowed then throw .malformed
    let l ← (l.openBlockHere .blockMappingStart).dropKey
    return { l.push .value with keyAllowed := !l.inFlow, spot := l.spot.next }

/-- A token that may start a key, read by the given function. -/
def keyed (l : Lexer) (read : Spot → Except Failure (Token × Spot)) : Except Failure Lexer := do
  let l ← l.saveKey
  let (t, s) ← read l.spot
  return { l.push t with spot := s, keyAllowed := false }

def plainScalar (l : Lexer) : Except Failure Lexer := do
  let l ← l.saveKey
  let (text, s, ended) := Plain.read l.inFlow (l.indent + 1) l.spot
  return { l.push (.scalar text true) with spot := s, keyAllowed := ended }

def blockScalar (l : Lexer) (folded : Bool) : Except Failure Lexer := do
  let l ← l.dropKey
  let (text, s) ← Block.read folded l.indent l.spot
  return { l.push (.scalar text false) with spot := s, keyAllowed := true }

/-- Whether a plain scalar can start with a character, given the one after it. -/
def startsPlain (l : Lexer) (c next : Char) : Bool :=
  !(isGap c || isFlowMark c ||
      ['-', '?', ':', '#', '&', '*', '!', '|', '>', '\'', '"', '%', '@', Char.ofNat 96].contains
        c) ||
    (!isGap next && (c == '-' || (!l.inFlow && (c == '?' || c == ':'))))

/-- Reads the token at the current place. -/
def readToken (l : Lexer) : Except Failure Lexer :=
  let s := l.spot
  let c := s.peek
  let next := s.peekAt 1
  let atStart := s.column == 0
  if c == '%' && atStart then l.directive
  else if atStart && s.isMarker '-' then l.documentMark .documentStart
  else if atStart && s.isMarker '.' then l.documentMark .documentEnd
  else if c == '[' then l.flowStart .flowSequenceStart
  else if c == '{' then l.flowStart .flowMappingStart
  else if c == ']' then l.flowEnd .flowSequenceEnd
  else if c == '}' then l.flowEnd .flowMappingEnd
  else if c == ',' then l.flowEntry
  else if c == '-' && isGap next then l.blockEntry
  else if c == '?' && (l.inFlow || isGap next) then l.explicitKey
  else if c == ':' && (l.inFlow || isGap next) then l.value
  else if c == '*' then l.keyed fun s => (Token.readAnchor s).map fun r => (.reference r.1, r.2)
  else if c == '&' then l.keyed fun s => (Token.readAnchor s).map fun r => (.anchor r.1, r.2)
  else if c == '!' then l.keyed fun s => (Token.readTag s).map fun r => (.tag r.1, r.2)
  else if c == '|' && !l.inFlow then l.blockScalar false
  else if c == '>' && !l.inFlow then l.blockScalar true
  else if c == '\'' then l.keyed fun s =>
    (Quoted.read false s).map fun r => (.scalar r.1 false, r.2)
  else if c == '"' then l.keyed fun s => (Quoted.read true s).map fun r => (.scalar r.1 false, r.2)
  else if l.startsPlain c next then l.plainScalar
  else .error .malformed

/-- Reads tokens to the end of the text or the first failure. -/
def run : Nat → Lexer → Lexer × Option Failure
  | 0, l => (l, some .malformed)
  | fuel + 1, l =>
    match l.skipToToken.dropStaleKeys with
    | .error e => (l, some e)
    | .ok l =>
      let l := l.unwindTo l.spot.column
      if l.spot.rest.isEmpty then
        match l.finish with
        | .ok l => (l, none)
        | .error e => (l, some e)
      else
        match l.readToken with
        | .ok l => run fuel l
        | .error e => (l, some e)

end Lexer

/-- The tokens of a text up to its end or to a failure. -/
def tokens (text : List Char) : List Token × Option Failure :=
  let (l, failure) := Lexer.run (text.length + 2) { spot := { rest := text } }
  (l.tokens.toList, failure)

end PhpPages.Yaml
