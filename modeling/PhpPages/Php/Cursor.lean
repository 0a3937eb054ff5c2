import PhpPages.Php.Tree

namespace PhpPages.Php

/-- A reading position: the characters left, how many they are, and the row of the first of them. -/
structure Cursor where
  rest : List Char
  left : Nat
  row : Nat

namespace Cursor

def start (cs : List Char) : Cursor :=
  ⟨cs, cs.length, 0⟩

/-- Moves behind characters that were just read. -/
def advance (c : Cursor) (taken rest : List Char) : Cursor :=
  ⟨rest, c.left - taken.length, c.row + taken.count '\n'⟩

/-- The characters between two positions. -/
def upTo (c later : Cursor) : List Char :=
  c.rest.take (c.left - later.left)

end Cursor

/-- White space between tokens, the zero-width characters included. -/
def isGapChar (c : Char) : Bool :=
  let n := c.toNat
  (9 ≤ n && n ≤ 13) || n == 32 || n == 0x85 || n == 0xa0 || n == 0x1680 ||
    (0x2000 ≤ n && n ≤ 0x200b) || n == 0x2028 || n == 0x2029 || n == 0x202f || n == 0x205f ||
    n == 0x2060 || n == 0x3000 || n == 0xfeff

def isNameStart (c : Char) : Bool :=
  c == '_' || c.isAlpha || (128 ≤ c.toNat && !isGapChar c)

def isNamePart (c : Char) : Bool :=
  isNameStart c || c.isDigit

/-- Splits off a word: a name or a keyword. -/
def takeWord (cs : List Char) : Option (List Char × List Char) :=
  match cs with
  | c :: _ =>
    if isNameStart c then some (cs.takeWhile isNamePart, cs.dropWhile isNamePart) else none
  | [] => none

/-- Splits off the rest of a line comment. It ends before a line end and before a closing tag. A
question mark is read together with what follows it, a line end included, so one that ends the file
is not part of a comment. -/
def takeLineComment : List Char → List Char × List Char
  | '?' :: '\n' :: rest => (['?', '\n'], rest)
  | '?' :: '\r' :: '\n' :: rest => (['?', '\r', '\n'], rest)
  | '?' :: c :: rest =>
    if c == '>' || c == '\r' then ([], '?' :: c :: rest)
    else let (taken, rest) := takeLineComment rest; ('?' :: c :: taken, rest)
  | c :: rest =>
    if c == '?' || c == '\n' || c == '\r' then ([], c :: rest)
    else let (taken, rest) := takeLineComment rest; (c :: taken, rest)
  | [] => ([], [])

/-- Splits off the rest of a block comment, its end included. -/
def takeBlockComment : List Char → Option (List Char × List Char)
  | [] => none
  | '*' :: '/' :: rest => some (['*', '/'], rest)
  | c :: rest => (takeBlockComment rest).map fun (taken, rest) => (c :: taken, rest)

/-- Splits off an opening tag: the long form in any case, the echo form, or the bare form. -/
def takeTag : List Char → Option (List Char × List Char)
  | '<' :: '?' :: p :: h :: q :: rest =>
    if p.toLower == 'p' && h.toLower == 'h' && q.toLower == 'p' then
      some (['<', '?', p, h, q], rest)
    else if p == '=' then some (['<', '?', '='], h :: q :: rest)
    else some (['<', '?'], p :: h :: q :: rest)
  | '<' :: '?' :: '=' :: rest => some (['<', '?', '='], rest)
  | '<' :: '?' :: rest => some (['<', '?'], rest)
  | _ => none

/-- Splits off text outside PHP together with the opening tag that ends it, if there is one. -/
def takeText : List Char → List Char × List Char
  | [] => ([], [])
  | c :: rest =>
    match takeTag (c :: rest) with
    | some split => split
    | none => let (taken, rest) := takeText rest; (c :: taken, rest)

/-- What may stand between two tokens: a node kind, the characters read and those left. White
space has no node. -/
def takeExtra (cs : List Char) : Option (Option String × List Char × List Char) :=
  match cs with
  | '/' :: '/' :: rest =>
    let (taken, rest) := takeLineComment rest
    some (some "comment", '/' :: '/' :: taken, rest)
  | '/' :: '*' :: rest =>
    (takeBlockComment rest).map fun (taken, rest) => (some "comment", '/' :: '*' :: taken, rest)
  | '#' :: '[' :: _ => none
  | '#' :: '?' :: rest => some (some "comment", ['#'], '?' :: rest)
  | '#' :: rest =>
    let (taken, rest) := takeLineComment rest
    some (some "comment", '#' :: taken, rest)
  | '?' :: '>' :: rest =>
    let (taken, rest) := takeText rest
    some (some "text_interpolation", '?' :: '>' :: taken, rest)
  | c :: rest =>
    if isGapChar c then some (none, c :: rest.takeWhile isGapChar, rest.dropWhile isGapChar)
    else none
  | [] => none

/-- Skips the gap before a token and returns its nodes. -/
def skipGap : Nat → Cursor → List Tree × Cursor
  | 0, c => ([], c)
  | fuel + 1, c =>
    match takeExtra c.rest with
    | none => ([], c)
    | some (none, taken, rest) => skipGap fuel (c.advance taken rest)
    | some (some kind, taken, rest) =>
      let (trees, later) := skipGap fuel (c.advance taken rest)
      ({ kind := kind, text := some (String.ofList taken), row := c.row } :: trees, later)

/-- Skips the gap at a position. Every step reads a character, so the characters left
bound the steps. -/
def Cursor.gap (c : Cursor) : List Tree × Cursor :=
  skipGap c.left c

/-- Operators and punctuation of more than one character, longer ones first. -/
def longOperators : List String :=
  ["<=>", "**=", "...", "<<=", ">>=", "===", "!==", "?->", "??=",
    "++", "--", "->", "=>", "::", "==", "!=", "<>", "<=", ">=", "&&", "||", "??", "<<", ">>",
    "+=", "-=", "*=", "/=", ".=", "%=", "&=", "|=", "^=", "|>", "**", "#["]

def operatorChars : List Char :=
  [';', ':', ',', '.', '\\', '$', '@', '~', '!', '%', '^', '&', '*', '(', ')', '-', '+', '=', '{',
    '}', '[', ']', '|', '<', '>', '?', '/']

/-- Splits off the longest operator. -/
def takeOperator (cs : List Char) : Option (List Char × List Char) :=
  match longOperators.find? fun op => op.toList.isPrefixOf cs with
  | some op => some (op.toList, cs.drop op.length)
  | none =>
    match cs with
    | c :: rest => if operatorChars.contains c then some ([c], rest) else none
    | [] => none

/-- A run of digits, then groups of an underscore and digits. -/
def takeGroups (isDigit : Char → Bool) (fuel : Nat) (cs : List Char) : List Char × List Char :=
  match fuel with
  | 0 => ([], cs)
  | fuel + 1 =>
    let digits := cs.takeWhile isDigit
    let rest := cs.dropWhile isDigit
    match rest with
    | '_' :: d :: more =>
      if isDigit d && !digits.isEmpty then
        let (taken, left) := takeGroups isDigit fuel (d :: more)
        (digits ++ '_' :: taken, left)
      else (digits, rest)
    | _ => (digits, rest)

def isHexDigit (c : Char) : Bool :=
  c.isDigit || ('a' ≤ c && c ≤ 'f') || ('A' ≤ c && c ≤ 'F')

def isOctalDigit (c : Char) : Bool := '0' ≤ c && c ≤ '7'

def isBinaryDigit (c : Char) : Bool := c == '0' || c == '1'

/-- Splits off digits with single underscores between them. -/
def takeNumeral (isDigit : Char → Bool) (cs : List Char) : List Char × List Char :=
  takeGroups isDigit cs.length cs

/-- Splits off an exponent, if there is a complete one. -/
def takeExponent (cs : List Char) : List Char × List Char :=
  match cs with
  | e :: rest =>
    if e == 'e' || e == 'E' then
      let (sign, digits) := match rest with
        | '+' :: more => (['+'], more)
        | '-' :: more => (['-'], more)
        | _ => ([], rest)
      let (taken, left) := takeNumeral Char.isDigit digits
      if taken.isEmpty then ([], cs) else (e :: sign ++ taken, left)
    else ([], cs)
  | [] => ([], [])

/-- Splits off a number with a point or an exponent. -/
def takeFloat (cs : List Char) : Option (List Char × List Char) :=
  let (whole, rest) := takeNumeral Char.isDigit cs
  match rest with
  | '.' :: more =>
    let (fraction, left) := takeNumeral Char.isDigit more
    if whole.isEmpty && fraction.isEmpty then none
    else
      let (exponent, left) := takeExponent left
      some (whole ++ '.' :: fraction ++ exponent, left)
  | _ =>
    let (exponent, left) := takeExponent rest
    if whole.isEmpty || exponent.isEmpty then none else some (whole ++ exponent, left)

/-- Splits off a whole number: decimal, octal, hexadecimal or binary. -/
def takeInteger (cs : List Char) : Option (List Char × List Char) :=
  match cs with
  | '0' :: x :: rest =>
    let based (isDigit : Char → Bool) :=
      let (taken, left) := takeNumeral isDigit rest
      if taken.isEmpty then some (['0'], x :: rest) else some ('0' :: x :: taken, left)
    if x == 'x' || x == 'X' then based isHexDigit
    else if x == 'b' || x == 'B' then based isBinaryDigit
    else if x == 'o' || x == 'O' then based isOctalDigit
    else some (takeNumeral isOctalDigit cs)
  | c :: _ => if c.isDigit then some (takeNumeral Char.isDigit cs) else none
  | [] => none

end PhpPages.Php
