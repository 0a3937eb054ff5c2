import PhpPages.Php.Grammar.Name

namespace PhpPages.Php.Grammar

open Reader

/-- Splits off a text in single quotes behind its opening quote, the closing quote included. -/
def takeQuoted : List Char → Option (List Char × List Char)
  | [] => none
  | '\\' :: c :: rest => (takeQuoted rest).map fun (taken, rest) => ('\\' :: c :: taken, rest)
  | '\'' :: rest => some (['\''], rest)
  | c :: rest => (takeQuoted rest).map fun (taken, rest) => (c :: taken, rest)

/-- A literal in single quotes, possibly marked as binary. -/
def quoted : Reader :=
  token "string" true fun
    | '\'' :: rest => (takeQuoted rest).map fun (taken, rest) => ('\'' :: taken, rest)
    | b :: '\'' :: rest =>
      if b == 'b' || b == 'B' then
        (takeQuoted rest).map fun (taken, rest) => (b :: '\'' :: taken, rest)
      else none
    | _ => none

/-- Reads exactly the given characters, without a gap before them. -/
def here (cs : List Char) : Reader := fun c =>
  if cs.isPrefixOf c.rest then .ok ([], c.advance cs (c.rest.drop cs.length)) else .error c.row

/-- Reads characters that a splitting function takes, without a gap before them. -/
def hereBy (take : List Char → Option (List Char × List Char)) : Reader := fun c =>
  match take c.rest with
  | some (taken, rest) => .ok ([], c.advance taken rest)
  | none => .error c.row

/-- The index in a simple interpolation: a number, a word or a variable. -/
def simpleIndex : Reader :=
  choice [
    seq [opt (here ['-']), hereBy takeInteger],
    hereBy takeWord,
    seq [here ['$'], hereBy takeWord]]

/-- A variable inside text, with at most one index or one property. -/
def simpleInterpolation : Reader := fun c =>
  match (seq [here ['$'], hereBy takeWord]) c with
  | .error row => .error row
  | .ok (_, c) =>
    match c.rest with
    | '[' :: _ => (seq [here ['['], simpleIndex, here [']']]) c
    | '-' :: '>' :: d :: _ =>
      if isNameStart d then (seq [here ['-', '>'], hereBy takeWord]) c else .ok ([], c)
    | _ => .ok ([], c)

/-- One step inside interpolated text: an escaped character, a variable, an expression in braces,
or a character. -/
def interpolatedStep (g : Rule → Reader) : Reader := fun c =>
  match c.rest with
  | [] => .error c.row
  | '\\' :: d :: rest => .ok ([], c.advance ['\\', d] rest)
  | '{' :: '$' :: _ => (seq [here ['{'], g .expression, punct "\x7d"]) c
  | '$' :: '{' :: _ => (seq [here ['$', '{'], g .expression, punct "\x7d"]) c
  | '$' :: d :: rest =>
    if isNameStart d then simpleInterpolation c else .ok ([], c.advance ['$'] (d :: rest))
  | d :: rest => .ok ([], c.advance [d] rest)

/-- Steps until the given test holds of the characters left. -/
def interpolatedUntil (g : Rule → Reader) (close : List Char → Bool) : Nat → Reader
  | 0, c => .error c.row
  | fuel + 1, c =>
    if close c.rest then .ok ([], c)
    else
      match interpolatedStep g c with
      | .error row => .error row
      | .ok (_, later) => interpolatedUntil g close fuel later

/-- Text up to a closing mark, which is read too. -/
def interpolated (g : Rule → Reader) (close : Char) : Reader := fun c =>
  (andThen (interpolatedUntil g (fun cs => cs.head? == some close) (c.left + 1)) (here [close])) c

/-- A literal in double quotes, possibly marked as binary. -/
def doubleQuoted (g : Rule → Reader) : Reader :=
  node "encapsed_string" fun c =>
    match c.rest with
    | '"' :: _ => (seq [here ['"'], interpolated g '"']) c
    | b :: '"' :: _ =>
      if b == 'b' || b == 'B' then (seq [here [b, '"'], interpolated g '"']) c else .error c.row
    | _ => .error c.row

def backtick : Char := Char.ofNat 96

/-- A command in backticks. -/
def command (g : Rule → Reader) : Reader :=
  node "shell_command_expression" (seq [here [backtick], interpolated g backtick])

/-- Whether the closing word of a heredoc stands here, at the start of a line and
possibly indented. -/
def closesDoc (label : List Char) (cs : List Char) : Bool :=
  let cs := cs.dropWhile fun c => c == ' ' || c == '\t'
  label.isPrefixOf cs && !((cs.drop label.length).head?.any isNamePart)

/-- Whether the line end before the closing word stands here. -/
def endsDoc (label : List Char) : List Char → Bool
  | '\n' :: rest => closesDoc label rest
  | '\r' :: '\n' :: rest => closesDoc label rest
  | _ => false

/-- The closing word with the line end and the indentation before it. -/
def docEnd (label : List Char) : Reader := fun c =>
  let blank := c.rest.takeWhile fun d => d == ' ' || d == '\t' || d == '\n' || d == '\r'
  (seq [here blank, here label]) c

/-- Text of a nowdoc up to its end. -/
def rawUntil (close : List Char → Bool) : Nat → Reader
  | 0, c => .error c.row
  | fuel + 1, c =>
    if close c.rest then .ok ([], c)
    else
      match c.rest with
      | [] => .error c.row
      | d :: rest => rawUntil close fuel (c.advance [d] rest)

def lineEnd : Reader :=
  choice [here ['\n'], here ['\r', '\n']]

/-- The body of a heredoc or nowdoc behind its first line; it may be empty. -/
def docBody (label : List Char) (text : (List Char → Bool) → Nat → Reader) : Reader := fun c =>
  match lineEnd c with
  | .error row => .error row
  | .ok (_, after) =>
    if closesDoc label after.rest then docEnd label c
    else (andThen (text (endsDoc label) (c.left + 1)) (docEnd label)) after

/-- A heredoc or a nowdoc. -/
def heredoc (g : Rule → Reader) : Reader := fun c =>
  let (gap, c) := c.gap
  let opening :=
    seq [
      here ['<', '<', '<'],
      hereBy fun cs => some (cs.takeWhile (· == ' '), cs.dropWhile (· == ' '))]
  match opening c with
  | .error row => .error row
  | .ok (_, after) =>
    let (kind, quote, text) := match after.rest with
      | '\'' :: _ => ("nowdoc", ['\''], rawUntil)
      | '"' :: _ => ("heredoc", ['"'], interpolatedUntil g)
      | _ => ("heredoc", [], interpolatedUntil g)
    match takeWord (after.rest.drop quote.length) with
    | none => .error c.row
    | some (label, _) =>
      match (node kind
          (seq [opening, here quote, here label, here quote, docBody label text])) c with
      | .error row => .error row
      | .ok (found, later) => .ok (gap ++ found, later)

/-- Any literal text. -/
def text (g : Rule → Reader) : Reader :=
  choice [quoted, doubleQuoted g, heredoc g]

end PhpPages.Php.Grammar
