import PhpPages.Text.Blank
import PhpPages.Text.Lower
import PhpPages.Text.Pieces
import PhpPages.Yaml.Value

namespace PhpPages.Yaml.Number

open Text

def dropSign (cs : List Char) : List Char :=
  match cs with
  | '+' :: rest => rest
  | '-' :: rest => rest
  | _ => cs

def isDigitOrLine (c : Char) : Bool :=
  c.isDigit || c == '_'

def isHexOrLine (c : Char) : Bool :=
  isDigitOrLine c || ('a' ≤ c && c ≤ 'f') || ('A' ≤ c && c ≤ 'F')

def isSome (p : Char → Bool) (cs : List Char) : Bool :=
  !cs.isEmpty && cs.all p

/-- A part of a number in base 60 behind a colon: up to 59, with one or two digits. -/
def isSixtieth : List Char → Bool
  | [c] => c.isDigit
  | [c, d] => '0' ≤ c && c ≤ '5' && d.isDigit
  | _ => false

/-- One or more parts behind a first one, with colons between. -/
def areSixtieths (parts : List (List Char)) : Bool :=
  match parts with
  | _ :: rest => !rest.isEmpty && rest.all isSixtieth
  | [] => false

/-- Whether a text without a mark is a whole number. -/
def isInt (text : String) : Bool :=
  match dropSign text.toList with
  | ['0'] => true
  | '0' :: 'b' :: digits => isSome (fun c => c == '0' || c == '1' || c == '_') digits
  | '0' :: 'x' :: digits => isSome isHexOrLine digits
  | '0' :: digits => isSome (fun c => ('0' ≤ c && c ≤ '7') || c == '_') digits
  | c :: digits =>
    let parts := digits.splitOn ':'
    c.isDigit && (parts.headD []).all isDigitOrLine && (parts.length = 1 || areSixtieths parts)
  | [] => false

/-- An exponent with its sign, or nothing. -/
def isExponent : List Char → Bool
  | [] => true
  | e :: sign :: digits =>
    (e == 'e' || e == 'E') && (sign == '+' || sign == '-') && isSome Char.isDigit digits
  | _ => false

/-- A point, digits and an exponent. -/
def isFraction : List Char → Bool
  | '.' :: rest => isExponent (rest.dropWhile isDigitOrLine)
  | _ => false

/-- Whether a text without a mark is a floating point number. -/
def isFloat (text : String) : Bool :=
  let cs := text.toList
  let unsigned := dropSign cs
  if [".inf", ".Inf", ".INF"].contains (String.ofList unsigned) || [".nan", ".NaN", ".NAN"].contains
    text then true
  else
    match cs with
    | '.' :: c :: _ => c.isDigit && isFraction cs
    | _ =>
      match unsigned with
      | c :: _ =>
        let whole := unsigned.takeWhile isDigitOrLine
        let rest := unsigned.dropWhile isDigitOrLine
        let beforePoint := unsigned.takeWhile (· != '.')
        let parts := beforePoint.splitOn ':'
        let sixties := (parts.headD []).all isDigitOrLine && areSixtieths parts &&
          isSome isDigitOrLine ('_' :: (unsigned.drop (beforePoint.length + 1))) &&
          unsigned.length > beforePoint.length
        c.isDigit && ((!whole.isEmpty && isFraction rest) || sixties)
      | [] => false

def digitValue (c : Char) : Nat :=
  if c.isDigit then c.toNat - '0'.toNat
  else if 'a' ≤ c && c ≤ 'z' then c.toNat - 'a'.toNat + 10
  else if 'A' ≤ c && c ≤ 'Z' then c.toNat - 'A'.toNat + 10
  else 99

def digitsValue (base : Nat) (digits : List Char) : Nat :=
  digits.foldl (fun n c => base * n + digitValue c) 0

/-- The longest decimal number that is read. -/
def maxDigits : Nat := 4300

/-- The letter that may stand behind a zero in front of digits of a base. -/
def baseLetter (base : Nat) : List Char :=
  if base = 2 then ['b', 'B'] else if base = 8 then ['o', 'O'] else if base = 16 then ['x', 'X']
  else []

/-- Reads digits in a base, with white space around them, a sign and the mark of the base. -/
def wholeNumber (base : Nat) (cs : List Char) : Except Failure Int :=
  let trimmed := trimChars cs
  let unsigned := dropSign trimmed
  let digits := match unsigned with
    | '0' :: letter :: rest => if (baseLetter base).contains letter then rest else unsigned
    | _ => unsigned
  if digits.isEmpty || digits.any (digitValue · ≥ base) ||
    (base = 10 && digits.length > maxDigits) then
    .error .badNumber
  else
    let n : Int := digitsValue base digits
    .ok (if trimmed.head? = some '-' then -n else n)

/-- The value of parts in base 60, the first part counting most. -/
def sixties (parts : List (List Char)) : Except Failure Int :=
  parts.foldlM (fun n part => do return 60 * n + (← wholeNumber 10 part)) 0

/-- The whole number that a text stands for. -/
def readInt (text : String) : Except Failure Int := do
  let cs := text.toList.filter (· != '_')
  let unsigned := dropSign cs
  let sign : Int := if cs.head? = some '-' then -1 else 1
  if cs.isEmpty then throw .emptyNumber
  match unsigned with
  | ['0'] => return 0
  | '0' :: 'b' :: digits => return sign * (← wholeNumber 2 digits)
  | '0' :: 'x' :: digits => return sign * (← wholeNumber 16 digits)
  | '0' :: _ => return sign * (← wholeNumber 8 unsigned)
  | [] => throw .emptyNumber
  | _ =>
    if unsigned.contains ':' then return sign * (← sixties (unsigned.splitOn ':'))
    else return sign * (← wholeNumber 10 unsigned)

/-- The floating point number nearest to `digits` times ten to the power of `exponent`. -/
def nearest (digits : Nat) (exponent : Int) : Float :=
  let size := (Nat.toDigits 10 digits).length
  if digits = 0 then 0
  else if exponent + size > 400 then 1 / 0
  else if exponent + size < -400 then 0
  else if exponent < 0 then Float.ofScientific digits true exponent.natAbs
  else Float.ofScientific digits false exponent.natAbs

/-- An exponent, which may have a sign, or nothing. -/
def exponent? (cs : List Char) : Option Int :=
  match cs with
  | [] => some 0
  | e :: rest =>
    let digits := dropSign rest
    if (e == 'e' || e == 'E') && isSome Char.isDigit digits then
      let n : Int := digitsValue 10 digits
      some (if rest.head? = some '-' then -n else n)
    else none

/-- Reads a floating point number without a sign. -/
def magnitude (cs : List Char) : Except Failure Float :=
  let word := lower (String.ofList cs)
  if word = "inf" || word = "infinity" then .ok (1 / 0)
  else if word = "nan" then .ok (0 / 0)
  else
    let whole := cs.takeWhile Char.isDigit
    let afterWhole := cs.dropWhile Char.isDigit
    let (part, rest) := match afterWhole with
      | '.' :: rest => (rest.takeWhile Char.isDigit, rest.dropWhile Char.isDigit)
      | _ => ([], afterWhole)
    match exponent? rest with
    | some exponent =>
      if whole.isEmpty && part.isEmpty then .error .badNumber
      else .ok (nearest (digitsValue 10 (whole ++ part)) (exponent - part.length))
    | none => .error .badNumber

/-- Reads a floating point number with white space around it and a sign. -/
def floatNumber (cs : List Char) : Except Failure Float :=
  let trimmed := trimChars cs
  (magnitude (dropSign trimmed)).map fun x => if trimmed.head? = some '-' then -x else x

/-- The value of parts in base 60, summed from the last part to the first. -/
def floatSixties (parts : List (List Char)) : Except Failure Float := do
  let values ← parts.reverse.mapM floatNumber
  return (values.foldl (fun (acc : Float × Float) x => (acc.1 + x * acc.2, acc.2 * 60)) (0, 1)).1

/-- The floating point number that a text stands for. -/
def readFloat (text : String) : Except Failure Float := do
  let cs := (lower text).toList.filter (· != '_')
  let unsigned := dropSign cs
  let signed (x : Float) : Float := if cs.head? = some '-' then -x else x
  if cs.isEmpty then throw .emptyNumber
  else if unsigned = ['.', 'i', 'n', 'f'] then return signed (1 / 0)
  else if unsigned = ['.', 'n', 'a', 'n'] then return 0 / 0
  else if unsigned.contains ':' then return signed (← floatSixties (unsigned.splitOn ':'))
  else return signed (← floatNumber unsigned)

end PhpPages.Yaml.Number
