import PhpPages.Yaml.Value

namespace PhpPages.Yaml.Moment

def isDigits (cs : List Char) (least most : Nat) : Bool :=
  least ≤ cs.length && cs.length ≤ most && cs.all Char.isDigit

def number (cs : List Char) : Nat :=
  cs.foldl (fun n c => 10 * n + (c.toNat - '0'.toNat)) 0

/-- An offset from universal time in minutes. -/
abbrev Offset := Int

structure Clock where
  hour : Nat
  minute : Nat
  second : Nat
  micros : Nat
  offset : Option Offset

structure Parts where
  year : Nat
  month : Nat
  day : Nat
  clock : Option Clock

/-- The offset behind a time: a letter for universal time, or a sign with hours and minutes. -/
def offset? (cs : List Char) : Option (Option Offset) :=
  match cs.dropWhile fun c => c == ' ' || c == '\t' with
  | [] => if cs.isEmpty then some none else none
  | ['Z'] => some (some 0)
  | sign :: rest =>
    let hours := rest.takeWhile (· != ':')
    let minutes := rest.drop (hours.length + 1)
    if (sign == '+' || sign == '-') && isDigits hours 1 2 &&
        (rest.length = hours.length || isDigits minutes 2 2) then
      let total : Int := 60 * number hours + number minutes
      some (some (if sign == '-' then -total else total))
    else none

/-- Millionths of a second from the digits behind a point. -/
def micros (digits : List Char) : Nat :=
  let kept := digits.take 6
  number kept * Nat.pow 10 (6 - kept.length)

/-- A time of day. -/
def clock? (cs : List Char) : Option Clock := do
  let hour := cs.takeWhile (· != ':')
  match cs.drop hour.length with
  | ':' :: m :: m' :: ':' :: s :: s' :: rest =>
    if isDigits hour 1 2 && isDigits [m, m', s, s'] 4 4 then
      let (part, rest) := match rest with
        | '.' :: more => (more.takeWhile Char.isDigit, more.dropWhile Char.isDigit)
        | _ => ([], rest)
      let offset ← offset? rest
      some ⟨number hour, number [m, m'], number [s, s'], micros part, offset⟩
    else none
  | _ => none

/-- A date, with a time of day behind it or not. -/
def parts? (text : String) : Option Parts := do
  let cs := text.toList
  let year := cs.takeWhile Char.isDigit
  match cs.drop year.length with
  | '-' :: afterYear =>
    let month := afterYear.takeWhile Char.isDigit
    match afterYear.drop month.length with
    | '-' :: afterMonth =>
      let day := (afterMonth.takeWhile Char.isDigit)
      let rest := afterMonth.drop day.length
      if isDigits year 4 4 && isDigits month 1 2 && isDigits day 1 2 then
        match rest with
        | [] => some ⟨number year, number month, number day, none⟩
        | c :: more =>
          let time := if c == 'T' || c == 't' then more
            else rest.dropWhile fun c => c == ' ' || c == '\t'
          if c == 'T' || c == 't' || c == ' ' || c == '\t' then
            some ⟨number year, number month, number day, some (← clock? time)⟩
          else none
      else none
    | _ => none
  | _ => none

/-- Whether a text without a mark is a date or a time. A date alone has two digits for
month and day. -/
def isMoment (text : String) : Bool :=
  match parts? text with
  | some p => p.clock.isSome || text.length = 10
  | none => false

def isLeap (year : Nat) : Bool :=
  year % 4 = 0 && (year % 100 ≠ 0 || year % 400 = 0)

def daysIn (year month : Nat) : Nat :=
  if month = 2 then (if isLeap year then 29 else 28)
  else if month = 4 || month = 6 || month = 9 || month = 11 then 30
  else 31

def Clock.isValid (c : Clock) : Bool :=
  c.hour < 24 && c.minute < 60 && c.second < 60 &&
    match c.offset with
    | some minutes => minutes.natAbs < 24 * 60
    | none => true

def Parts.isValid (p : Parts) : Bool :=
  1 ≤ p.year && 1 ≤ p.month && p.month ≤ 12 && 1 ≤ p.day && p.day ≤ daysIn p.year p.month &&
    match p.clock with
    | some c => c.isValid
    | none => true

/-- A number with zeros in front up to a width. -/
def padded (width n : Nat) : String :=
  let digits := toString n
  String.ofList (List.replicate (width - digits.length) '0') ++ digits

def offsetText (minutes : Offset) : String :=
  (if minutes < 0 then "-" else "+") ++ padded 2 (minutes.natAbs / 60) ++ ":" ++
    padded 2 (minutes.natAbs % 60)

def Clock.text (c : Clock) : String :=
  padded 2 c.hour ++ ":" ++ padded 2 c.minute ++ ":" ++ padded 2 c.second ++
    (if c.micros = 0 then "" else "." ++ padded 6 c.micros) ++
    match c.offset with
    | some minutes => offsetText minutes
    | none => ""

def Parts.text (p : Parts) : String :=
  padded 4 p.year ++ "-" ++ padded 2 p.month ++ "-" ++ padded 2 p.day ++
    match p.clock with
    | some c => "T" ++ c.text
    | none => ""

/-- The standard text of a date or a time. -/
def read (text : String) : Except Failure String :=
  match parts? text with
  | none => .error .badMoment
  | some p => if p.isValid then .ok p.text else .error .badDate

end PhpPages.Yaml.Moment
