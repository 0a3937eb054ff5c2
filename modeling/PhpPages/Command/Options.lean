import PhpPages.Text.Digit
import PhpPages.Text.Quoted

namespace PhpPages.Command

/-- What an argument can switch on or set. -/
inductive Switch where
  | help
  | config
  | path
  | source
  | exclude
  | showProtected
  | showPrivate
  | title
  | projectRoot
  | verbose
  deriving DecidableEq

namespace Switch

/-- The spellings of all switches, in the order in which they are listed. -/
def spellings : List (String × Switch) :=
  [("-h", help), ("--help", help), ("--config", config), ("--path", path), ("--source", source),
    ("--exclude", exclude), ("--protected", showProtected), ("--private", showPrivate),
    ("--title", title), ("--project-root", projectRoot), ("-v", verbose), ("--verbose", verbose)]

def takesValue : Switch → Bool
  | config | path | source | exclude | title | projectRoot => true
  | help | showProtected | showPrivate | verbose => false

/-- The switch with all its spellings. -/
def label (s : Switch) : String :=
  "/".intercalate ((spellings.filter (·.2 = s)).map (·.1))

end Switch

/-- Why arguments are refused. -/
inductive UsageError where
  | ambiguous (argument : String) (spellings : List String)
  | needsValue (s : Switch)
  | valueIgnored (s : Switch) (value : String)
  | unrecognized (arguments : List String)
  deriving DecidableEq

def UsageError.message : UsageError → String
  | ambiguous argument spellings =>
    "ambiguous option: " ++ argument ++ " could match " ++ ", ".intercalate spellings
  | needsValue s => "argument " ++ s.label ++ ": expected one argument"
  | valueIgnored s value =>
    "argument " ++ s.label ++ ": ignored explicit argument " ++ Text.quoted value
  | unrecognized arguments => "unrecognized arguments: " ++ " ".intercalate arguments

/-- What an argument is by itself: text that may be a value, a switch with what is written behind an
equals sign, a switch of one letter with the letters behind it, an option that is not known, or the
mark behind which nothing is an option. -/
inductive Argument where
  | plain (text : String)
  | switch (s : Switch) (value : Option String)
  | letters (s : Switch) (behind : List Char)
  | unknown (text : String)
  | mark

/-- The parts of a text before and behind its first equals sign. -/
def splitEquals (cs : List Char) : List Char × Option (List Char) :=
  match cs.span (· ≠ '=') with
  | (before, _ :: behind) => (before, some behind)
  | (before, []) => (before, none)

/-- A text without a line feed at its end. -/
def withoutFinalLineFeed (cs : List Char) : List Char :=
  if cs.getLast? = some '\n' then cs.dropLast else cs

/-- Whether a text looks like a negative number. A line feed may follow. -/
def isNegativeNumber (cs : List Char) : Bool :=
  match withoutFinalLineFeed cs with
  | '-' :: rest =>
    let whole := rest.takeWhile Text.isDigit
    match rest.dropWhile Text.isDigit with
    | [] => !whole.isEmpty
    | '.' :: part => !part.isEmpty && part.all Text.isDigit
    | _ => false
  | _ => false

/-- What an argument may be short for, each with the spelling of the switch. A long option may be
shortened as long as it stays unique. -/
def candidates (argument : String) : List (String × Argument) :=
  match argument.toList with
  | '-' :: '-' :: _ =>
    let (start, behind) := splitEquals argument.toList
    (Switch.spellings.filter fun e => start.isPrefixOf e.1.toList).map fun e =>
      (e.1, .switch e.2 (behind.map String.ofList))
  | dash :: letter :: behind =>
    (Switch.spellings.filter fun e => e.1.toList = [dash, letter]).map fun e =>
      (e.1, .letters e.2 behind)
  | _ => []

/-- Reads one argument by itself. -/
def classify (argument : String) : Except UsageError Argument :=
  let cs := argument.toList
  if cs.head? ≠ some '-' then .ok (.plain argument)
  else
    match Switch.spellings.lookup argument with
    | some s => .ok (.switch s none)
    | none =>
      if cs.length = 1 then .ok (.plain argument)
      else
        let (start, behind) := splitEquals cs
        match behind, Switch.spellings.lookup (String.ofList start) with
        | some value, some s => .ok (.switch s (some (String.ofList value)))
        | _, _ =>
          match candidates argument with
          | [(_, only)] => .ok only
          | [] =>
            if isNegativeNumber cs || cs.contains ' ' then .ok (.plain argument)
            else .ok (.unknown argument)
          | several => .error (.ambiguous argument (several.map (·.1)))

/-- Reads all arguments. Behind the mark everything is plain. -/
def classifyAll : List String → Except UsageError (List Argument)
  | [] => .ok []
  | argument :: rest =>
    if argument = "--" then .ok (.mark :: rest.map .plain)
    else do
      let first ← classify argument
      return first :: (← classifyAll rest)

/-- What the arguments ask for. -/
structure Options where
  config : Option String := none
  path : Option String := none
  sources : List String := []
  excludes : List String := []
  showProtected : Bool := false
  showPrivate : Bool := false
  title : Option String := none
  projectRoot : Option String := none
  verbose : Bool := false
  deriving DecidableEq

/-- How the reading of arguments ends: with options, with a request for help, with an error, or
because a value consists of the mark alone. -/
inductive Reading where
  | options (o : Options)
  | help
  | refused (e : UsageError)
  | markAsValue

/-- Sets a switch. -/
def Options.set (o : Options) (s : Switch) (value : String) : Options :=
  match s with
  | .help => o
  | .config => { o with config := some value }
  | .path => { o with path := some value }
  | .source => { o with sources := o.sources ++ [value] }
  | .exclude => { o with excludes := o.excludes ++ [value] }
  | .showProtected => { o with showProtected := true }
  | .showPrivate => { o with showPrivate := true }
  | .title => { o with title := some value }
  | .projectRoot => { o with projectRoot := some value }
  | .verbose => { o with verbose := true }

/-- The switches of letters written together behind a first one, and what is left from the first
letter on that is none. No letter takes a value. -/
def bundle (first : Switch) : List Char → Except UsageError (List Switch × List String)
  | [] => .ok ([first], [])
  | letter :: rest =>
    if letter = '-' then .error (.valueIgnored first (String.ofList (letter :: rest)))
    else
      match Switch.spellings.lookup (String.ofList ['-', letter]) with
      | none => .ok ([first], [String.ofList ('-' :: letter :: rest)])
      | some s =>
        match rest with
        | '=' :: value => .error (.valueIgnored s (String.ofList value))
        | _ => do
          let (more, left) ← bundle s rest
          return (first :: more, left)

/-- Sets switches without a value one after the other. Help ends the reading at once. -/
def setAll (o : Options) : List Switch → Option Options
  | [] => some o
  | s :: rest => if s = .help then none else setAll (o.set s "") rest

/-- Works through arguments, keeping those that nothing is known about. -/
def work (o : Options) (extra : List String) : List Argument → Reading
  | [] => if extra.isEmpty then .options o else .refused (.unrecognized extra)
  | .plain text :: rest => work o (extra ++ [text]) rest
  | .unknown text :: rest => work o (extra ++ [text]) rest
  | .mark :: rest => work o (extra ++ ["--"]) rest
  | .letters s behind :: rest =>
    match bundle s behind with
    | .error e => .refused e
    | .ok (switches, left) =>
      match setAll o switches with
      | none => .help
      | some o => work o (extra ++ left) rest
  | .switch s value :: rest =>
    if s.takesValue then
      match value with
      | some v => if v = "--" then .markAsValue else work (o.set s v) extra rest
      | none =>
        match rest with
        | .plain v :: further => work (o.set s v) extra further
        | _ => .refused (.needsValue s)
    else
      match value with
      | none => if s = .help then .help else work (o.set s "") extra rest
      | some v => .refused (.valueIgnored s v)

/-- Reads the arguments of a command line. -/
def readArguments (arguments : List String) : Reading :=
  match classifyAll arguments with
  | .error e => .refused e
  | .ok classified => work {} [] classified

end PhpPages.Command
