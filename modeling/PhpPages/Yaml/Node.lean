import PhpPages.Yaml.Lexer
import PhpPages.Yaml.Moment
import PhpPages.Yaml.Number

namespace PhpPages.Yaml

/-- What kind of value a node stands for. -/
inductive Tag where
  | null
  | bool
  | int
  | float
  | text
  | moment
  | bytes
  | list
  | mapping
  | set
  | pairs
  | merge
  | value
  | unknown
  deriving DecidableEq

namespace Tag

/-- What the tags of the standard start with. -/
def standard : String := "tag:yaml.org,2002:"

def names : List (String × Tag) :=
  [("null", null), ("bool", bool), ("int", int), ("float", float), ("str", text),
    ("timestamp", moment), ("binary", bytes), ("seq", list), ("map", mapping), ("set", set),
    ("omap", pairs), ("pairs", pairs), ("merge", merge), ("value", value)]

def ofText (s : String) : Tag :=
  ((names.find? fun n => standard ++ n.1 = s).map (·.2)).getD unknown

def truthWords : List String :=
  ["yes", "Yes", "YES", "no", "No", "NO", "true", "True", "TRUE", "false", "False", "FALSE",
    "on", "On", "ON", "off", "Off", "OFF"]

/-- The kind of a scalar without a tag, told by its text. -/
def ofScalar (s : String) : Tag :=
  if truthWords.contains s then bool
  else if Number.isFloat s then float
  else if Number.isInt s then int
  else if s = "<<" then merge
  else if ["~", "null", "Null", "NULL", ""].contains s then null
  else if Moment.isMoment s then moment
  else if s = "=" then value
  else if ["!", "&", "*"].contains s then unknown
  else text

end Tag

inductive Node where
  | scalar (tag : Tag) (text : String)
  | sequence (tag : Tag) (items : List Node)
  | mapping (tag : Tag) (pairs : List (Node × Node))

namespace Node

instance : Inhabited Node := ⟨scalar .null ""⟩

/-- The node of something that is left out. -/
def empty : Node := scalar .null ""

def tag : Node → Tag
  | scalar t _ => t
  | sequence t _ => t
  | mapping t _ => t

/-- The state of reading nodes: the tokens ahead, the failure that ends them, the handles of tags,
and the anchors met, with their nodes once they are complete. -/
structure Reading where
  tokens : List Token
  failure : Option Failure
  handles : List (String × String) := [("!", "!"), ("!!", Tag.standard)]
  anchors : List (String × Option Node) := []

abbrev Read := StateT Reading (Except Failure)

def fail {α : Type} : Read α := throw .malformed

def peek : Read Token := do
  match (← get).tokens with
  | t :: _ => return t
  | [] => throw ((← get).failure.getD .malformed)

def skip : Read Unit :=
  modify fun r => { r with tokens := r.tokens.tail }

/-- The full text of a written tag. -/
def fullTag (t : WrittenTag) : Read String := do
  match t.handle with
  | none => return t.suffix
  | some handle =>
    match (← get).handles.lookup handle with
    | some start => return start ++ t.suffix
    | none => fail

/-- Reads the anchor and the tag in front of a node, in either order. -/
def properties : Read (Option String × Option String) := do
  match ← peek with
  | .anchor name =>
    skip
    match ← peek with
    | .tag t => skip; return (some name, some (← fullTag t))
    | _ => return (some name, none)
  | .tag t =>
    skip
    match ← peek with
    | .anchor name => skip; return (some name, some (← fullTag t))
    | _ => return (none, some (← fullTag t))
  | _ => return (none, none)

/-- The node that an alias stands for. It must be complete. -/
def aliased (name : String) : Read Node := do
  match (← get).anchors.lookup name with
  | some (some node) => return node
  | _ => fail

/-- Makes an anchor known. It must be new. -/
def openAnchor (anchor : Option String) : Read Unit := do
  match anchor with
  | none => return
  | some name =>
    if ((← get).anchors.lookup name).isSome then fail
    modify fun r => { r with anchors := (name, none) :: r.anchors }

def closeAnchor (anchor : Option String) (node : Node) : Read Unit :=
  match anchor with
  | none => pure ()
  | some name => modify fun r => { r with anchors := (name, some node) :: r.anchors }

/-- The kind of a node with the given tag, or without one, or with the tag that leaves it open. -/
def kind (written : Option String) (default : Tag) : Tag :=
  match written with
  | none => default
  | some "!" => default
  | some t => .ofText t

/-- The kind of a scalar. A scalar in quotes is a text unless a tag leaves its kind open. -/
def scalarKind (written : Option String) (text : String) (plain : Bool) : Tag :=
  if plain || written = some "!" then kind written (.ofScalar text) else kind written .text

mutual

/-- Reads a node. In a block, block collections may stand here; behind a key, also a sequence that
is not indented. -/
def read (fuel : Nat) (block indentless : Bool) : Read Node :=
  match fuel with
  | 0 => fail
  | fuel + 1 => do
    match ← peek with
    | .reference name => skip; aliased name
    | _ =>
      let (anchor, written) ← properties
      openAnchor anchor
      let node ← content fuel block indentless anchor.isSome written
      closeAnchor anchor node
      return node

/-- Reads what stands behind the anchor and the tag of a node. -/
def content (fuel : Nat) (block indentless anchored : Bool) (written : Option String) : Read Node :=
  match fuel with
  | 0 => fail
  | fuel + 1 => do
    match ← peek with
    | .blockEntry =>
      if indentless then return sequence (kind written .list) (← indentlessItems fuel)
      else absent anchored written
    | .scalar text plain =>
      skip
      return scalar (scalarKind written text plain) text
    | .flowSequenceStart =>
      skip
      return sequence (kind written .list) (← flowItems fuel true)
    | .flowMappingStart =>
      skip
      return mapping (kind written .mapping) (← flowPairs fuel true)
    | .blockSequenceStart =>
      if block then
        skip
        return sequence (kind written .list) (← blockItems fuel)
      else absent anchored written
    | .blockMappingStart =>
      if block then
        skip
        return mapping (kind written .mapping) (← blockPairs fuel)
      else absent anchored written
    | _ => absent anchored written

/-- A node that is left out. It must have an anchor or a tag. -/
def absent (anchored : Bool) (written : Option String) : Read Node :=
  if anchored || written.isSome then return scalar (kind written .null) "" else fail

/-- Reads the entries of a block sequence. -/
def blockItems (fuel : Nat) : Read (List Node) :=
  match fuel with
  | 0 => fail
  | fuel + 1 => do
    match ← peek with
    | .blockEntry =>
      skip
      let item ← match ← peek with
        | .blockEntry | .blockEnd => pure empty
        | _ => read fuel true false
      return item :: (← blockItems fuel)
    | .blockEnd => skip; return []
    | _ => fail

/-- Reads the entries of a sequence that is not indented. -/
def indentlessItems (fuel : Nat) : Read (List Node) :=
  match fuel with
  | 0 => fail
  | fuel + 1 => do
    match ← peek with
    | .blockEntry =>
      skip
      let item ← match ← peek with
        | .blockEntry | .key | .value | .blockEnd => pure empty
        | _ => read fuel true false
      return item :: (← indentlessItems fuel)
    | _ => return []

/-- Reads the keys and values of a block mapping. -/
def blockPairs (fuel : Nat) : Read (List (Node × Node)) :=
  match fuel with
  | 0 => fail
  | fuel + 1 => do
    match ← peek with
    | .key =>
      skip
      let key ← blockPart fuel
      let value ← match ← peek with
        | .value => skip; blockPart fuel
        | _ => pure empty
      return (key, value) :: (← blockPairs fuel)
    | .blockEnd => skip; return []
    | _ => fail

/-- Reads a key or a value of a block mapping, which may be left out. -/
def blockPart (fuel : Nat) : Read Node :=
  match fuel with
  | 0 => fail
  | fuel + 1 => do
    match ← peek with
    | .key | .value | .blockEnd => return empty
    | _ => read fuel true true

/-- Reads the entries of a sequence in brackets. -/
def flowItems (fuel : Nat) (first : Bool) : Read (List Node) :=
  match fuel with
  | 0 => fail
  | fuel + 1 => do
    match ← peek with
    | .flowSequenceEnd => skip; return []
    | t =>
      if !first then
        match t with
        | .flowEntry => skip
        | _ => fail
      match ← peek with
      | .flowSequenceEnd => skip; return []
      | .key =>
        skip
        let key ← match ← peek with
          | .value | .flowEntry | .flowSequenceEnd => pure empty
          | _ => read fuel false false
        let value ← match ← peek with
          | .value =>
            skip
            match ← peek with
            | .flowEntry | .flowSequenceEnd => pure empty
            | _ => read fuel false false
          | _ => pure empty
        return mapping .mapping [(key, value)] :: (← flowItems fuel false)
      | _ =>
        let item ← read fuel false false
        return item :: (← flowItems fuel false)

/-- Reads the keys and values of a mapping in braces. -/
def flowPairs (fuel : Nat) (first : Bool) : Read (List (Node × Node)) :=
  match fuel with
  | 0 => fail
  | fuel + 1 => do
    match ← peek with
    | .flowMappingEnd => skip; return []
    | t =>
      if !first then
        match t with
        | .flowEntry => skip
        | _ => fail
      match ← peek with
      | .flowMappingEnd => skip; return []
      | .key =>
        skip
        let key ← match ← peek with
          | .value | .flowEntry | .flowMappingEnd => pure empty
          | _ => read fuel false false
        let value ← match ← peek with
          | .value =>
            skip
            match ← peek with
            | .flowEntry | .flowMappingEnd => pure empty
            | _ => read fuel false false
          | _ => pure empty
        return (key, value) :: (← flowPairs fuel false)
      | _ =>
        let key ← read fuel false false
        return (key, empty) :: (← flowPairs fuel false)

end

/-- Reads directives. There may be one version, which must be 1, and each handle once. -/
def directives (fuel : Nat) (versioned : Bool) (handles : List (String × String)) :
    Read (List (String × String)) :=
  match fuel with
  | 0 => fail
  | fuel + 1 => do
    match ← peek with
    | .version major =>
      if versioned || major ≠ 1 then fail
      skip
      directives fuel true handles
    | .tagHandle handle start =>
      if (handles.lookup handle).isSome then fail
      skip
      directives fuel versioned ((handle, start) :: handles)
    | .unknownDirective => skip; directives fuel versioned handles
    | _ => return handles

def skipDocumentEnds (fuel : Nat) : Read Unit :=
  match fuel with
  | 0 => fail
  | fuel + 1 => do
    match ← peek with
    | .documentEnd => skip; skipDocumentEnds fuel
    | _ => return

/-- Reads a document behind its start, where nothing at all may stand. -/
def documentContent (fuel : Nat) : Read Node := do
  match ← peek with
  | .version _ | .tagHandle _ _ | .unknownDirective | .documentStart | .documentEnd | .streamEnd =>
    return empty
  | _ => read fuel true false

/-- Reads a document with a start of its own, if there is one. -/
def explicitDocument (fuel : Nat) : Read (Option Node) := do
  skipDocumentEnds fuel
  match ← peek with
  | .streamEnd => return none
  | _ =>
    let handles ← directives fuel false []
    match ← peek with
    | .documentStart =>
      skip
      modify fun r => { r with handles := handles ++ r.handles }
      return some (← documentContent fuel)
    | _ => fail

/-- Reads the only document of a text, if there is one. -/
def document (fuel : Nat) : Read (Option Node) := do
  let node ← match ← peek with
    | .version _ | .tagHandle _ _ | .unknownDirective | .documentStart | .streamEnd =>
      explicitDocument fuel
    | _ => some <$> read fuel true false
  skipDocumentEnds fuel
  match ← peek with
  | .streamEnd => return node
  | _ => fail

/-- The node of a text, `none` when it is empty. -/
def ofText (text : List Char) : Except Failure (Option Node) :=
  let (tokens, failure) := tokens text
  (·.1) <$> (document (4 * tokens.length + 16)).run { tokens := tokens, failure := failure }

end Node

end PhpPages.Yaml
