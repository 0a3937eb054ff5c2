import PhpPages.Php.Cursor

namespace PhpPages.Php

/-- Reads a stretch of source: gives the nodes found and the position behind it, or the row
of the failure. -/
abbrev Reader := Cursor → Except Nat (List Tree × Cursor)

namespace Reader

/-- Reads nothing. -/
def nothing : Reader := fun c => .ok ([], c)

/-- Gives up. -/
def stop : Reader := fun c => .error c.row

def andThen (p q : Reader) : Reader := fun c =>
  match p c with
  | .error row => .error row
  | .ok (found, c) =>
    match q c with
    | .error row => .error row
    | .ok (more, c) => .ok (found ++ more, c)

/-- Reads with each reader in turn. -/
def seq (ps : List Reader) : Reader :=
  ps.foldr andThen nothing

def orElse (p q : Reader) : Reader := fun c =>
  match p c with
  | .ok result => .ok result
  | .error row =>
    match q c with
    | .ok result => .ok result
    | .error other => .error (max row other)

/-- Reads with the first reader that succeeds. -/
def choice (ps : List Reader) : Reader :=
  ps.foldr orElse stop

def opt (p : Reader) : Reader :=
  orElse p nothing

/-- Repeats a reader as long as it succeeds and moves on, at most `fuel` times. -/
def manyWithin (p : Reader) : Nat → Reader
  | 0, c => .ok ([], c)
  | fuel + 1, c =>
    match p c with
    | .error _ => .ok ([], c)
    | .ok (found, later) =>
      if later.left < c.left then
        match manyWithin p fuel later with
        | .error row => .error row
        | .ok (more, last) => .ok (found ++ more, last)
      else .ok (found, later)

/-- Repeats a reader as long as it succeeds and moves on. -/
def many (p : Reader) : Reader := fun c =>
  manyWithin p c.left c

def many1 (p : Reader) : Reader :=
  p.andThen (many p)

/-- Skips the gap before the reader reads, so that the gap belongs to what stands around. -/
def afterGap (p : Cursor → Except Nat (List Tree × Cursor)) : Reader := fun c =>
  let (gap, c) := c.gap
  match p c with
  | .error row => .error row
  | .ok (found, later) => .ok (gap ++ found, later)

/-- A token: what a splitting function takes at the end of the gap becomes a leaf. -/
def token (kind : String) (named : Bool) (take : List Char → Option (List Char × List Char)) :
    Reader :=
  afterGap fun c =>
    match take c.rest with
    | none => .error c.row
    | some (taken, rest) =>
      .ok ([{ kind := kind, text := some (String.ofList taken), named := named, row := c.row }],
        c.advance taken rest)

/-- An operator or a punctuation mark, as long as possible. -/
def punct (mark : String) : Reader :=
  token mark false fun cs =>
    match takeOperator cs with
    | some (taken, rest) => if taken = mark.toList then some (taken, rest) else none
    | none => none

/-- One of several operators. -/
def anyPunct (marks : List String) : Reader :=
  token "operator" false fun cs =>
    match takeOperator cs with
    | some (taken, rest) =>
      if marks.contains (String.ofList taken) then some (taken, rest) else none
    | none => none

/-- The ASCII lower case of a word; keywords are told apart by it. -/
def foldCase (cs : List Char) : String :=
  String.ofList (cs.map Char.toLower)

/-- A keyword in any case. -/
def keyword (word : String) : Reader :=
  token word false fun cs =>
    match takeWord cs with
    | some (taken, rest) => if foldCase taken = word then some (taken, rest) else none
    | none => none

/-- Any word as a name. -/
def name : Reader :=
  token "name" true takeWord

/-- The keyword that a word behind the gap would be, if there is a word. -/
def nextWord (c : Cursor) : Option String :=
  (takeWord c.gap.2.rest).map fun (taken, _) => foldCase taken

/-- The operator behind the gap. -/
def nextMark (c : Cursor) : Option String :=
  (takeOperator c.gap.2.rest).map fun (taken, _) => String.ofList taken

/-- Goes on with the reader that belongs to the word behind the gap. -/
def byWord (p : Option String → Reader) : Reader := fun c =>
  p (nextWord c) c

/-- Goes on with the reader that belongs to the operator behind the gap. -/
def byMark (p : Option String → Reader) : Reader := fun c =>
  p (nextMark c) c

/-- Succeeds without reading if the reader would succeed. -/
def ahead (p : Reader) : Reader := fun c =>
  match p c with
  | .ok _ => .ok ([], c)
  | .error row => .error row

def succeeds (p : Reader) (c : Cursor) : Bool :=
  match p c with
  | .ok _ => true
  | .error _ => false

/-- Puts the nodes that a reader finds under a node whose kind depends on them. -/
def nodeBy (kind : List Tree → String) (p : Reader) : Reader :=
  afterGap fun c =>
    match p c with
    | .error row => .error row
    | .ok (found, later) =>
      .ok ([{
        kind := kind found, text := some (String.ofList (c.upTo later)), children := found,
        row := c.row }], later)

def node (kind : String) (p : Reader) : Reader :=
  nodeBy (fun _ => kind) p

/-- Gives the last node of a list a field. -/
def markLast (field : String) : List Tree → List Tree
  | [] => []
  | [t] => [{ t with field := some field }]
  | t :: rest => t :: markLast field rest

/-- Puts what a reader finds into a field of the node around it. -/
def field (name : String) (p : Reader) : Reader := fun c =>
  match p c with
  | .error row => .error row
  | .ok (found, later) => .ok (markLast name found, later)

/-- Reads on from the nodes that were found, in a way that depends on them. -/
def continueWith (p : Reader) (q : List Tree → Reader) : Reader := fun c =>
  match p c with
  | .error row => .error row
  | .ok (found, later) =>
    match q found later with
    | .error row => .error row
    | .ok (more, last) => .ok (found ++ more, last)

/-- Refuses what was found unless it satisfies a condition. -/
def such (ok : List Tree → Bool) (p : Reader) : Reader := fun c =>
  match p c with
  | .error row => .error row
  | .ok (found, later) => if ok found then .ok (found, later) else .error c.row

def comma : Reader := punct ","

/-- One or more items with commas between them. -/
def list1 (p : Reader) : Reader :=
  p.andThen (many (comma.andThen p))

/-- Any number of items with commas between them and possibly one behind the last. -/
def list (p : Reader) : Reader :=
  seq [opt (list1 p), opt comma]

/-- The end of a statement: a semicolon, or the end of a stretch of PHP, which is
left to be read. -/
def semicolon : Reader :=
  orElse (punct ";") fun c =>
    if c.gap.1.any fun t => t.kind == "text_interpolation" then .ok ([], c) else .error c.row

end Reader

end PhpPages.Php
