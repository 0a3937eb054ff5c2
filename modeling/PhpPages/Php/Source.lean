import PhpPages.Php.Grammar.Statement
import PhpPages.Php.Walk

namespace PhpPages.Php

/-- The reader of each part of the grammar, given readers for the parts inside it. -/
def grammar (g : Rule → Reader) : Rule → Reader
  | .expression => Grammar.expression g
  | .target => Grammar.chain g
  | .statement => Grammar.statement g
  | .block => Grammar.block g
  | .members => Grammar.members g
  | .parameters => Grammar.parameters g

/-- The grammar with parts nested at most to the given depth. -/
def nested : Nat → Rule → Reader
  | 0 => fun _ => Reader.stop
  | depth + 1 => grammar (nested depth)

/-- Parts nest no deeper than twice the number of characters: of two nested parts, one starts behind
a character of the other. -/
def depthFor (cs : List Char) : Nat :=
  2 * cs.length + 8

/-- The tree of a text that cannot be read any further in the given row. -/
def brokenTree (text : String) (row : Nat) : Tree :=
  { kind := "program", text := some text, children := [{ kind := "ERROR", row := row }] }

/-- The syntax tree of a file. Text before the first tag is no PHP. -/
def parse (text : String) : Tree :=
  let cs := text.toList
  let start := Cursor.start cs
  let (outside, rest) := takeText cs
  let code := start.advance outside rest
  match (Reader.many (nested (depthFor cs) .statement)) code with
  | .error row => brokenTree text row
  | .ok (found, later) =>
    let (gap, last) := later.gap
    if last.rest.isEmpty then { kind := "program", text := some text, children := found ++ gap }
    else brokenTree text last.row

/-- The outline of a file from its bytes. -/
def outline (bytes : ByteArray) : Except ParseError (List Statement) :=
  match String.fromUTF8? bytes with
  | none => .error .notUtf8
  | some text => (parse text).outline

end PhpPages.Php
