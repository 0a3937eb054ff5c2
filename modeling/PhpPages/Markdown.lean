import PhpPages.Text.Blank

namespace PhpPages.Markdown

open Text

/-- Puts a backslash before each bar and a space in place of each line feed. -/
def escapeChars : List Char → List Char
  | [] => []
  | c :: rest =>
    if c = '|' then '\\' :: '|' :: escapeChars rest
    else if c = '\n' then ' ' :: escapeChars rest
    else c :: escapeChars rest

/-- The text of one table cell. -/
def escapeCell (text : String) : String :=
  String.ofList (trimChars (escapeChars text.toList))

/-- A table line with the given cells. -/
def tableLine (cells : List String) : String :=
  "| " ++ " | ".intercalate cells ++ " |"

/-- A table, empty when it has no rows. -/
def table (headers : List String) (rows : List (List String)) : String :=
  if rows.isEmpty then ""
  else
    "\n".intercalate (tableLine headers :: tableLine (headers.map fun _ => "---") ::
      rows.map fun row => tableLine (row.map escapeCell))

/-- A fenced code block. -/
def codeBlock (language code : String) : String :=
  "```" ++ language ++ "\n" ++ trimEnd code ++ "\n```"

/-- A code span inside a line. -/
def code (text : String) : String :=
  "`" ++ text ++ "`"

end PhpPages.Markdown
