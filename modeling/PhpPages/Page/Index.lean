import PhpPages.Declaration
import PhpPages.Page.Class
import PhpPages.Text.Lower

namespace PhpPages

/-- A moment of a day. -/
structure Moment where
  year : Nat
  month : Nat
  day : Nat
  hour : Nat := 0
  minute : Nat := 0
  second : Nat := 0
  deriving DecidableEq

/-- A number with at least two digits. -/
def Moment.twoDigits (n : Nat) : String :=
  if n < 10 then s!"0{n}" else toString n

def Moment.text (m : Moment) : String :=
  toString m.year ++ "-" ++ twoDigits m.month ++ "-" ++ twoDigits m.day ++ " " ++
    twoDigits m.hour ++ ":" ++ twoDigits m.minute ++ ":" ++ twoDigits m.second

namespace Page.Index

/-- The heading for declarations without a namespace. -/
def globalHeading : String := "(global)"

/-- A line of the index, under its heading. -/
structure Entry where
  heading : String
  name : String
  page : String
  deriving DecidableEq

def entries (files : List ParsedFile) : List Entry :=
  files.flatMap fun file => file.declarations.map fun d =>
    ⟨(filled? d.namespace).getD globalHeading, d.name, file.pagePath⟩

/-- Stable sort by a text, without regard to case. -/
def sortByLower {α : Type} (key : α → String) (l : List α) : List α :=
  ((l.map fun a => (Text.lower (key a), a)).mergeSort fun p q => !decide (q.1 < p.1)).map (·.2)

/-- The headings in the order in which they first occur, each once. -/
def headings : List Entry → List String
  | [] => []
  | e :: rest => e.heading :: (headings rest).filter (· != e.heading)

def headingPart (all : List Entry) (heading : String) : List String :=
  ["### " ++ heading, ""] ++
    (sortByLower Entry.name (all.filter (·.heading = heading))).map
      (fun e => "- [" ++ e.name ++ "](" ++ e.page ++ ")") ++
    [""]

def contents (all : List Entry) : List String :=
  if all.isEmpty then []
  else ["## Contents", ""] ++ (sortByLower id (headings all)).flatMap (headingPart all)

def introduction (title : String) (generatedAt : Moment) : List String :=
  ["# " ++ title,
    "",
    "Generated on: " ++ generatedAt.text,
    "",
    "The documentation in this directory is generated from the source code. Edits will be removed upon regeneration.",
    "",
    "## Overview",
    "",
    "- Pages mirror the source directory structure.",
    "- Each page links back to its source file.",
    "- Parent classes, interfaces and traits link to their own pages.",
    ""]

end Page.Index

/-- The index page of a documentation tree. -/
def Page.index (title : String) (files : List ParsedFile) (generatedAt : Moment) : String :=
  Page.finish (Index.introduction title generatedAt ++ Index.contents (Index.entries files))

end PhpPages
