import PhpPages.Declaration
import PhpPages.Event

namespace PhpPages

/-- Pages by full class name, the latest entry first. -/
abbrev ClassMap := List (String × String)

namespace ClassMap

/-- The page owners known so far, the map and what was reported. -/
structure Progress where
  owners : List (String × Path) := []
  pages : ClassMap := []
  events : List Event := []

/-- Enters one declaration of a file. -/
def Progress.declare (file : ParsedFile) (p : Progress) (d : Declaration) : Progress :=
  let events := match p.pages.lookup d.fullName with
    | some earlier =>
      if earlier = file.pagePath then [] else [.declaredTwice d.fullName file.relativePath earlier]
    | none => []
  { p with pages := (d.fullName, file.pagePath) :: p.pages, events := p.events ++ events }

/-- Makes a file the owner of its page, unless the page has one. -/
def Progress.occupy (file : ParsedFile) (p : Progress) : Progress :=
  match p.owners.lookup file.pagePath with
  | some owner =>
    if owner = file.sourcePath then p
    else { p with events := p.events ++ [.pageShared file.pagePath owner file.sourcePath] }
  | none => { p with owners := (file.pagePath, file.sourcePath) :: p.owners }

/-- Enters one file. A file without declarations has no page. -/
def Progress.add (p : Progress) (file : ParsedFile) : Progress :=
  if file.declarations.isEmpty then p
  else file.declarations.foldl (Progress.declare file) (p.occupy file)

def progress (files : List ParsedFile) : Progress :=
  files.foldl Progress.add {}

/-- The class map of all files. When several files declare a class, the last one wins. -/
def ofFiles (files : List ParsedFile) : ClassMap :=
  (progress files).pages

/-- What is reported while the map is built. -/
def eventsOf (files : List ParsedFile) : List Event :=
  (progress files).events

end ClassMap

end PhpPages
