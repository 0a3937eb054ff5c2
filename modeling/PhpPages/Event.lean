import PhpPages.Path.Basic
import PhpPages.Php.Walk

namespace PhpPages

inductive Level where
  | debug
  | info
  | warning
  deriving DecidableEq

def Level.name : Level → String
  | debug => "DEBUG"
  | info => "INFO"
  | warning => "WARNING"

inductive Event where
  | pageShared (page : String) (first second : Path)
  | declaredTwice (fullName relativePath earlierPage : String)
  | fileSkipped (file : Path) (reason : Php.ParseError)
  | fileRead (declarations : Nat) (file : Path)
  | directoryMissing (directory : Path)
  | filesFound (count : Nat)
  | pagesWritten (count : Nat) (directory : Path)
  | sourceFar (page : String) (levels : Nat) (instead : String)
  deriving DecidableEq

namespace Event

def level : Event → Level
  | pageShared .. | declaredTwice .. | fileSkipped .. | directoryMissing .. => .warning
  | filesFound .. | pagesWritten .. => .info
  | fileRead .. | sourceFar .. => .debug

/-- The part of the program that reports the event. -/
def origin : Event → String
  | pageShared .. | declaredTwice .. => "php_autodoc.class_map"
  | fileSkipped .. | fileRead .. => "php_autodoc.declaration_extractor"
  | directoryMissing .. => "php_autodoc.directory_scanner"
  | filesFound .. | pagesWritten .. => "php_autodoc.generate_docs"
  | sourceFar .. => "php_autodoc.path_resolver"

def message : Event → String
  | pageShared page first second =>
    s!"Page {page} is generated from both {first} and {second}; the later one wins"
  | declaredTwice fullName relativePath earlierPage =>
    s!"Duplicate declaration {fullName} in {relativePath} (already documented in {earlierPage})"
  | fileSkipped file reason => s!"Skipping {file}: {reason.message}"
  | fileRead declarations file => s!"Extracted {declarations} declarations from {file}"
  | directoryMissing directory => s!"Source directory not found, skipping: {directory}"
  | filesFound count => s!"Found {count} source files"
  | pagesWritten count directory => s!"Wrote {count} pages into {directory}"
  | sourceFar page levels instead =>
    s!"Source link for {page} needs {levels} levels up; using {instead}"

/-- The event as one line of a log. -/
def line (e : Event) : String :=
  s!"{e.level.name} {e.origin}: {e.message}"

end Event

end PhpPages
