import Std.Time.Zoned
import PhpPages.Command.Run

namespace PhpPages.Disk

def pathText (location : Location) : String :=
  (Path.at location).text

def locationOf (text : String) : Location :=
  (Path.ofText text).segments

/-- What stands in a directory, and if `deep` also what stands below that. Of a link only the place
that it leads to is known; one that leads nowhere is left out. -/
partial def entriesIn (deep : Bool) (location : Location) : IO (List (Location × Entry)) := do
  let mut found := []
  for item in ← (← IO.FS.realPath (pathText location)).readDir do
    let there := location ++ [item.fileName]
    match (← item.path.symlinkMetadata).type with
    | .dir =>
      let inside ← if deep then entriesIn deep there else pure []
      found := (there, .directory) :: inside ++ found
    | .file => found := (there, .file (← IO.FS.readBinFile item.path)) :: found
    | .symlink =>
      let target := toString (← IO.FS.realPath item.path)
      if target ≠ toString item.path then found := (there, .link target) :: found
    | .other => pure ()
  return found

/-- The directories on the way to a location. -/
def wayTo (location : Location) : List (Location × Entry) :=
  (List.range location.length).map fun n => (location.take (n + 1), .directory)

/-- The location of a directory, if there is one. -/
def directoryAt? (text : String) : IO (Option Location) := do
  let place ← IO.FS.realPath text
  return if ← place.isDir then some (locationOf (toString place)) else none

/-- A picture of what a command line can reach: all of the project, and what stands beside the
settings. A command line that does not ask for a run reaches nothing. -/
def picture (arguments : List String) : IO FileSystem := do
  let here := locationOf (toString (← IO.currentDir))
  match Command.readArguments arguments with
  | .options o =>
    let project := (← directoryAt? (o.projectRoot.getD ".")).getD here
    let beside := (← directoryAt? (Path.ofText (o.config.getD "")).parent.text).getD here
    let inside := (← entriesIn true project) ++ (← entriesIn false beside)
    let entries := wayTo here ++ wayTo project ++ wayTo beside ++ inside
    return { entries := entries.eraseDupsBy fun a b => a.1 == b.1, here := some here }
  | _ => return { here := some here }

/-- Carries what has changed between two pictures over to the disk: what is gone first, from the
deepest on, and then what is new, from the outermost on. -/
def carryOver (before after : FileSystem) : IO Unit := do
  let gone := before.entries.filter fun e => (after.entry? e.1).isNone
  for (location, entry) in gone.mergeSort fun a b => b.1.length ≤ a.1.length do
    match entry with
    | .directory => IO.FS.removeDir (pathText location)
    | _ => IO.FS.removeFile (pathText location)
  let fresh := after.entries.filter fun e => before.entry? e.1 ≠ some e.2
  for (location, entry) in fresh.mergeSort fun a b => a.1.length ≤ b.1.length do
    match entry with
    | .directory => IO.FS.createDir (pathText location)
    | .file content => IO.FS.writeBinFile (pathText location) content
    | .link _ => pure ()

/-- The local time. -/
def now : IO Moment := do
  let t ← Std.Time.PlainDateTime.now
  return {
    year := t.date.year.toInt.toNat
    month := t.date.month.toNat
    day := t.date.day.toNat
    hour := t.time.hour.toNat
    minute := t.time.minute.toNat
    second := t.time.second.toNat }

/-- The exit code of a run. One that ends without a code has failed. -/
def exitCode : Command.Ending → UInt32
  | .code n => UInt32.ofNat n
  | _ => 1

end PhpPages.Disk

open PhpPages in
/-- Runs the command line on a picture of the directories that it can reach, and carries the changes
over to the disk. -/
def main (arguments : List String) : IO UInt32 := do
  let before ← Disk.picture arguments
  let outcome := Command.run before arguments (← Disk.now)
  Disk.carryOver before outcome.files
  IO.print outcome.output
  IO.eprint outcome.errors
  return Disk.exitCode outcome.ending
