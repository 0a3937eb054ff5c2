import PhpPages.FileSystem.Lookup

namespace PhpPages.FileSystem

/-- Makes a directory in a directory that exists. -/
def makeDirectory (fs : FileSystem) (p : Path) : Except Fault FileSystem :=
  match fs.lookup false p with
  | .free location => .ok (fs.insert location .directory)
  | .entry _ _ => .error .occupied
  | .nowhere fault => .error fault

/-- Makes a directory and its ancestors as far as they are missing. The segments of the path are
given from the last to the first. -/
def makeDirectoriesFrom (anchor : Anchor) (fs : FileSystem) : List String → Except Fault FileSystem
  | [] => if fs.isDirectory ⟨anchor, []⟩ then .ok fs else .error .missing
  | last :: above =>
    let p : Path := ⟨anchor, (last :: above).reverse⟩
    match fs.makeDirectory p with
    | .ok changed => .ok changed
    | .error .missing => do
      let changed ← makeDirectoriesFrom anchor fs above
      changed.makeDirectory p
    | .error fault => if fs.isDirectory p then .ok fs else .error fault

def makeDirectories (fs : FileSystem) (p : Path) : Except Fault FileSystem :=
  makeDirectoriesFrom p.anchor fs p.segments.reverse

/-- Removes everything below a directory. Links below it are removed, not followed. -/
def clearDirectory (fs : FileSystem) (p : Path) : Except Fault FileSystem :=
  if !fs.mayDelete then .error .forbidden
  else
    match fs.lookup false p with
    | .entry location .directory => .ok (fs.clear location)
    | .entry _ (.link _) => .error .isLink
    | .entry _ (.file _) => .error .notDirectory
    | .free _ => .error .missing
    | .nowhere fault => .error fault

/-- Removes a directory that has nothing below it. -/
def removeDirectory (fs : FileSystem) (p : Path) : Except Fault FileSystem :=
  match fs.lookup false p with
  | .entry location .directory =>
    if (fs.below location).isEmpty then .ok (fs.erase location) else .error .occupied
  | .entry _ _ => .error .notDirectory
  | .free _ => .error .missing
  | .nowhere fault => .error fault

/-- Writes a file, making it if there is none. -/
def write (fs : FileSystem) (p : Path) (content : ByteArray) : Except Fault FileSystem :=
  match fs.lookup true p with
  | .entry location (.file _) => .ok (fs.insert location (.file content))
  | .entry _ _ => .error .isDirectory
  | .free location => .ok (fs.insert location (.file content))
  | .nowhere fault => .error fault

end PhpPages.FileSystem
