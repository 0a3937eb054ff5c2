import PhpPages.FileSystem.Lookup
import PhpPages.Path.Segments
import PhpPages.Text.Quoted

/-!
Resolution of paths: the location that a path denotes once every link in it is followed. Strictly,
each segment has to exist. Leniently, what does not exist is kept as it is written. In both cases a
double dot drops the last segment of what has been resolved, whatever that is.
-/

namespace PhpPages

/-- Why a path cannot be resolved, with the path at which the failure shows. -/
inductive ResolveError where
  | missing (path : Path)
  | notDirectory (path : Path)
  | loop (path : Path)
  | nullCharacter
  deriving DecidableEq

def ResolveError.message : ResolveError → String
  | missing path => "[Errno 2] No such file or directory: " ++ Text.quoted path.text
  | notDirectory path => "[Errno 20] Not a directory: " ++ Text.quoted path.text
  | loop path => "Symlink loop from " ++ Text.quoted path.text
  | nullCharacter => "embedded null byte"

/-- A location together with the path that errors show for it. -/
structure Reached where
  location : Location
  shown : Path

namespace Reached

def root : Reached := ⟨[], ⟨.root, []⟩⟩

def down (r : Reached) (name : String) : Reached :=
  ⟨r.location ++ [name], ⟨r.shown.anchor, r.shown.segments ++ [name]⟩⟩

/-- One level up. A relative path from which nothing can be dropped gets a double dot. -/
def up (r : Reached) : Reached :=
  let segments := r.shown.segments
  let shown :=
    if r.shown.isAbsolute || (!segments.isEmpty && segments.getLast? ≠ some "..") then
      segments.dropLast
    else segments ++ [".."]
  ⟨r.location.dropLast, ⟨r.shown.anchor, shown⟩⟩

end Reached

/-- The result of following a path. A path that runs into a loop leniently ends as a list of raw
pieces from the root. -/
inductive Followed where
  | reached (r : Reached)
  | looped (pieces : List String)
  | failed (e : ResolveError)

namespace FileSystem

/-- Whether a file stands in the way to a location. -/
def isBlocked (fs : FileSystem) (location : Location) : Bool :=
  (List.range location.length).any fun n =>
    match fs.entry? (location.take n) with
    | some (.file _) => true
    | _ => false

/-- The entry at a location. When there is none, either something is missing or a file
stands in the way. -/
def status (fs : FileSystem) (location : Location) : Except Fault Entry :=
  match fs.entry? location with
  | some entry => .ok entry
  | none => .error (if fs.isBlocked location then .notDirectory else .missing)

/-- The error for a location that cannot be entered. -/
def obstacle (shown : Path) : Fault → ResolveError
  | .notDirectory => .notDirectory shown
  | _ => .missing shown

/-- The error for a link that leads back to itself. -/
def loopError (fs : FileSystem) (r : Reached) : ResolveError :=
  match fs.lookup true (Path.at r.location) with
  | .nowhere .notDirectory => .notDirectory r.shown
  | _ => .loop r.shown

/-- Raw pieces with more pieces behind them. An empty piece in front of others is a slash at the
front, which leads back to the root. -/
def joinRaw (pieces rest : List String) : List String :=
  match rest with
  | "" :: _ :: _ => rest
  | _ => pieces ++ rest

/-- Follows the pieces of a path. `pending` are the links being followed, and `enter` follows the
target of one more. -/
def follow (fs : FileSystem) (strict : Bool)
    (enter : List Location → Reached → List String → Followed) (pending : List Location)
    (r : Reached) : List String → Followed
  | [] => .reached r
  | piece :: rest =>
    if piece.isEmpty || piece == "." then follow fs strict enter pending r rest
    else if piece = ".." then follow fs strict enter pending r.up rest
    else if piece.toList.contains '\x00' then .failed .nullCharacter
    else
      let next := r.down piece
      match fs.status next.location with
      | .error fault =>
        if strict then .failed (obstacle next.shown fault)
        else follow fs strict enter pending next rest
      | .ok (.link target) =>
        if pending.contains next.location then
          if strict then .failed (fs.loopError next) else .looped (joinRaw next.location rest)
        else
          let start := if target.toList.head? = some '/' then Reached.root else r
          match enter (next.location :: pending) start (Text.pieces '/' target) with
          | .reached reached => follow fs strict enter pending reached rest
          | .looped pieces => .looped (joinRaw pieces rest)
          | .failed e => .failed e
      | .ok _ => follow fs strict enter pending next rest

/-- Follows a path through links nested at most to the given depth. The number of links is enough,
because no link is entered while it is pending. -/
def followLinks (fs : FileSystem) (strict : Bool) :
    Nat → List Location → Reached → List String → Followed
  | 0 => follow fs strict fun _ _ _ => .looped []
  | depth + 1 => follow fs strict (followLinks fs strict depth)

/-- Where a path starts: at the root or in the working directory, if that is not gone. -/
def startOf (fs : FileSystem) (p : Path) : Option Reached :=
  if p.isAbsolute then some Reached.root else fs.here.map fun here => ⟨here, {}⟩

/-- The location that a path denotes. Leniently, a path that runs into a loop is taken without
following links, and it is an error if nothing can be reached that way. -/
def resolve (fs : FileSystem) (strict : Bool) (p : Path) : Except ResolveError Location :=
  match fs.startOf p with
  | none => .error (.missing p)
  | some start =>
    match followLinks fs strict fs.linkCount [] start p.segments with
    | .reached r => .ok r.location
    | .failed e => .error e
    | .looped pieces =>
      let location := Segments.collapse pieces
      if location.any (·.toList.contains '\x00') then .error .nullCharacter
      else
        match fs.lookup true (Path.at location) with
        | .nowhere .tooManyLinks => .error (.loop (Path.at location))
        | _ => .ok location

def resolveStrict (fs : FileSystem) (p : Path) : Except ResolveError Location :=
  fs.resolve true p

def resolveLenient (fs : FileSystem) (p : Path) : Except ResolveError Location :=
  fs.resolve false p

end FileSystem

end PhpPages
