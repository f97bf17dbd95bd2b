import LineShell.Machine.Walk
import LineShell.Host
import LineShell.Path

/-!
# Files on a disk

Looking at files, reading them, making them and opening them for writing. Paths are walked from a
directory `cwd`; links are followed, except where a directory is to be made at one.

A file is opened for writing at a location, which is made if it is missing. It cannot be opened at
a directory, nor by a path that ends in a slash. What is written goes where the last writing
through the same opening ended, or always to the end.
-/

namespace LineShell
namespace Disk

/-- What is stored where a path leads, if anything. -/
def find? (d : Disk) (cwd : Location) (path : String) : Except OsError (Location × Node) :=
  match Walk.path d cwd path with
  | .error e => .error e
  | .ok (.missing _ _) => .error .noEntry
  | .ok (.found place) =>
    match d.get? place with
    | none => .error .noEntry
    | some node => .ok (place, node)

/-- What the shell sees of a node. -/
def kindOf : Node → FileKind
  | .directory => .directory
  | .file _ mode => .file mode.executable
  | .interpreter => .file true
  | .link _ => .other
  | .device _ => .other

/-- What a path names. -/
def kind? (d : Disk) (cwd : Location) (path : String) : Option FileKind :=
  match d.find? cwd path with
  | .error _ => none
  | .ok (_, node) => some (kindOf node)

/-- The names in the directory that a path names. -/
def entries? (d : Disk) (cwd : Location) (path : String) : Option (List String) :=
  match d.find? cwd path with
  | .ok (place, .directory) => some (d.names place)
  | _ => none

/-- What the file holds that a path names. -/
def read (d : Disk) (cwd : Location) (path : String) : Except OsError Bytes :=
  match d.find? cwd path with
  | .error e => .error e
  | .ok (_, .file content _) => .ok content
  | .ok (_, .directory) => .error .isDirectory
  | .ok _ => .ok []

/-- Makes one directory; the directory above it has to be there, and it must not be there itself. -/
def makeDir (d : Disk) (start : Location) (above : List String) (name : String) :
    Except OsError Disk :=
  match Walk.run d start above with
  | .error e => .error e
  | .ok (.missing _ _) => .error .noEntry
  | .ok (.found dir) =>
    if !d.isDirectory dir then .error .notDirectory
    else if name = "" ∨ name = "." ∨ name = ".." then .error .alreadyExists
    else if Walk.tooLong name then .error .nameTooLong
    else if (d.get? (dir ++ [name])).isSome then .error .alreadyExists
    else .ok (d.put (dir ++ [name]) .directory)

/-- Whether names lead to a directory. -/
def leadsToDirectory (d : Disk) (start : Location) (names : List String) : Bool :=
  match Walk.run d start names with
  | .ok (.found place) => d.isDirectory place
  | _ => false

/-- Makes one directory, unless it is there already. -/
def ensureDir (d : Disk) (start : Location) (above : List String) (name : String) :
    Except OsError Disk :=
  match d.makeDir start above name with
  | .ok d => .ok d
  | .error e => if d.leadsToDirectory start (above ++ [name]) then .ok d else .error e

/-- Makes a directory and those above it, as far as they are missing. The names that lead to it are
given from the last one back. -/
def makeDirsBack (start : Location) : List String → Disk → Except OsError Unit × Disk
  | [], d => (.ok (), d)
  | name :: above, d =>
    match d.ensureDir start above.reverse name with
    | .ok d => (.ok (), d)
    | .error e =>
      if e ≠ .noEntry then (.error e, d)
      else
        match makeDirsBack start above d with
        | (.error e, d) => (.error e, d)
        | (.ok _, d) =>
          match d.ensureDir start above.reverse name with
          | .ok d => (.ok (), d)
          | .error e => (.error e, d)

/-- Makes the directory that a path names and those above it, as far as they are missing. -/
def makeDirs (d : Disk) (cwd : Location) (path : String) : Except OsError Unit × Disk :=
  if path = "" then (.ok (), d)
  else
    match Walk.check path with
    | .error e => (.error e, d)
    | .ok _ => makeDirsBack (Walk.origin cwd path) (Walk.names path).reverse d

/-- Opens what is stored at a location for writing. -/
def openAt (d : Disk) (place : Location) (mode : WriteMode) : Except OsError Location × Disk :=
  match d.get? place, mode with
  | some .directory, _ => (.error .isDirectory, d)
  | some (.file _ mode), .truncate => (.ok place, d.put place (.file [] mode))
  | some .interpreter, _ => (.error .noAccess, d)
  | _, _ => (.ok place, d)

/-- Opens a file for writing and makes it if it is missing; gives its location. -/
def create (d : Disk) (cwd : Location) (path : String) (mode : WriteMode) :
    Except OsError Location × Disk :=
  match Walk.check path with
  | .error e => (.error e, d)
  | .ok _ =>
    match Walk.runToMake d (Walk.origin cwd path) (Walk.names path) with
    | .error e => (.error e, d)
    | .ok (.missing dir name) =>
      (.ok (dir ++ [name]), d.put (dir ++ [name]) (.file [] {}))
    | .ok (.found place) => d.openAt place mode

/-- Whether a path names a link itself. -/
def isLink (d : Disk) (cwd : Location) (path : String) : Bool :=
  let names := Walk.names path
  match names.getLast?, Walk.run d (Walk.origin cwd path) names.dropLast with
  | some name, .ok (.found dir) =>
    match d.get? (dir ++ [name]) with
    | some (.link _) => true
    | _ => false
  | _, _ => false

end Disk

/-- An open file. -/
structure OpenFile where
  /-- Where it is stored. -/
  place : Location
  /-- Where the next reading or writing starts. -/
  offset : Nat := 0
  /-- Whether writing always goes to the end. -/
  append : Bool := false
  /-- Whether it can be written to. -/
  writable : Bool := true
  /-- Whether it can be read from. -/
  readable : Bool := true
  deriving DecidableEq, Repr

namespace OpenFile

/-- Bytes with some of them replaced from an offset on. A gap is filled with zeros. -/
def splice (old : Bytes) (offset : Nat) (new : Bytes) : Bytes :=
  (old.take offset).rightpad offset 0 ++ new ++ old.drop (offset + new.length)

/-- Writes to an open file. -/
def write (f : OpenFile) (b : Bytes) (d : Disk) : Except OsError OpenFile × Disk :=
  match d.get? f.place with
  | some (.file content mode) =>
    let start := if f.append then content.length else f.offset
    (.ok { f with offset := start + b.length },
      d.put f.place (.file (splice content start b) mode))
  | some (.device .full) => if b = [] then (.ok f, d) else (.error .noSpace, d)
  | _ => (.ok f, d)

/-- What is left to be read of an open file. -/
def left (f : OpenFile) (d : Disk) : Except OsError Bytes :=
  if !f.readable then .error .badDescriptor
  else
    match d.get? f.place with
    | some (.file content _) => .ok (content.drop f.offset)
    | some .directory => .error .isDirectory
    | _ => .ok []

end OpenFile
end LineShell
