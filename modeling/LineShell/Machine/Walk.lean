import LineShell.Machine.Disk
import LineShell.OsError

/-!
# Walking a path

A path is walked name by name from a starting directory, or from the root if it begins with a
slash. Links are followed wherever they stand, at most forty of them in one walk. A slash at the
end, of the path or of a link's target, asks for a directory, as a dot after it would. Something
that is to be made by a walk cannot be asked to be a directory.

The walk ends at something that is stored, or at the one name that is missing from a directory;
only the last name may be missing. On the way:

| met                                    | error                     |
|----------------------------------------|---------------------------|
| a name that is missing, and not last   | no such file              |
| something that is no directory, and not last | not a directory     |
| a name of more than 255 bytes          | the name is too long      |
| too many links                         | too many links            |
| a slash after the name of what is to be made | it is a directory   |
-/

namespace LineShell

/-- Where a walk ends. -/
inductive Spot where
  /-- At something that is stored. -/
  | found (place : Location)
  /-- At a name that is missing from a directory. -/
  | missing (dir : Location) (name : String)
  deriving DecidableEq, Repr

namespace Walk

/-- The names in a path, dots included. A slash at the end counts as an empty name after it. -/
def names (path : String) : List String :=
  let cs := path.toList
  ((cs.splitOn '/').filter (· ≠ [])).map String.ofList ++
    if cs.getLast? = some '/' then [""] else []

/-- Where the walk of a path starts. -/
def origin (cwd : Location) (path : String) : Location :=
  if path.toList.head? = some '/' then [] else cwd

/-- Whether a name is longer than a disk can hold. -/
def tooLong (name : String) : Bool :=
  255 < name.utf8ByteSize

/-- Walks names from a location; `follow` goes on at a link, from the directory that holds it, with
its target and the names after it. `making` tells whether what the names lead to is to be made. -/
def steps (d : Disk) (making : Bool)
    (follow : Location → String → List String → Except OsError Spot) :
    Location → List String → Except OsError Spot
  | here, [] => .ok (.found here)
  | here, name :: rest =>
    if !d.isDirectory here then .error .notDirectory
    else if name = "." ∨ name = "" then steps d making follow here rest
    else if making ∧ rest = [""] then .error .isDirectory
    else if name = ".." then steps d making follow here.dropLast rest
    else if tooLong name then .error .nameTooLong
    else
      match d.get? (here ++ [name]) with
      | none => if rest = [] then .ok (.missing here name) else .error .noEntry
      | some (.link target) => follow here target rest
      | some _ => steps d making follow (here ++ [name]) rest

/-- Walks names from a location through at most the given number of links. -/
def through (d : Disk) (making : Bool) : Nat → Location → List String → Except OsError Spot
  | 0 => steps d making fun _ _ _ => .error .tooManyLinks
  | links + 1 => steps d making fun here target rest =>
      through d making links (origin here target) (names target ++ rest)

/-- How many links a walk may go through. -/
def maxLinks : Nat := 40

/-- Walks names from a location. -/
def run (d : Disk) (here : Location) (ns : List String) : Except OsError Spot :=
  through d false maxLinks here ns

/-- Walks names from a location to something that is to be made if it is missing. -/
def runToMake (d : Disk) (here : Location) (ns : List String) : Except OsError Spot :=
  through d true maxLinks here ns

/-- Whether a path can be handed to the disk at all. -/
def check (path : String) : Except OsError Unit :=
  if path.toList.contains '\x00' then .error .nulInPath
  else if path.toList = [] then .error .noEntry
  else if 4095 < path.utf8ByteSize then .error .nameTooLong
  else .ok ()

/-- Where a path leads from a directory. -/
def path (d : Disk) (cwd : Location) (p : String) : Except OsError Spot :=
  match check p with
  | .error e => .error e
  | .ok _ => run d (origin cwd p) (names p)

end Walk
end LineShell
