import LineShell.Machine.Streams

/-!
# Setting machines up and looking at what they did

A disk is filled node by node, with the directories above each node made as needed. Two states of
a disk are compared by what the later one holds differently.
-/

namespace LineShell
namespace Disk

/-- Stores a node where a path leads from a directory, with the directories above it. Links are
followed on the way, but not at the end of the path. -/
def install (cwd : Location) (path : String) (node : Node) (d : Disk) : Disk :=
  let names := Walk.names path
  let start := Walk.origin cwd path
  let d := (makeDirsBack start names.dropLast.reverse d).2
  match names.getLast?, Walk.run d start names.dropLast with
  | some name, .ok (.found dir) =>
    if name = "" ∨ name = "." ∨ name = ".." then d else d.put (dir ++ [name]) node
  | _, _ => d

/-- Makes the directory that a path names, with those above it. -/
def installDirectory (cwd : Location) (path : String) (d : Disk) : Disk :=
  (d.makeDirs cwd path).2

/-- The names that lead from one location to another below it. -/
def below? (dir place : Location) : Option (List String) :=
  match dir.isPrefixOf? place with
  | some [] => none
  | rest => rest

/-- What is stored below a location and was not stored there before, with the path from there. -/
def changes (dir : Location) (before after : Disk) : List (String × Node) :=
  after.nodes.filterMap fun (place, node) =>
    match below? dir place with
    | none => none
    | some names =>
      if before.get? place = some node then none else some ("/".intercalate names, node)

end Disk

namespace Machine

/-- A machine with a disk, started in the directory of a path with some variables. -/
def ofDisk (d : Disk) (cwd : String) (settings : List (String × String)) (input : Bytes) :
    Machine :=
  let disk := d.tick
  match d.find? [] cwd with
  | .ok (place, .directory) => { disk, cwd := place, settings, input }
  | _ => { disk, settings, input }

/-- The directory in which the shell was started. -/
def workingDirectory (m : Machine) : String :=
  pathOf m.cwd

/-- The machine with nothing written to its streams yet. -/
def clearStreams (m : Machine) : Machine :=
  { m with output := [], errors := [] }

end Machine
end LineShell
