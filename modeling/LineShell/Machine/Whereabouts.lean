import LineShell.Machine.Declare

/-!
# Commands about the working directory

A process knows the directory it works in and the path by which it came there. A path is followed
as it is written: `..` takes back the name before it, whatever that name leads to.

This is part of the script interpreter, which stands in for the programs of a real machine. No
general result about the shell rests on it.
-/

namespace LineShell
namespace Machine
namespace Command

open Script

/-- The names of a path from the root, with dots worked out, the last one first. -/
def backNames : List Chars → List Chars → List Chars
  | done, [] => done
  | done, name :: rest =>
    if name = [] ∨ name = ['.'] then backNames done rest
    else if name = ['.', '.'] then backNames done.tail rest
    else backNames (name :: done) rest

/-- Where a path leads from another path, as it is written. -/
def follow (start path : Chars) : Chars :=
  let names := (if path.head? = some '/' then [] else start.splitOn '/') ++ path.splitOn '/'
  let doubled := match path with
    | '/' :: '/' :: c :: _ => c != '/'
    | ['/', '/'] => true
    | _ => false
  let body := (backNames [] names).reverse.flatMap ('/' :: ·)
  (if doubled then ['/'] else []) ++ if body = [] then ['/'] else body

/-- Goes to a directory; `actual` tells whether links on the way are replaced by where they lead. -/
def goTo (actual : Bool) (dest : Chars) (p : Process) (m : Machine) : Option Process :=
  let path := if actual then dest else follow p.path dest
  match m.disk.find? p.dir (Chars.path path) with
  | .ok (dir, .directory) =>
    let path := if actual then Chars.ofText (pathOf dir) else path
    let exported (value : Chars) : Variable := { value := some value, exported := true }
    let scope := (p.scope.put "OLDPWD" (exported p.path)).put "PWD" (exported path)
    let programs := scope.programs.map fun (name, f) => (name, { f with stale := true })
    some { p with dir, path, scope := { scope with programs } }
  | _ => none

/-- Whether a path is looked for in the directories of `CDPATH`. -/
def isSearched (dest : Chars) : Bool :=
  dest.head? != some '/' &&
    !(match dest.splitOn '/' with
      | first :: _ => first == ['.'] || first == ['.', '.']
      | [] => false)

/-- The path to go to if none is given. -/
def orHere (dest : Chars) : Chars :=
  if dest = [] then ['.'] else dest

/-- The directories of `CDPATH` in which a path leads to a directory, as paths, each with whether
the new path is printed. -/
def searched (dest : Chars) (p : Process) (m : Machine) : List (Chars × Bool) :=
  match if isSearched dest then p.scope.value? "CDPATH" else none with
  | none => []
  | some l =>
    let paths := (l.splitOn ':').map fun dir => (joinPath dir (orHere dest), dir != [])
    paths.filter fun (path, _) => m.disk.kind? p.dir (Chars.path path) == some .directory

/-- `cd` -/
def changeDirectory : Command :=
  withOptions "LP" "" fun found args process machine =>
    let actual := (found.getLast?.map (·.1)) = some 'P'
    let back := args.head? = some ['-']
    let dest := match args.head? with
      | none => (process.scope.value? "HOME").getD []
      | some dest => if back then (process.scope.value? "OLDPWD").getD [] else dest
    let (path, shown) := (searched dest process machine).headD (orHere dest, false)
    match goTo actual path process machine with
    | none => failing ("can't cd to " ++ Chars.text dest) args process machine
    | some process =>
      { process, machine, out := if back || shown then [.text (process.path ++ ['\n'])] else [] }

/-- `pwd` -/
def workingDirectory : Command :=
  withOptions "LP" "" fun found args p m =>
    let actual := (found.getLast?.map (·.1)) = some 'P'
    printing ((if actual then Chars.ofText (pathOf p.dir) else p.path) ++ ['\n']) args p m

end Command
end Machine
end LineShell
