import LineShell.Host
import LineShell.Names
import LineShell.Path

/-!
# The search path

A command name without a slash is looked up in a list of directories, and the first executable
file of that name is meant. `find?` looks one name up; `listAll` finds every name that can be
looked up, with the file it stands for.
-/

namespace LineShell

/-- The directories in which programs are looked up, in order. -/
structure SearchPath where
  /-- The directories. -/
  dirs : List String
  /-- None of them is spelled as nothing. -/
  spelled : "" ∉ dirs
  deriving DecidableEq, Repr

namespace SearchPath

/-- The directories of a value that separates them by colons; empty ones are passed over. -/
def ofValue (value : Option String) : SearchPath :=
  match value with
  | none => ⟨[], List.not_mem_nil⟩
  | some v => ⟨((v.toList.splitOn ':').filter (· ≠ [])).map String.ofList, by simp⟩

variable {σ : Type} [Host σ]

/-- Whether a name can be looked up: it is not empty and holds no slash. -/
def isBare (name : String) : Bool :=
  name.toList ≠ [] && !name.toList.contains '/'

/-- The first executable file of a name. -/
def find? (sp : SearchPath) (s : σ) (name : String) : Option String :=
  if isBare name then (sp.dirs.map (Path.join · name)).find? (Host.isExecutable s) else none

/-- The executable files of a directory, each with its name; none if it cannot be read. -/
def executables (s : σ) (dir : String) : List (String × String) :=
  match Host.entries? s dir with
  | none => []
  | some names =>
    (names.map fun n => (n, Path.join dir n)).filter fun e => Host.isExecutable s e.2

/-- Every executable file with its name, in the order of the names. Of several files of one name,
the one in the earliest directory counts. -/
def listAll (sp : SearchPath) (s : σ) : List (String × String) :=
  Names.sortedBy Prod.fst (sp.dirs.flatMap (executables s))

end SearchPath
end LineShell
