/-!
# Paths as text

A path is kept as it was spelled: joining does not tidy it, so repeated slashes, dots and a
trailing slash stay where they were typed. `join` puts a relative path after a directory with one
slash between them; an absolute path stands on its own.

`normalize` folds a path without looking at any file. It reads the path's parts from the left and
works on a text, which is the root at first if the path starts there, and empty if it does not:

| part       | effect on the text                             |
|------------|------------------------------------------------|
| a name     | is joined to it                                |
| `.`, empty | nothing                                        |
| `..`       | its last name is taken off, if there is one    |

`expand` puts the home directory in the place of a leading tilde, and `resolve` gives the normal
form of an expanded path as seen from a working directory.
-/

namespace LineShell
namespace Path

/-- Whether a path starts at the root. -/
def isAbsolute (p : String) : Bool :=
  p.toList.head? == some '/'

/-- A path as seen from a directory. -/
def join (dir p : String) : String :=
  if isAbsolute p then p
  else if dir.toList = [] ∨ dir.toList.getLast? = some '/' then dir ++ p
  else dir ++ "/" ++ p

/-- The texts between the slashes of a path that are neither empty nor a single dot. -/
def parts (p : String) : List String :=
  ((p.toList.splitOn '/').filter fun s => s ≠ [] ∧ s ≠ ['.']).map String.ofList

/-- The texts between the slashes of a path, the last one first, without those at the end that lead
nowhere: empty ones, and dots except for one at the very start. -/
def dropIdle : List (List Char) → List (List Char)
  | [] => []
  | [t] => if t = [] then [] else [t]
  | t :: above => if t = [] ∨ t = ['.'] then dropIdle above else t :: above

/-- The path without its last part, unless there is none. What stands before that part is kept as it
is spelled, up to the part before. -/
def parent? (p : String) : Option String :=
  match dropIdle (p.toList.splitOn '/').reverse with
  | [] => none
  | _ :: above =>
    match dropIdle above with
    | [] => some (if isAbsolute p then "/" else "")
    | ts => some (String.ofList (List.intercalate ['/'] ts.reverse))

/-- The path without its last part, if it has one. -/
def pop (p : String) : String :=
  (parent? p).getD p

/-- One level down or up from a path. -/
def follow (p part : String) : String :=
  if part = ".." then pop p else join p part

/-- The path with every `.` and `..` folded, as its spelling alone tells. -/
def normalize (p : String) : String :=
  (parts p).foldl follow (if isAbsolute p then "/" else "")

/-- A path without its leading tilde, if the home directory stands for that: the path is a tilde,
or a tilde and a slash come first. -/
def belowHome? (p : String) : Option (List Char) :=
  match p.toList with
  | ['~'] => some []
  | '~' :: '/' :: rest => some rest
  | _ => none

/-- The home directory is not known. -/
inductive HomeError where
  /-- There is no home directory to put in the place of a tilde. -/
  | notFound
  deriving DecidableEq, Repr

/-- The path with the home directory in the place of a leading tilde. A tilde before a user's name
is not expanded. -/
def expand (home : Option String) (p : String) : Except HomeError String :=
  match belowHome? p, home with
  | none, _ => .ok p
  | some _, none => .error .notFound
  | some rest, some home =>
    .ok (((rest.splitOn '/').filter (· ≠ [])).foldl (fun d s => join d (String.ofList s)) home)

/-- The normal form of a path as seen from a working directory, tilde expanded. -/
def resolve (home : Option String) (cwd p : String) : Except HomeError String :=
  (expand home p).map fun q => normalize (join cwd q)

end Path
end LineShell
