import LineShell.Machine.Files
import LineShell.Script.Pattern

/-!
# Names of files that match a pattern

The text of a pattern is taken apart at its slashes, and the parts are matched against the names of
files directory by directory. A name that starts with a dot is only matched by a part that does. A
pattern that matches nothing stands for itself.

This is part of the script interpreter, which stands in for the programs of a real machine. No
general result about the shell rests on it.
-/

namespace LineShell
namespace FileNames

open Script

/-- The characters of a text. -/
def plain (cs : List Marked) : Chars :=
  cs.map (·.1)

/-- A text without the backslashes that take the meaning of the characters after them. -/
def unescaped : Chars → Chars
  | '\\' :: c :: rest => c :: unescaped rest
  | c :: rest => c :: unescaped rest
  | [] => []

/-- The parts of a text between slashes. -/
def components : Chars → List Chars
  | [] => [[]]
  | '\\' :: '/' :: rest => [] :: components rest
  | '\\' :: c :: rest =>
    match components rest with
    | [] => [['\\', c]]
    | first :: more => ('\\' :: c :: first) :: more
  | '/' :: rest => [] :: components rest
  | c :: rest =>
    match components rest with
    | [] => [[c]]
    | first :: more => (c :: first) :: more

/-- Whether a bracket is closed after at least one character. -/
def closes : Chars → Bool
  | [] => false
  | '\\' :: rest =>
    match rest with
    | [] => false
    | _ :: ']' :: _ => true
    | _ :: more => closes more
  | _ :: ']' :: _ => true
  | _ :: more => closes more

/-- Whether a part of a text can match more than one name. -/
def isPattern : Chars → Bool
  | [] => false
  | '*' :: _ => true
  | '?' :: _ => true
  | '[' :: '!' :: rest => closes rest || isPattern rest
  | '[' :: rest => closes rest || isPattern rest
  | '\\' :: _ :: rest => isPattern rest
  | _ :: rest => isPattern rest

/-- Whether a path names something, if only a link that leads nowhere. -/
def isThere (d : Disk) (cwd : Location) (path : Chars) : Bool :=
  d.isLink cwd (Chars.path path) ||
    match d.find? cwd (Chars.path path) with
    | .ok _ => true
    | .error _ => false

/-- Whether a part of a pattern matches a name in a directory. -/
def matchesName (part : Chars) (name : Chars) : Bool :=
  (name.head? != some '.' || (unescaped part).head? == some '.') &&
    (Pattern.ofText part).isMatch name

/-- The paths that the parts of a pattern between slashes match, after a path that was matched
already. If there is a limit, no more directories than that can be open in one another. -/
def matching (d : Disk) (cwd : Location) : Option Nat → Chars → List Chars → List Chars
  | _, path, [] => [path]
  | limit, path, part :: rest =>
    let next (name : Chars) : Chars := path ++ name ++ if rest = [] then [] else ['/']
    if isPattern part then
      match limit, d.entries? cwd (if path = [] then "." else Chars.path path) with
      | some 0, _ => []
      | _, none => []
      | limit, some names =>
        let names := ([".", ".."] ++ names).map Chars.ofText
        (names.filter (matchesName part)).flatMap fun name =>
          matching d cwd (limit.map (· - 1)) (next name) rest
    else if rest = [] then
      if isThere d cwd (next (unescaped part)) then [next (unescaped part)] else []
    else matching d cwd limit (next (unescaped part)) rest

/-- The names that a field stands for, in increasing order; the number limits how many directories
can be open. -/
def ofField (d : Disk) (cwd : Location) (limit : Option Nat) (field : List Marked) : List Chars :=
  let parts := components (Pattern.spell false field)
  if parts.any isPattern then
    match matching d cwd limit [] parts with
    | [] => [plain field]
    | l => l.mergeSort Chars.precedes
  else [plain field]

end FileNames
end LineShell
