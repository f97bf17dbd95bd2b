import LineShell.Failure
import LineShell.Host
import LineShell.Path
import LineShell.Text.Blank

/-!
# Startup files

When it starts, the shell runs the lines of a startup file: the one given on its command line, or
the one in the home directory. Blanks around a line do not count, and lines that are empty or start
with a number sign are passed over. A missing file has no lines. If a history file is named, the
session starts from it and is saved to it.
-/

namespace LineShell

/-- The files a session starts from. -/
structure Startup where
  /-- The file whose lines are run first. -/
  file : Option String
  /-- The file that keeps the history between sessions. -/
  historyFile : Option String
  deriving DecidableEq, Repr

namespace Startup

/-- The name of the startup file in the home directory. -/
def fileName : String := ".conchrc"

/-- The files for a home directory, a startup file that is asked for, and a history file; an empty
name for the history file is none. -/
def ofSettings (home asked historyFile : Option String) : Startup where
  file := asked <|> home.map (Path.join · fileName)
  historyFile := historyFile.filter (· ≠ "")

/-- The line that is run for a line of a startup file. -/
def command? (line : List Char) : Option String :=
  match Text.trim line with
  | [] => none
  | '#' :: _ => none
  | cs => some (String.ofList cs)

/-- The lines that are run for the text of a startup file. -/
def commandsOf (text : String) : List String :=
  (text.toList.splitOn '\n').filterMap command?

/-- The lines that are run first. -/
def commands {σ : Type} [Host σ] (cfg : Startup) (s : σ) : Except FileError (List String) :=
  match cfg.file with
  | none => .ok []
  | some path =>
    match Host.read s path with
    | .error e => if e.kind = .notFound then .ok [] else .error ⟨path, e⟩
    | .ok b =>
      match Bytes.text? b with
      | none => .error ⟨path, .notText⟩
      | some text => .ok (commandsOf text)

end Startup
end LineShell
