import LineShell.Command
import LineShell.Completion.Match
import LineShell.Text.Blank

/-!
# Completing the line

The word to be completed is what stands between the last space before the cursor and the cursor.
If nothing but blanks stands before it, or a vertical bar does, it is completed as a command name:
a builtin or a program of the search path. Otherwise it is completed as a path: the entries of the
directory that it points into, spelled with the directory as it was typed. Entries whose names
start with a dot are offered only when the dot was typed.
-/

namespace LineShell
namespace Completion

variable {σ : Type} [Host σ]

/-- The names that can be typed as a command. -/
def commandNames (sp : SearchPath) (s : σ) : List String :=
  Names.sorted (Builtin.all.map Builtin.name ++ (sp.listAll s).map Prod.fst)

/-- A text cut after the last place where a character stands: what comes up to there, and the
rest. -/
def cutAfterLast (c : Char) : List Char → List Char × List Char
  | [] => ([], [])
  | x :: xs =>
    match cutAfterLast c xs with
    | ([], rest) => if x = c then ([x], rest) else ([], x :: rest)
    | (y :: ys, rest) => (x :: y :: ys, rest)

/-- Whether an entry is offered for what was typed of its name. -/
def offered (typed name : String) : Bool :=
  Names.startsWith name typed && (!Names.startsWith name "." || Names.startsWith typed ".")

/-- The paths that a word can be completed to. -/
def pathNames (cwd : String) (word : String) (s : σ) : List String :=
  let (dir, typed) := cutAfterLast '/' word.toList
  let place := if dir = [] then cwd else Path.join cwd (String.ofList dir)
  match Host.entries? s place with
  | none => []
  | some names =>
    let fits := names.filter (offered (String.ofList typed))
    Names.ordered (fits.map fun name =>
      let spelled := String.ofList dir ++ name
      if Host.isDirectory s (Path.join place name) then spelled ++ "/" else spelled)

/-- Whether a word after this text is a command name. -/
def commandFollows (head : List Char) : Bool :=
  match (Text.trimEnd head).getLast? with
  | none => true
  | some c => c == '|'

/-- The number of bytes of a text. -/
def byteLength : List Char → Nat
  | [] => 0
  | c :: cs => c.utf8Size + byteLength cs

/-- What completes lines. -/
structure Completer where
  /-- Where programs are looked up. -/
  searchPath : SearchPath
  /-- What stands before the line on the screen. -/
  prompt : String
  /-- The working directory. -/
  cwd : String
  /-- The requests so far. -/
  presses : Presses := {}
  deriving DecidableEq, Repr

/-- An answer to a request: where the word starts, counted in bytes, and what happens to it. -/
structure Answer where
  /-- The number of bytes before the word. -/
  start : Nat
  /-- What happens to it. -/
  suggestion : Suggestion
  deriving DecidableEq, Repr

namespace Completer

/-- Makes ready for a new line. -/
def beginLine (c : Completer) (cwd : String) : Completer :=
  { c with cwd, presses := c.presses.reset }

/-- The candidates for a word after a text. -/
def candidates (c : Completer) (head : List Char) (word : String) (s : σ) : List String :=
  if commandFollows head then commandNames c.searchPath s else pathNames c.cwd word s

/-- Completes the text before the cursor. -/
def resolve (c : Completer) (text : String) (s : σ) : Answer × Completer :=
  let (head, word) := cutAfterLast ' ' text.toList
  let word := String.ofList word
  let (suggestion, presses) := c.presses.complete text word (c.candidates head word s)
  ({ start := byteLength head, suggestion }, { c with presses })

/-- The text that a number of bytes at the start of a line spell. -/
def firstBytes : Nat → List Char → List Char
  | _, [] => []
  | n, x :: xs => if n = 0 then [] else x :: firstBytes (n - x.utf8Size) xs

/-- What the screen shows for a suggestion, and what the word may be replaced by. -/
def display (c : Completer) (line : String) : Suggestion → String × List String
  | .replace text => ("", [text])
  | .bell => ("\x07", [])
  | .list hits => ("\n" ++ "  ".intercalate hits ++ "\n" ++ c.prompt ++ line, [])

end Completer
end Completion
end LineShell
