import LineShell.Command

/-!
# Colouring the line

While a line is typed, its command word is shown in bold: cyan if it is a builtin or a program of
the search path, red if not. Later words that start with a dash are yellow. Only the words between
single spaces are looked at, not quotes or bars, and all spaces stay.
-/

namespace LineShell
namespace Highlight

/-- The styles of words. -/
inductive Style where
  /-- A command that can be run. -/
  | known
  /-- A command that cannot be run. -/
  | unknown
  /-- An option. -/
  | option
  deriving DecidableEq, Repr

/-- The control sequences that switch a style on. -/
def Style.start : Style → String
  | known => "\x1b[36m\x1b[1m"
  | unknown => "\x1b[31m\x1b[1m"
  | option => "\x1b[33m"

/-- The control sequence that switches every style off. -/
def reset : String := "\x1b[0m"

/-- A word in a style. -/
def Style.apply (style : Style) (word : String) : String :=
  style.start ++ word ++ reset

variable {σ : Type} [Host σ]

/-- The style of a command word. -/
def commandStyle (sp : SearchPath) (s : σ) (word : String) : Style :=
  if (Builtin.ofName? word).isSome || (sp.find? s word).isSome then .known else .unknown

/-- A word after the command word. -/
def styleArgument (word : String) : String :=
  if Names.startsWith word "-" then Style.option.apply word else word

/-- The words of a line, the first one that is not empty being the command word. -/
def styleWords (sp : SearchPath) (s : σ) : List String → List String
  | [] => []
  | word :: rest =>
    if word = "" then word :: styleWords sp s rest
    else (commandStyle sp s word).apply word :: rest.map styleArgument

/-- The line as it is shown; as it is where there are no colours. -/
def line (sp : SearchPath) (colour : Bool) (s : σ) (text : String) : String :=
  if colour then
    " ".intercalate (styleWords sp s ((text.toList.splitOn ' ').map String.ofList))
  else text

end Highlight
end LineShell
