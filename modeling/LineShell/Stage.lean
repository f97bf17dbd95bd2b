import LineShell.Text.Blank
import LineShell.Word

/-!
# Stages of a line

A vertical bar outside quotes and not after a backslash divides a line into stages, which run as
one pipeline. Here quotes and backslashes are only recognised, not taken away: each stage keeps
its own spelling and is cut into words later. Between double quotes a backslash keeps the next
character, whatever it is, from closing the quotes.

`segments` gives the stages as they are spelled, so that joining them with bars gives the line
back; `ofLine` trims each of them. There is always at least one.
-/

namespace LineShell
namespace Stage

/-- Reads a line from a position between the given quotes. The first component is what the line
adds to the stage under way, the second the stages after the next dividing bar. -/
def scan : Quoting → List Char → List Char × List (List Char)
  | _, [] => ([], [])
  | .bare, '|' :: cs =>
    let (s, ss) := scan .bare cs
    ([], s :: ss)
  | .bare, '\'' :: cs =>
    let (s, ss) := scan .single cs
    ('\'' :: s, ss)
  | .bare, '"' :: cs =>
    let (s, ss) := scan .double cs
    ('"' :: s, ss)
  | .single, '\'' :: cs =>
    let (s, ss) := scan .bare cs
    ('\'' :: s, ss)
  | .double, '"' :: cs =>
    let (s, ss) := scan .bare cs
    ('"' :: s, ss)
  | .bare, '\\' :: c :: cs =>
    let (s, ss) := scan .bare cs
    ('\\' :: c :: s, ss)
  | .double, '\\' :: c :: cs =>
    let (s, ss) := scan .double cs
    ('\\' :: c :: s, ss)
  | q, c :: cs =>
    let (s, ss) := scan q cs
    (c :: s, ss)

/-- The stages of a line as they are spelled, blanks included. -/
def segments (line : List Char) : List (List Char) :=
  let (s, ss) := scan .bare line
  s :: ss

/-- The stages of a line, in order, each without the blanks around it. -/
def ofLine (line : String) : List String :=
  (segments line.toList).map fun s => String.ofList (Text.trim s)

/-- A line has at least one stage. -/
theorem ofLine_ne_nil (line : String) : ofLine line ≠ [] := by
  simp [ofLine, segments]

end Stage
end LineShell
