import LineShell.Text.Blank

/-!
# History

The history is the list of lines that were entered, oldest first, none of them blank. It remembers
how many of its entries have been saved to a file, so that appending to a file writes each entry
once.
-/

namespace LineShell

/-- The lines entered so far. -/
structure History where
  /-- The entries, oldest first. -/
  entries : List String := []
  /-- How many of them, from the oldest on, have been saved. -/
  saved : Nat := 0
  deriving DecidableEq, Repr

namespace History

/-- The history with a line added, unless the line is blank. -/
def add (h : History) (line : String) : History :=
  if Text.blank line then h else { h with entries := h.entries ++ [line] }

/-- The history with every entry marked as saved. -/
def markSaved (h : History) : History :=
  { h with saved := h.entries.length }

/-- The entries that have not been saved. -/
def unsaved (h : History) : List String :=
  h.entries.drop h.saved

/-- The latest entries, at most as many as asked for, each with its number; the oldest entry of
all has number one. -/
def recent (h : History) (count : Nat) : List (Nat × String) :=
  let skipped := h.entries.length - count
  (h.entries.drop skipped).zipIdx (skipped + 1) |>.map fun (e, n) => (n, e)

end History
end LineShell
