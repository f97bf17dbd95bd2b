/-!
# Words of a line

A line is cut into words at spaces. Three ways of quoting keep a character from being read as a
separator or as a quote:

| where                | what stands for what                                             |
|----------------------|------------------------------------------------------------------|
| outside quotes       | a backslash makes the next character stand for itself            |
| between single quotes| every character stands for itself                                |
| between double quotes| a backslash escapes some characters, and before others it stays     |

Between double quotes the characters that can be escaped are the double quote, the backslash, the
dollar sign, the backquote and the line feed.

Quotes join what they touch, so `e''cho` is one word. A quote that is never closed ends with the
line, and a backslash at the very end outside quotes stands for nothing. A word that comes out
empty is dropped. Only the space U+0020 separates words; a tab is part of a word.
-/

namespace LineShell

/-- Which quotes a position of a line stands between. -/
inductive Quoting where
  /-- Outside quotes. -/
  | bare
  /-- After an opening single quote. -/
  | single
  /-- After an opening double quote. -/
  | double
  deriving DecidableEq, Repr

namespace Word

/-- Whether a backslash between double quotes escapes the character. -/
def escapable (c : Char) : Bool :=
  c == '"' || c == '\\' || c == '$' || c == '\x60' || c == '\n'

/-- Reads a line from a position between the given quotes. The first component is what the line
adds to the word under way, the second the words that start after the next separator, empty ones
included. -/
def scan : Quoting → List Char → List Char × List (List Char)
  | _, [] => ([], [])
  | .bare, ' ' :: cs =>
    let (w, ws) := scan .bare cs
    ([], w :: ws)
  | .bare, '\'' :: cs => scan .single cs
  | .bare, '"' :: cs => scan .double cs
  | .bare, ['\\'] => ([], [])
  | .bare, '\\' :: c :: cs =>
    let (w, ws) := scan .bare cs
    (c :: w, ws)
  | .single, '\'' :: cs => scan .bare cs
  | .double, '"' :: cs => scan .bare cs
  | .double, ['\\'] => (['\\'], [])
  | .double, '\\' :: c :: cs =>
    let (w, ws) := scan .double cs
    (if escapable c then c :: w else '\\' :: c :: w, ws)
  | q, c :: cs =>
    let (w, ws) := scan q cs
    (c :: w, ws)

/-- The words of a line, as lists of characters. -/
def split (line : List Char) : List (List Char) :=
  let (w, ws) := scan .bare line
  (w :: ws).filter (· ≠ [])

/-- The words of a line, in order. -/
def ofLine (line : String) : List String :=
  (split line.toList).map String.ofList

/-- No word is empty. -/
theorem ne_nil_of_mem_split {line w : List Char} (h : w ∈ split line) : w ≠ [] := by
  simp only [split, List.mem_filter, decide_eq_true_eq] at h
  exact h.2

end Word
end LineShell
