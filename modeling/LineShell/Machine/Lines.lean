import LineShell.Machine.Fork

/-!
# Reading lines into variables

The command `read` takes a line from standard input. Unless backslashes stand for themselves, one
quotes the character after it, and at the end of a line it joins the next one. The line is divided
like an expanded word, but into no more fields than there are variables: the last one takes the rest
of the line, without the separators at its end.

This is part of the script interpreter, which stands in for the programs of a real machine. No
general result about the shell rests on it.
-/

namespace LineShell

open Script

namespace Reading

/-- Takes a character of a line; none if it ends the line. -/
def feed (r : Reading) (c : Char) : Option Reading :=
  if c = '\x00' then some r
  else if r.afterBackslash then
    some { r with afterBackslash := false
                  soFar := if c = '\n' then r.soFar else (c, true) :: r.soFar }
  else if c = '\\' ∧ !r.verbatim then some { r with afterBackslash := true }
  else if c = '\n' then none
  else some { r with soFar := (c, false) :: r.soFar }

/-- Takes characters of a line; tells whether the line has ended. -/
def feedAll : Reading → Chars → Bool × Reading
  | r, [] => (false, r)
  | r, c :: cs =>
    match r.feed c with
    | none => (true, r)
    | some r => feedAll r cs

end Reading

namespace Machine

/-- A field of a line that is being put together. -/
structure LineField where
  /-- Its characters, the last one first. -/
  chars : Chars := []
  /-- How many of them stay if nothing but separators follows. -/
  kept : Option Nat := none
  /-- Whether the last separator was a blank. -/
  afterBlank : Bool := false

namespace LineField

/-- The field with a further character. -/
def add (f : LineField) (c : Char) : LineField :=
  { f with chars := c :: f.chars }

/-- The finished field. -/
def text (f : LineField) : Chars :=
  match f.kept with
  | none => f.chars.reverse
  | some n => f.chars.reverse.take n

end LineField

/-- Whether a separator counts as a blank. -/
def countsAsBlank (c : Char) : Bool :=
  c == ' ' || c == '\t' || c == '\n'

/-- A line after the separators between two fields: blanks, and one other separator unless one was
passed already. -/
def afterSeparators (separators : Chars) : Bool → List Marked → List Marked
  | _, [] => []
  | onlyBlanks, (c, quoted) :: cs =>
    if quoted || !separators.contains c then (c, quoted) :: cs
    else if countsAsBlank c then afterSeparators separators onlyBlanks cs
    else if onlyBlanks then afterSeparators separators false cs
    else (c, quoted) :: cs

/-- The last field of a line, from its first separator on. What comes from there stays only if
something follows that is not part of the line's end: blanks, and one other separator after a
blank. -/
def lastField (separators : Chars) : LineField → List Marked → LineField
  | f, [] => f
  | f, (c, true) :: cs => lastField separators { f.add c with afterBlank := false } cs
  | f, (c, false) :: cs =>
    let isSeparator := separators.contains c
    if isSeparator && countsAsBlank c then
      lastField separators { f.add c with kept := f.kept.or (some f.chars.length) } cs
    else
      let kept := if isSeparator && f.afterBlank then f.kept else none
      lastField separators { f.add c with kept, afterBlank := false } cs

/-- A line divided into at most the given number of fields; the second number bounds the length of
the line. -/
def lineFields (separators : Chars) : Nat → Nat → LineField → List Marked → List Chars
  | 0, _, _, _ => []
  | _, 0, _, _ => []
  | _, _, f, [] => [f.text]
  | n + 1, k + 1, f, (c, quoted) :: cs =>
    if quoted || !separators.contains c then lineFields separators (n + 1) k (f.add c) cs
    else if f.chars = [] ∧ countsAsBlank c then lineFields separators (n + 1) k f cs
    else if n = 0 then
      let first := { f.add c with kept := some f.chars.length, afterBlank := countsAsBlank c }
      [(lastField separators first cs).text]
    else f.text :: lineFields separators n k {} (afterSeparators separators (countsAsBlank c) cs)

/-- Gives variables the fields of a line. -/
def setFields (separators : Chars) (r : Reading) (sc : Scope) : Scope × Option String :=
  let line := r.soFar.reverse
  let fields := lineFields separators r.names.length (line.length + 1) {} line
  Scope.inTurn Command.setNamed (r.names.zip (fields.rightpad r.names.length [])) sc

/-- Takes a line from standard input, or what is there of it. -/
def readingLine (r : Reading) (rest : List Frame) (p : Process) (m : Machine) : Progress :=
  let done (complete : Bool) (r : Reading) (m : Machine) : Progress :=
    let (scope, failure) := setFields p.scope.separators r p.scope
    let p := { p with frames := rest, scope }
    match failure with
    | some e => { process := p.withStatus 2, machine := m.warn { p with command := some "read" } e }
    | none => { process := p.withStatus (if complete then 0 else 1), machine := m }
  match (p.fd? 0).map fun o => m.take cutLine o with
  | some (some (b, more), m) =>
    let (complete, r) := Reading.feedAll r (Bytes.chars b)
    if complete then done true r m
    else if b = [] ∧ !more then done false r m
    else { process := { p with frames := .read r :: rest }, machine := m, moved := b ≠ [] }
  | some (none, m) => done false r m
  | none => done false r m

end Machine
end LineShell
