import LineShell.Script.Tree

/-!
# What commands have to say

What a command prints is collected and written when the command is done, or when there is no more
room for it. Complaints are written at once, so they may come before what was printed first.

This is part of the script interpreter, which stands in for the programs of a real machine. No
general result about the shell rests on it.
-/

namespace LineShell
namespace Script

/-- Something that a command has to say. -/
inductive Said where
  /-- Something is printed. -/
  | text (s : Chars)
  /-- Something is complained about. -/
  | complaint (message : String)
  deriving DecidableEq, Repr

/-- What a command has said so far. -/
structure Printout where
  /-- What has been written, the last first. -/
  written : List Said := []
  /-- What has been collected, the last character first. -/
  collected : Chars := []
  /-- How many characters have been collected. -/
  size : Nat := 0

namespace Printout

/-- How many characters there is room for. -/
def room : Nat := 8192

/-- Writes what has been collected. -/
def flush (p : Printout) : Printout :=
  if p.size = 0 then p else { written := .text p.collected.reverse :: p.written }

/-- Prints a text: it is collected with what is there, or else after that is written. A text for
which there is no room at all is written at once. -/
def put (p : Printout) (s : Chars) : Printout :=
  let n := s.length
  if p.size + n ≤ room then { p with collected := s.reverse ++ p.collected, size := p.size + n }
  else
    let p := p.flush
    if n < room then { p with collected := s.reverse, size := n }
    else { p with written := .text s :: p.written }

/-- Complains about something. -/
def complain (p : Printout) (message : String) : Printout :=
  { p with written := .complaint message :: p.written }

/-- All that was said, in the order in which it is written. -/
def said (p : Printout) : List Said :=
  p.flush.written.reverse

end Printout
end Script
end LineShell
