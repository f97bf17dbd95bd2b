import LineShell.Script.Tree

/-!
# Patterns

In a pattern an asterisk stands for any text, a question mark for any character, and characters in
brackets for one of them; quoted characters and those after a backslash stand for themselves. A
pattern matches a text as a whole.

Matching keeps the list of what may still have to be matched; each character of the text takes it
one step further.

This is part of the script interpreter, which stands in for the programs of a real machine. No
general result about the shell rests on it.
-/

namespace LineShell
namespace Script

/-- A character and whether it is quoted. -/
abbrev Marked := Char × Bool

/-- A set of characters in brackets. -/
inductive Range where
  /-- The characters from one to another. -/
  | span (first last : Char)
  /-- The characters of a named kind. -/
  | kind (name : String)
  deriving DecidableEq, Repr

/-- A piece of a pattern. -/
inductive Glob where
  /-- Any text. -/
  | star
  /-- Any character. -/
  | any
  /-- One character. -/
  | char (c : Char)
  /-- One of the characters of some sets, or none of them. -/
  | set (negated : Bool) (ranges : List Range)
  deriving DecidableEq, Repr

/-- A pattern. -/
abbrev Pattern := List Glob

namespace Range

/-- Whether a character is of a named kind. -/
def hasKind (name : String) (c : Char) : Bool :=
  let n := c.toNat
  match name with
  | "alnum" => c.isAlphanum
  | "alpha" => c.isAlpha
  | "blank" => c == ' ' || c == '\t'
  | "cntrl" => n < 32 || n == 127
  | "digit" => c.isDigit
  | "graph" => 32 < n && n < 127
  | "lower" => c.isLower
  | "print" => 32 ≤ n && n < 127
  | "punct" => 32 < n && n < 127 && !c.isAlphanum
  | "space" => c == ' ' || (9 ≤ n && n ≤ 13)
  | "upper" => c.isUpper
  | "xdigit" => c.isDigit || ('a' ≤ c && c ≤ 'f') || ('A' ≤ c && c ≤ 'F')
  | _ => false

/-- The names of the kinds of characters. -/
def kinds : List String :=
  ["alnum", "alpha", "blank", "cntrl", "digit", "graph", "lower", "print", "punct", "space",
    "upper", "xdigit"]

/-- The place of a character in the order of ranges: those beyond the first half of the bytes come
before all others. -/
def rank (c : Char) : Int :=
  if c.toNat < 128 then c.toNat else c.toNat - 256

/-- Whether a set has a character. -/
def contains (c : Char) : Range → Bool
  | span first last => rank first ≤ rank c && rank c ≤ rank last
  | kind name => hasKind name c

end Range

namespace Pattern

/-- Whether quotes keep a character from having its meaning in patterns. -/
def isProtected (c : Char) : Bool :=
  "!*?[=~:/-]\\".toList.contains c

/-- The text of a pattern: where quotes take the meaning of a character, it has a backslash before
it. A backslash that is there without quotes does the same for the character after it, so there is
no second one. -/
def spell (afterBackslash : Bool) : List Marked → Chars
  | [] => []
  | (c, quoted) :: rest =>
    if c = '\\' ∧ !quoted then c :: spell true rest
    else if quoted && isProtected c && !afterBackslash then '\\' :: c :: spell false rest
    else c :: spell false rest

/-- A named kind of characters at the start of a text, after its opening bracket. -/
def kind? (cs : Chars) : Option (String × Chars) :=
  Range.kinds.findSome? fun name =>
    ((':' :: name.toList ++ [':', ']']).isPrefixOf? cs).map (name, ·)

/-- The sets up to the closing bracket, which does not count as one in the first place. None if
there is no closing bracket. -/
def ranges? : Nat → Bool → Chars → Option (List Range × Chars)
  | 0, _, _ => none
  | n + 1, first, cs =>
    let more (r : Range) (cs : Chars) : Option (List Range × Chars) :=
      (ranges? n false cs).map fun (l, rest) => (r :: l, rest)
    let after (c : Char) (cs : Chars) : Option (List Range × Chars) :=
      match cs with
      | '-' :: ']' :: _ => more (.span c c) cs
      | '-' :: '\\' :: d :: rest => more (.span c d) rest
      | '-' :: d :: rest => more (.span c d) rest
      | _ => more (.span c c) cs
    match cs with
    | [] => none
    | ']' :: rest => if first then after ']' rest else some ([], rest)
    | '[' :: rest =>
      match kind? rest with
      | some (name, rest) => more (.kind name) rest
      | none => after '[' rest
    | '\\' :: c :: rest => after c rest
    | c :: rest => after c rest

/-- A set after its opening bracket. -/
def set? (cs : Chars) : Option (Glob × Chars) :=
  match cs with
  | '!' :: rest => (ranges? (rest.length + 1) true rest).map fun (l, rest) => (.set true l, rest)
  | _ => (ranges? (cs.length + 1) true cs).map fun (l, rest) => (.set false l, rest)

/-- The pattern that a text spells; the number bounds its length. -/
def ofTextWithin : Nat → Chars → Pattern
  | 0, _ => []
  | n + 1, cs =>
    match cs with
    | [] => []
    | '\\' :: c :: rest => .char c :: ofTextWithin n rest
    | '*' :: rest => .star :: ofTextWithin n rest
    | '?' :: rest => .any :: ofTextWithin n rest
    | '[' :: rest =>
      match set? rest with
      | some (s, rest) => s :: ofTextWithin n rest
      | none => .char '[' :: ofTextWithin n rest
    | c :: rest => .char c :: ofTextWithin n rest

/-- The pattern that a text spells, in which backslashes take the meaning of characters. -/
def ofText (cs : Chars) : Pattern :=
  ofTextWithin cs.length cs

/-- The pattern that a text spells in which characters are quoted. -/
def ofMarked (cs : List Marked) : Pattern :=
  ofText (spell false cs)

/-- What may have to be matched next: stars may stand for nothing. -/
def open? : Pattern → List Pattern
  | .star :: rest => (.star :: rest) :: open? rest
  | p => [p]

/-- What is left to be matched after a character. -/
def after (c : Char) : Pattern → List Pattern
  | [] => []
  | .star :: rest => [.star :: rest]
  | .any :: rest => [rest]
  | .char d :: rest => if c = d then [rest] else []
  | .set negated l :: rest => if (l.any (·.contains c)) != negated then [rest] else []

/-- What is left to be matched after one more character. -/
def advance (ps : List Pattern) (c : Char) : List Pattern :=
  ((ps.flatMap (after c)).flatMap open?).eraseDups

/-- What is left to be matched after a text. -/
def leftAfter (p : Pattern) (s : Chars) : List Pattern :=
  s.foldl advance (open? p)

/-- Whether a pattern matches a text. -/
def isMatch (p : Pattern) (s : Chars) : Bool :=
  (p.leftAfter s).contains []

/-- How far a text has been gone along to find the parts at its start that a pattern matches. -/
structure Scan where
  /-- What is left to be matched. -/
  left : List Pattern
  /-- The length of the part that was gone along. -/
  length : Nat := 0
  /-- The lengths of the parts that the pattern matches, the longest first. -/
  found : List Nat := []

namespace Scan

/-- Takes note if the pattern matches what was gone along. -/
def note (s : Scan) : Scan :=
  if s.left.contains [] then { s with found := s.length :: s.found } else s

/-- Goes along one more character. -/
def step (s : Scan) (c : Char) : Scan :=
  note { s with left := advance s.left c, length := s.length + 1 }

end Scan

/-- The length of the shortest or longest part at the start of a text that a pattern matches. -/
def startLength? (p : Pattern) (longest : Bool) (s : Chars) : Option Nat :=
  let found := (s.foldl Scan.step (Scan.note { left := open? p })).found
  if longest then found.head? else found.getLast?

/-- A text without the shortest or longest part at its end that a pattern matches. -/
def withoutEnd? (p : Pattern) (longest : Bool) (s : Chars) : Option Chars :=
  (startLength? p.reverse longest s.reverse).map fun n => s.take (s.length - n)

/-- Texts without the shortest or longest part at the start of the first one. If the first one is
matched as a whole, the longest part goes on to the end of the last one. -/
def trimStart (p : Pattern) (longest : Bool) : List Chars → List Chars
  | [] => []
  | first :: rest =>
    match startLength? p longest first with
    | none => first :: rest
    | some n =>
      if longest ∧ rest ≠ [] ∧ n = first.length then [[]] else first.drop n :: rest

/-- Texts without a part at the end of one: the shortest at the end of the last text that has one,
and all that comes after it. -/
def trimLast? (p : Pattern) : List Chars → Option (List Chars)
  | [] => none
  | first :: rest =>
    match trimLast? p rest with
    | some rest => some (first :: rest)
    | none => (withoutEnd? p false first).map fun s => [s]

/-- Texts without a part at the end of one. The longest is looked for only in the first text. -/
def trimEnd (p : Pattern) (longest : Bool) (texts : List Chars) : List Chars :=
  if longest then
    match texts.head?.bind (withoutEnd? p true) with
    | some s => [s]
    | none => texts
  else (trimLast? p texts).getD texts

/-- Texts without the shortest or longest part at their start or end that a pattern matches. -/
def trim (p : Pattern) (atEnd longest : Bool) (texts : List Chars) : List Chars :=
  if atEnd then p.trimEnd longest texts else p.trimStart longest texts

end Pattern
end Script
end LineShell
