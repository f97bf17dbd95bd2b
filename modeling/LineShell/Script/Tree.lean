import LineShell.Text.Bytes

/-!
# Scripts as trees

The programs of a machine are scripts. A script is a row of statements. The smallest statement is a
simple command: a list of words to be expanded, with assignments before them and redirections among
them.

A word is a row of parts. Whether a part stood between quotes is part of the tree, because only
what was not quoted is split into fields and matched against the names of files.

Text in a script has one character for each byte; the character is the one of the byte's number.

This is part of the script interpreter, which stands in for the programs of a real machine. No
general result about the shell rests on it.
-/

namespace LineShell

/-- The bytes whose characters a text is made of. -/
def Bytes.ofChars (cs : List Char) : Bytes :=
  cs.map fun c => c.toNat.toUInt8

/-- A message as a line, in which each character stands for a byte. -/
def Bytes.ofMessage (s : String) : Bytes :=
  ofChars s.toList ++ [lineFeed]

namespace Script

/-- Text with one character for each byte. -/
abbrev Chars := List Char

namespace Chars

/-- The characters of the bytes of a text. -/
def ofText (s : String) : Chars :=
  (Bytes.ofText s).chars

/-- The characters as a text, which still has one of them for each byte. -/
def text (cs : Chars) : String :=
  String.ofList cs

/-- The path that the bytes encode. -/
def path (cs : Chars) : String :=
  (Bytes.ofChars cs).anyText

/-- Whether a text comes before another one or is the same, by its characters from the first on. -/
def precedes : Chars → Chars → Bool
  | [], _ => true
  | _ :: _, [] => false
  | c :: cs, d :: ds => decide (c.toNat < d.toNat) || (c == d && precedes cs ds)

/-- The character that guards the one after it. -/
def guard : Char := '\x81'

/-- Whether a character has to be guarded where quotes are marked in a text. -/
def needsGuard (c : Char) : Bool :=
  guard ≤ c && c ≤ '\x88'

/-- A text with guards before the characters that need one. -/
def guarded : Chars → Chars
  | [] => []
  | c :: cs => if needsGuard c then guard :: c :: guarded cs else c :: guarded cs

/-- A text without guards, and without the character that marks quotes. -/
def unguarded : Chars → Chars
  | [] => []
  | c :: cs =>
    if c = guard then
      match cs with
      | [] => []
      | d :: ds => d :: unguarded ds
    else if c = '\x88' then unguarded cs
    else c :: unguarded cs

/-- The decimal digits of a number. -/
def ofNat (n : Nat) : Chars :=
  (toString n).toList

/-- The decimal digits of a number, with a sign if it is negative. -/
def ofInt (n : Int) : Chars :=
  (toString n).toList

end Chars

/-- When a word stands in for the value of a parameter. -/
inductive StandIn where
  /-- If the parameter has no value. -/
  | default
  /-- If the parameter has no value; the word becomes its value. -/
  | assign
  /-- If the parameter has no value; the word is a message, and the script ends. -/
  | complain
  /-- If the parameter has a value. -/
  | replace
  deriving DecidableEq, Repr

/-- How a file is opened for a redirection. -/
inductive Access where
  /-- To be read. -/
  | read
  /-- To be written from its start, unless it must not be overwritten. -/
  | write
  /-- To be written from its start. -/
  | overwrite
  /-- To be written at its end. -/
  | append
  /-- To be read and written. -/
  | readWrite
  deriving DecidableEq, Repr

mutual

/-- A part of a word. -/
inductive Part where
  /-- Text that is not quoted. -/
  | plain (s : Chars)
  /-- Quoted text, which may be empty. -/
  | quoted (s : Chars)
  /-- What a parameter stands for. -/
  | parameter (quoted : Bool) (name : String) (use : Use)
  /-- What a statement prints. -/
  | output (quoted : Bool) (body : Statement)
  /-- The value of an integer expression. -/
  | sum (quoted : Bool) (body : List Part)

/-- What is made of a parameter. -/
inductive Use where
  /-- Its value. -/
  | value
  /-- The length of its value. -/
  | length
  /-- Its value or a word; whether an empty value counts as none. -/
  | standIn (how : StandIn) (emptyIsNone : Bool) (word : List Part)
  /-- Its value without the part at its start or its end that a pattern matches. -/
  | trim (atEnd longest : Bool) (pattern : List Part)
  /-- Nothing that is known. -/
  | invalid

/-- A redirection. -/
inductive Redirect where
  /-- A descriptor is opened on a file. -/
  | file (fd : Nat) (how : Access) (name : List Part)
  /-- A descriptor becomes a copy of another one, or is closed if the word is a minus sign. -/
  | copy (fd : Nat) (source : List Part)
  /-- A descriptor reads the here-document of a number. -/
  | document (fd : Nat) (key : Nat)

/-- A statement. -/
inductive Statement where
  /-- Nothing. -/
  | nothing
  /-- A simple command, and the line on which it stands. -/
  | simple (line : Nat) (assignments : List (String × List Part)) (words : List (List Part))
      (redirects : List Redirect)
  /-- One statement after another. -/
  | sequence (a b : Statement)
  /-- A statement, and if it succeeds another one. -/
  | andThen (a b : Statement)
  /-- A statement, and if it fails another one. -/
  | orElse (a b : Statement)
  /-- A statement whose success counts as failure and the other way round. -/
  | negation (a : Statement)
  /-- Statements that feed one another, and whether they are waited for. -/
  | pipeline (stages : List Statement) (background : Bool)
  /-- A statement that is not waited for. -/
  | background (a : Statement)
  /-- A statement in a process of its own. -/
  | subshell (line : Nat) (a : Statement) (redirects : List Redirect)
  /-- A loop that goes on while, or until, its condition succeeds. -/
  | loop (whileSuccess : Bool) (condition body : Statement)
  /-- A loop over the fields of words. -/
  | each (line : Nat) (name : String) (words : List (List Part)) (body : Statement)
  /-- The first statement one of whose patterns matches a word. -/
  | select (line : Nat) (word : List Part) (clauses : List (List (List Part) × Statement))
  /-- One statement or the other. -/
  | choice (condition yes : Statement) (no : Option Statement)
  /-- A statement with redirections around it. -/
  | rerouted (line : Nat) (a : Statement) (redirects : List Redirect)
  /-- A function is defined. -/
  | define (line : Nat) (name : String) (body : Statement)

end

/-- A word before it is expanded. -/
abbrev RawWord := List Part


/-- The here-documents of a script by their numbers. -/
abbrev Documents := List (Nat × RawWord)

/-- The names of the commands that are part of the language itself: if one of them fails, the
script ends. -/
def specialCommands : List String :=
  [".", ":", "break", "continue", "eval", "exec", "exit", "export", "local", "readonly", "return",
    "set", "shift", "times", "trap", "unset"]

/-- Whether a character can start a name. -/
def isNameStart (c : Char) : Bool :=
  c.isAlpha || c == '_'

/-- Whether a character can stand in a name. -/
def isNameChar (c : Char) : Bool :=
  c.isAlphanum || c == '_'

/-- Whether a text is a name. -/
def isName : Chars → Bool
  | [] => false
  | c :: cs => isNameStart c && cs.all isNameChar

end Script
end LineShell
