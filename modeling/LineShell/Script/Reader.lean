import LineShell.Script.Tree

/-!
# Reading a script

A script is read character by character, and only as far as the next statement needs. If the text
ends too early and more of it may come, reading stops and starts again when more is there; if it is
wrong, reading stops with a message and the line on which it was noticed. It is counted how many
lines were begun after the first one, so that somebody who types them in can be asked for each.

A backslash before the end of a line joins it to the next line.

This is part of the script interpreter, which stands in for the programs of a real machine. No
general result about the shell rests on it.
-/

namespace LineShell
namespace Script

/-- Why reading stops before the end of a statement. -/
inductive Stop where
  /-- More of the text is needed. -/
  | incomplete
  /-- The text is wrong; how many lines were begun after the first one is given too. -/
  | wrong (line : Nat) (message : String) (begun : Nat)
  deriving DecidableEq, Repr

/-- What a sign of redirection asks for. -/
inductive Sign where
  /-- A file. -/
  | file (how : Access)
  /-- A copy of a descriptor. -/
  | copy
  /-- A here-document, and whether tabs at the start of its lines are dropped. -/
  | document (dropTabs : Bool)
  deriving DecidableEq, Repr

/-- A token of a script. -/
inductive Token where
  /-- The end of the script. -/
  | endOfFile
  /-- The end of a line. -/
  | newline
  /-- A sign that separates or groups commands. -/
  | operator (text : String)
  /-- A redirection of a descriptor. -/
  | redirection (fd : Nat) (sign : Sign)
  /-- A word. -/
  | word
  /-- A word that is part of the language. -/
  | keyword (text : String)
  deriving DecidableEq, Repr

namespace Token

/-- How a token is called in messages. -/
def name : Token → String
  | endOfFile => "end of file"
  | newline => "newline"
  | operator text => "\"" ++ text ++ "\""
  | redirection _ _ => "redirection"
  | word => "word"
  | keyword text => "\"" ++ text ++ "\""

/-- Whether a list of commands can end before a token. -/
def endsList : Token → Bool
  | endOfFile => true
  | operator text => [")", ";;"].contains text
  | keyword text =>
    ["do", "done", "elif", "else", "esac", "fi", "then", "\x7d"].contains text
  | _ => false

/-- The words that are part of the language. -/
def keywords : List String :=
  ["!", "case", "do", "done", "elif", "else", "esac", "fi", "for", "if", "in", "then", "until",
    "while", "\x7b", "\x7d"]

end Token

/-- A here-document whose text has not been reached yet. -/
structure Announced where
  /-- Its number. -/
  key : Nat
  /-- The line that ends it. -/
  mark : Chars
  /-- Whether tabs at the start of its lines are dropped. -/
  dropTabs : Bool
  /-- Whether it is expanded. -/
  expanded : Bool
  deriving DecidableEq, Repr

/-- A word that was replaced by the text it stands for. -/
structure Replaced where
  /-- The word. -/
  name : String
  /-- How much text is left after the one it stands for. -/
  left : Nat
  /-- Whether the text ends with a blank. -/
  endsBlank : Bool
  deriving DecidableEq, Repr

/-- How far a script has been read. -/
structure Reader where
  /-- The text that is left. -/
  rest : Chars
  /-- Whether no more text is going to follow. -/
  final : Bool := true
  /-- The line that is being read. -/
  line : Nat := 1
  /-- How many lines were begun after the first one. -/
  begun : Nat := 0
  /-- Whether a line has ended and nothing after it was looked at yet. -/
  lineEnded : Bool := false
  /-- The token that was read last. -/
  token : Token := .newline
  /-- Whether that token is to be read again. -/
  again : Bool := false
  /-- The word that was read last. -/
  word : RawWord := []
  /-- Here-documents that are still to come. -/
  announced : List Announced := []
  /-- Here-documents that were read. -/
  documents : Documents := []
  /-- The number of the next here-document. -/
  nextKey : Nat := 0
  /-- Words that stand for other text. -/
  aliases : List (String × Chars) := []
  /-- The words that are being replaced. -/
  replacing : List Replaced := []
  /-- Whether a text that ends with a blank has ended before the last token: then that token may
  stand for other text too, wherever it is. -/
  afterBlank : Bool := false

namespace Reader

/-- The text is looked at: after the end of a line, the next one is begun. -/
def looking (r : Reader) : Reader :=
  if r.lineEnded then { r with begun := r.begun + 1, lineEnded := false } else r

end Reader

/-- Something that is read from a script. -/
abbrev Read := StateT Reader (Except Stop)

namespace Read

/-- The text is wrong. -/
def wrong {α : Type} (message : String) : Read α := do
  let r ← get
  throw (.wrong r.line ("Syntax error: " ++ message) r.begun)

/-- The next character as it stands; none at the end of the script. -/
def char : Read (Option Char) := do
  modify Reader.looking
  let r ← get
  match r.rest with
  | c :: cs =>
    set { r with rest := cs }
    return some c
  | [] => if r.final then return none else throw .incomplete

/-- Gives a character back. -/
def giveBack (c : Option Char) : Read Unit :=
  modify fun r => { r with rest := c.toList ++ r.rest }

/-- Counts a line. -/
def countLine : Read Unit :=
  modify fun r => { r with line := r.line + 1, lineEnded := true }

/-- The text after the joins of lines at its start, and how many there were. -/
def afterJoins : Chars → Nat × Chars
  | '\\' :: '\n' :: cs =>
    let (n, rest) := afterJoins cs
    (n + 1, rest)
  | cs => (0, cs)

/-- The next character after joins of lines. -/
def joined : Read (Option Char) := do
  modify Reader.looking
  let r ← get
  let (n, rest) := afterJoins r.rest
  set { r with rest, line := r.line + n, begun := r.begun + n }
  if rest = ['\\'] ∧ !r.final then throw .incomplete
  char

/-- The characters at the start of the text for which something holds. -/
def charsWhile (p : Char → Bool) : Nat → Read Chars
  | 0 => return []
  | n + 1 => do
    match ← joined with
    | none => return []
    | some c =>
      if p c then return c :: (← charsWhile p n)
      else
        giveBack (some c)
        return []

/-- How many characters are left at most. -/
def bound : Read Nat :=
  return (← get).rest.length + 1

end Read
end Script
end LineShell
