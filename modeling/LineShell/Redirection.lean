/-!
# Redirections

Among the words of a command, these operators send one of its two output streams to a file:

| operator    | stream          | existing file |
|-------------|-----------------|---------------|
| `>`, `1>`   | standard output | is emptied    |
| `>>`, `1>>` | standard output | is added to   |
| `2>`        | standard error  | is emptied    |
| `2>>`       | standard error  | is added to   |

A word that is an operator takes the next word as its target, whatever that word is, and is dropped
when there is none. A word that properly extends an operator carries its target in itself. For each
stream the last target counts. All other words are arguments.
-/

namespace LineShell

/-- What happens to the contents of an existing file when it is opened for writing. -/
inductive WriteMode where
  /-- They are thrown away. -/
  | truncate
  /-- They stay, and everything written goes after them. -/
  | append
  deriving DecidableEq, Repr

/-- A file that an output stream is sent to, as it was typed. -/
structure Target where
  /-- The path as typed. -/
  path : String
  /-- Whether the file is emptied first. -/
  mode : WriteMode
  deriving DecidableEq, Repr

/-- The targets of a command's two output streams. -/
structure Redirection where
  /-- Where standard output goes, if not to the shell's. -/
  stdout : Option Target := none
  /-- Where standard error goes, if not to the shell's. -/
  stderr : Option Target := none
  deriving DecidableEq, Repr

namespace Redirection

/-- The two output streams of a command. -/
inductive Stream where
  /-- Standard output. -/
  | out
  /-- Standard error. -/
  | err
  deriving DecidableEq, Repr

/-- A redirection operator by its meaning. -/
structure Operator where
  /-- The stream it redirects. -/
  stream : Stream
  /-- How it opens its target. -/
  mode : WriteMode
  deriving DecidableEq, Repr

/-- The spellings of the operators. A spelling stands before those that it extends, so the first
one that a word starts with is the longest. -/
def spellings : List (String × Operator) :=
  [("1>>", ⟨.out, .append⟩), ("2>>", ⟨.err, .append⟩), (">>", ⟨.out, .append⟩),
    ("1>", ⟨.out, .truncate⟩), ("2>", ⟨.err, .truncate⟩), (">", ⟨.out, .truncate⟩)]

/-- The operator that a word starts with, and the rest of the word. -/
def operator? (word : String) : Option (Operator × List Char) :=
  spellings.findSome? fun (s, op) =>
    (s.toList.isPrefixOf? word.toList).map fun rest => (op, rest)

/-- The redirection with a target for a stream that has none yet. -/
def orSet (r : Redirection) (op : Operator) (path : String) : Redirection :=
  match op.stream with
  | .out => { r with stdout := r.stdout <|> some ⟨path, op.mode⟩ }
  | .err => { r with stderr := r.stderr <|> some ⟨path, op.mode⟩ }

/-- Takes the redirections out of a list of words: the arguments that remain, in order, and the
targets. Words are read from the left, and a later target wins over an earlier one. -/
def extract : List String → List String × Redirection
  | [] => ([], {})
  | word :: rest =>
    match operator? word with
    | none =>
      let (args, r) := extract rest
      (word :: args, r)
    | some (op, []) =>
      match rest with
      | [] => ([], {})
      | path :: rest =>
        let (args, r) := extract rest
        (args, r.orSet op path)
    | some (op, path) =>
      let (args, r) := extract rest
      (args, r.orSet op (String.ofList path))

end Redirection
end LineShell
