import LineShell.Machine.Search
import LineShell.Script.Condition
import LineShell.Script.Format

/-!
# The commands of scripts

A command of the script interpreter takes arguments and changes its process. It may have something
to print and something to complain about; in the end it has a status, or it leaves that to what it
has put on the stack, or it fails with a message.

This module has what all commands share and those that only print or look.

This is part of the script interpreter, which stands in for the programs of a real machine. No
general result about the shell rests on it.
-/

namespace LineShell
namespace Machine

open Script

/-- How a command ends. -/
inductive Verdict where
  /-- With a status. -/
  | status (n : Nat)
  /-- As the frames it has put on the stack decide. -/
  | arranged
  /-- As frames decide that are carried out after a file has been read in that is to define a
  function. -/
  | reads (function path : Chars) (next : List Frame)
  /-- It fails. -/
  | failed (message : String)

/-- What a command does. -/
structure Act where
  /-- The process afterwards. -/
  process : Process
  /-- The machine afterwards. -/
  machine : Machine
  /-- What it has to say. -/
  out : List Said := []
  /-- How it ends. -/
  verdict : Verdict := .status 0

/-- A command, by its arguments. -/
abbrev Command := List Chars → Process → Machine → Act

namespace Command

/-- The command does nothing but have a status. -/
def constant (n : Nat) : Command :=
  fun _ process machine => { process, machine, verdict := .status n }

/-- The command fails. -/
def failing (message : String) : Command :=
  fun _ process machine => { process, machine, verdict := .failed message }

/-- The command prints something. -/
def printing (s : Chars) : Command :=
  fun _ process machine => { process, machine, out := [.text s] }

/-- The letters of an argument that are options, with the argument of the last of them. An option in
`taking` takes an argument: the rest of the letters, or else the next argument. -/
def optionLetters (plain taking : Chars) : Chars → List Chars →
    Except String (List (Char × Chars) × List Chars)
  | [], rest => .ok ([], rest)
  | c :: cs, rest =>
    if taking.contains c then
      match cs, rest with
      | [], [] => .error s!"No arg for -{c} option"
      | [], arg :: rest => .ok ([(c, arg)], rest)
      | cs, rest => .ok ([(c, cs)], rest)
    else if plain.contains c then
      match optionLetters plain taking cs rest with
      | .error e => .error e
      | .ok (l, rest) => .ok ((c, []) :: l, rest)
    else .error s!"Illegal option -{c}"

/-- The options at the start of arguments, and the other arguments; the number bounds how many. -/
def optionsWithin (plain taking : Chars) : Nat → List Chars →
    Except String (List (Char × Chars) × List Chars)
  | 0, args => .ok ([], args)
  | n + 1, args =>
    match args with
    | ['-', '-'] :: rest => .ok ([], rest)
    | ('-' :: c :: cs) :: rest =>
      match optionLetters plain taking (c :: cs) rest with
      | .error e => .error e
      | .ok (l, rest) =>
        match optionsWithin plain taking n rest with
        | .error e => .error e
        | .ok (more, rest) => .ok (l ++ more, rest)
    | _ => .ok ([], args)

/-- The options at the start of arguments, and the other arguments. -/
def options (plain taking : String) (args : List Chars) :
    Except String (List (Char × Chars) × List Chars) :=
  optionsWithin plain.toList taking.toList (args.length + 1) args

/-- A command with options. -/
def withOptions (plain taking : String) (body : List (Char × Chars) → Command) : Command :=
  fun args p m =>
    match options plain taking args with
    | .error e => failing e args p m
    | .ok (found, args) => body found args p m

/-- `echo` -/
def echo : Command :=
  fun args => printing (Format.echo args) args

/-- `printf` -/
def printf : Command :=
  withOptions "" "" fun _ args process machine =>
    match args with
    | [] => failing "usage: printf format [arg ...]" args process machine
    | format :: args =>
      match Format.print format args with
      | (p, some message) =>
        { process, machine, out := (p.out.complain message).said, verdict := .status 2 }
      | (p, none) =>
        { process, machine, out := p.out.said, verdict := .status (if p.hasFailed then 1 else 0) }

/-- How a process looks at files. -/
def view (p : Process) (m : Machine) : FileView where
  facts path :=
    match m.disk.find? p.dir path with
    | .error _ => none
    | .ok (_, node) =>
      some
        { kind := Disk.kindOf node
          holdsSomething := match node with
            | .file content _ => content ≠ []
            | .directory => true
            | .interpreter => true
            | _ => false
          marks := match node with
            | .file _ mode =>
              [("-u", mode.setsUser), ("-g", mode.setsGroup), ("-k", mode.sticky)].filterMap
                fun (op, isSet) => if isSet then some op else none
            | _ => [] }
  isLink path := m.disk.isLink p.dir path
  same a b :=
    match m.disk.find? p.dir a, m.disk.find? p.dir b with
    | .ok (x, _), .ok (y, _) => x = y
    | _, _ => false
  newer a b :=
    match m.disk.find? p.dir a, m.disk.find? p.dir b with
    | .ok (x, _), .ok (y, _) => m.disk.time y < m.disk.time x
    | _, _ => false

/-- `test` -/
def test : Command :=
  fun args process machine =>
    match Condition.eval (view process machine) args with
    | .error e => failing e args process machine
    | .ok holds => constant (if holds then 0 else 1) args process machine

/-- `[` -/
def bracket : Command :=
  fun args p m =>
    match args.getLast? with
    | some (']' :: _) => test args.dropLast p m
    | _ => failing "missing ]" args p m

/-- A text between single quotes, its own single quotes between double ones; the number bounds how
often they change. -/
def quoteWithin : Nat → Chars → Chars
  | 0, s => s
  | n + 1, s =>
    let plain := s.takeWhile (· ≠ '\'')
    let rest := s.drop plain.length
    let quotes := rest.takeWhile (· = '\'')
    let rest := rest.drop quotes.length
    '\'' :: plain ++ '\'' ::
      (if quotes = [] then [] else '"' :: quotes ++ '"' ::
        (if rest = [] then [] else quoteWithin n rest))

/-- A text between single quotes, its own single quotes between double ones. -/
def quote (s : Chars) : Chars :=
  quoteWithin (s.length + 1) s

end Command
end Machine
end LineShell
