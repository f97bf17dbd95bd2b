import LineShell.OsError
import LineShell.Redirection
import LineShell.Text.Bytes

/-!
# What the shell needs of the machine it runs on

The shell reads and writes files, and starts programs and waits for them. This module names those
services. Everything the shell does is a function of them, so what is proved of the shell holds on
every machine: whatever its files hold, whichever operations fail, and whatever its programs do.

A service takes the state of the machine and gives it back changed; one that only looks does not
give it back. Paths that do not start at the root are read from the directory in which the shell
itself was started.
-/

namespace LineShell

/-- What a path names, once links are followed. -/
inductive FileKind where
  /-- A directory. -/
  | directory
  /-- A regular file, and whether anybody may execute it. -/
  | file (executable : Bool)
  /-- Something else, such as a device. -/
  | other
  deriving DecidableEq, Repr

/-- A file that was opened for writing. -/
structure Handle where
  /-- Its number among the open files. -/
  id : Nat
  deriving DecidableEq, Repr

/-- The end of a pipe from which a program's output can be read. -/
structure Pipe where
  /-- Its number among the pipes. -/
  id : Nat
  deriving DecidableEq, Repr

/-- Where a program's standard input comes from. -/
inductive Input where
  /-- The null device: there is nothing to read. -/
  | empty
  /-- The shell's own standard input. -/
  | inherited
  /-- The output of another program, while that program runs. -/
  | pipe (p : Pipe)
  /-- These bytes. -/
  | buffer (b : Bytes)
  deriving DecidableEq, Repr

/-- Where one of a program's output streams goes. -/
inductive Output where
  /-- To the same stream of the shell. -/
  | inherited
  /-- To an open file. -/
  | file (h : Handle)
  /-- Into a new pipe. -/
  | pipe
  deriving DecidableEq, Repr

/-- A program to be started. -/
structure Launch where
  /-- The file that holds the program. -/
  program : String
  /-- The name by which it is called. -/
  name : String
  /-- Its arguments. -/
  args : List String
  /-- The directory it works in. -/
  dir : String
  /-- Where its standard input comes from. -/
  stdin : Input
  /-- Where its standard output goes. -/
  stdout : Output
  /-- Where its standard error goes. -/
  stderr : Output
  deriving DecidableEq, Repr

/-- A program that was started. -/
structure Child where
  /-- Its number among the programs. -/
  id : Nat
  /-- The pipe that its standard output goes into, if it does. -/
  output : Option Pipe
  deriving DecidableEq, Repr

/-- The services of a machine with states `σ`. -/
class Host (σ : Type) where
  /-- What a path names, if it names anything. -/
  kind? : σ → String → Option FileKind
  /-- The names in a directory, in no particular order, if they can be read. -/
  entries? : σ → String → Option (List String)
  /-- All that a file holds. -/
  read : σ → String → Except OsError Bytes
  /-- Makes a directory and those above it, as far as they are missing. -/
  makeDirs : String → σ → Except OsError Unit × σ
  /-- Opens a file for writing and makes it if it is missing. -/
  create : String → WriteMode → σ → Except OsError Handle × σ
  /-- Writes to an open file. -/
  write : Handle → Bytes → σ → Except OsError Unit × σ
  /-- Writes to the shell's standard output. -/
  print : Bytes → σ → Except OsError Unit × σ
  /-- Writes to the shell's standard error; that it fails goes unnoticed. -/
  complain : Bytes → σ → σ
  /-- Starts a program. A pipe it was to read from is closed if it cannot be started. -/
  start : Launch → σ → Except OsError Child × σ
  /-- Closes a pipe that nobody is going to read from. -/
  hangUp : Pipe → σ → σ
  /-- Waits until a program has ended. -/
  wait : Child → σ → Except OsError Unit × σ
  /-- The next line of the shell's standard input, with its ending; none at the end of input. -/
  nextLine : σ → Option Bytes × σ

namespace Host

variable {σ : Type} [Host σ]

/-- Whether a path names a directory. -/
def isDirectory (s : σ) (p : String) : Bool :=
  kind? s p == some .directory

/-- Whether a path names anything. -/
def pathExists (s : σ) (p : String) : Bool :=
  (kind? s p).isSome

/-- Whether a path names a regular file that anybody may execute. -/
def isExecutable (s : σ) (p : String) : Bool :=
  kind? s p == some (.file true)

/-- Writes one line to the shell's standard error. -/
def complainLine (message : String) (s : σ) : σ :=
  complain (Bytes.ofLine message) s

end Host
end LineShell
