import LineShell.State

/-!
# What a command word stands for

A command word is the name of a builtin, or else it means a program: one with a slash is a path
as seen from the working directory, any other is looked up in the search path. Whatever runs a
command asks `Command.resolve` first.
-/

namespace LineShell

/-- The commands that the shell carries out itself. -/
inductive Builtin where
  /-- Changes the working directory. -/
  | cd
  /-- Prints its arguments. -/
  | echo
  /-- Ends the shell. -/
  | exit
  /-- Lists, reads and saves the history. -/
  | history
  /-- Prints the working directory. -/
  | pwd
  /-- Tells what names stand for. -/
  | type
  deriving DecidableEq, Repr

namespace Builtin

/-- All builtins, in the order of their names. -/
def all : List Builtin :=
  [cd, echo, exit, history, pwd, type]

/-- The name of a builtin. -/
def name : Builtin → String
  | cd => "cd"
  | echo => "echo"
  | exit => "exit"
  | history => "history"
  | pwd => "pwd"
  | type => "type"

/-- The builtin of a name. -/
def ofName? (s : String) : Option Builtin :=
  all.find? fun b => s = b.name

end Builtin

/-- What a command word stands for. -/
inductive Command where
  /-- A builtin. -/
  | builtin (b : Builtin)
  /-- The program in a file. -/
  | external (program : String)
  deriving DecidableEq, Repr

namespace Command

variable {σ : Type} [Host σ]

/-- The file of the program that a command word means. -/
def program? (st : State) (s : σ) (name : String) : Option String :=
  if name.toList.contains '/' then
    let p := Path.join st.cwd name
    if Host.isExecutable s p then some p else none
  else st.searchPath.find? s name

/-- What a command word stands for, if anything. Builtins come before programs. -/
def resolve (st : State) (s : σ) (name : String) : Option Command :=
  match Builtin.ofName? name with
  | some b => some (builtin b)
  | none => (program? st s name).map external

end Command
end LineShell
