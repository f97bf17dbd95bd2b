import LineShell.Command
import LineShell.HistoryFile
import LineShell.Text.Number

/-!
# Builtins

A builtin takes its arguments and works on the state of the shell. It never prints: it gives back a
text to be printed, or nothing, or asks the shell to end, or fails.

| builtin   | with                    | does                                           |
|-----------|-------------------------|------------------------------------------------|
| `cd`      | nothing or a directory  | goes home, or to the directory                 |
| `echo`    | words                   | gives them back, joined by single spaces       |
| `exit`    | nothing or a number     | ends the shell with that status modulo 256     |
| `history` | nothing or a count      | lists the entries, or the latest of them       |
| `history` | `-r`, `-w`, `-a` and a file | reads the file, replaces it, appends to it |
| `pwd`     | anything                | gives the working directory                    |
| `type`    | names                   | tells what each of them stands for             |
-/

namespace LineShell

/-- What a builtin that succeeds gives back. -/
inductive Outcome where
  /-- A text to be printed. -/
  | text (s : String)
  /-- Nothing. -/
  | silent
  /-- The status with which the shell is to end. -/
  | exit (status : Nat)
  deriving DecidableEq, Repr

namespace Builtin

/-- The arguments are more than the command can use. -/
def tooMany (b : Builtin) : CommandError :=
  .invalidArguments s!"{b.name}: too many arguments"

/-- The argument should have been a number. -/
def notNumeric (b : Builtin) (arg : String) : CommandError :=
  .invalidArguments s!"{b.name}: {arg}: numeric argument required"

/-- Ends the shell. -/
def runExit : List String → Except CommandError Outcome
  | [] => .ok (.exit 0)
  | [arg] =>
    match Text.status? arg with
    | none => .error (notNumeric exit arg)
    | some n => .ok (.exit (n % 256).toNat)
  | _ => .error (tooMany exit)

variable {σ : Type} [Host σ]

/-- Goes to a directory. -/
def goTo (st : State) (s : σ) (path : String) : Except CommandError State :=
  match st.resolve path with
  | .error .notFound => .error (.executionFailed "cd: HOME not set")
  | .ok target =>
    if Host.isDirectory s target then .ok { st with cwd := target }
    else if Host.pathExists s target then
      .error (.executionFailed s!"cd: {path}: Not a directory")
    else .error (.executionFailed s!"cd: {path}: No such file or directory")

/-- Changes the working directory. -/
def runCd (st : State) (s : σ) : List String → Except CommandError State
  | [] => goTo st s "~"
  | [path] => goTo st s path
  | _ => .error (tooMany cd)

/-- What a name stands for, in words. -/
def describe (st : State) (s : σ) (name : String) : String :=
  if (ofName? name).isSome then s!"{name} is a shell builtin"
  else
    match Command.program? st s name with
    | some program => s!"{name} is {program}"
    | none => s!"{name}: not found"

/-- Tells what names stand for. -/
def runType (st : State) (s : σ) : List String → Outcome
  | [] => .silent
  | names => .text ("\n".intercalate (names.map (describe st s)))

/-- The latest entries of the history, one per line with their numbers. -/
def recentEntries (h : History) (count : Nat) : Outcome :=
  match h.recent count with
  | [] => .silent
  | l => .text ("\n".intercalate (l.map fun (n, e) => s!"{Text.padLeft 4 (toString n)} {e}"))

/-- What `history` does with a file. -/
inductive FileAction where
  /-- Adds the lines of the file. -/
  | read
  /-- Replaces the file. -/
  | write
  /-- Appends what has not been saved. -/
  | append
  deriving DecidableEq, Repr

/-- The option that asks for an action on a file. -/
def FileAction.ofOption? : String → Option FileAction
  | "-r" => some .read
  | "-w" => some .write
  | "-a" => some .append
  | _ => none

/-- Does with a file what is asked for. -/
def FileAction.apply (a : FileAction) (h : History) (path : String) (s : σ) :
    Except FileError Unit × History × σ :=
  match a with
  | read =>
    match h.readFrom s path with
    | (.error e, h) => (.error e, h, s)
    | (.ok _, h) => (.ok (), h, s)
  | write => h.writeTo path s
  | append => h.appendTo path s

/-- Reads, replaces or appends to a history file. -/
def runFileAction (a : FileAction) (st : State) (path : String) (s : σ) :
    Except CommandError Outcome × State × σ :=
  match st.resolve path with
  | .error .notFound => (.error (.executionFailed "history: Home directory not found"), st, s)
  | .ok file =>
    match a.apply st.history file s with
    | (.error e, h, s) =>
      (.error (.executionFailed s!"history: {path}: {e.cause.reason}"), { st with history := h }, s)
    | (.ok _, h, s) => (.ok .silent, { st with history := h }, s)

/-- Lists, reads and saves the history. -/
def runHistory (st : State) (args : List String) (s : σ) :
    Except CommandError Outcome × State × σ :=
  match args with
  | [] => (.ok (recentEntries st.history st.history.entries.length), st, s)
  | first :: rest =>
    match FileAction.ofOption? first, rest with
    | some _, [] =>
      (.error (.invalidArguments s!"history: {first}: option requires an argument"), st, s)
    | some a, path :: _ => runFileAction a st path s
    | none, _ =>
      if Names.startsWith first "-" ∧ first ≠ "-" then
        (.error (.invalidArguments s!"history: {first}: invalid option"), st, s)
      else
        match Text.count? first with
        | none => (.error (notNumeric history first), st, s)
        | some n => (.ok (recentEntries st.history n), st, s)

/-- Carries out a builtin. -/
def run (b : Builtin) (args : List String) (st : State) (s : σ) :
    Except CommandError Outcome × State × σ :=
  match b with
  | cd =>
    match runCd st s args with
    | .error e => (.error e, st, s)
    | .ok st => (.ok .silent, st, s)
  | echo => (.ok (.text (" ".intercalate args)), st, s)
  | exit => (runExit args, st, s)
  | history => runHistory st args s
  | pwd => (.ok (.text st.cwd), st, s)
  | type => (.ok (runType st s args), st, s)

end Builtin
end LineShell
