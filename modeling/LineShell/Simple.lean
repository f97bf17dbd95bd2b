import LineShell.Builtin
import LineShell.Invocation
import LineShell.Target

/-!
# Running a single command

The targets of a command are opened before anything else; if one of them cannot be opened the
command is not run. A builtin's text then goes to its standard output and its failure to its
standard error. A program is started in the working directory with the shell's own streams where it
has no targets, and the shell waits for it. That it cannot be started or waited for is reported.

Nothing that goes wrong ends the shell: only `exit` does.
-/

namespace LineShell

/-- What the shell does after a line. -/
inductive Flow where
  /-- It reads the next line. -/
  | proceed
  /-- It ends with a status. -/
  | exit (status : Nat)
  deriving DecidableEq, Repr

variable {σ : Type} [Host σ]

/-- Writes a line to an open file, or else to the shell's standard output. -/
def writeLine (file : Option Handle) (text : String) (s : σ) : Except OsError Unit × σ :=
  match file with
  | some h => Host.write h (Bytes.ofLine text) s
  | none => Host.print (Bytes.ofLine text) s

/-- Writes a line to an open file, or else to the shell's standard error. -/
def writeError (file : Option Handle) (message : String) (s : σ) : Except OsError Unit × σ :=
  match file with
  | some h => Host.write h (Bytes.ofLine message) s
  | none => (.ok (), Host.complainLine message s)

/-- Writes what a builtin gave back to where it belongs. -/
def deliver (out err : Option Handle) (result : Except CommandError Outcome) (s : σ) :
    Except OsError Unit × σ :=
  match result with
  | .ok (.text text) => writeLine out text s
  | .ok .silent => (.ok (), s)
  | .ok (.exit _) => (.ok (), s)
  | .error e => writeError err e.message s

/-- Tells that what a command gave back could not be written. -/
def complainUnwritten (name : String) (written : Except OsError Unit) (s : σ) : σ :=
  match written with
  | .ok _ => s
  | .error e => Host.complainLine s!"{name}: write error: {e.text}" s

/-- Runs a builtin with its targets. -/
def runBuiltin (b : Builtin) (inv : Invocation) (st : State) (s : σ) : Flow × State × σ :=
  match Target.openBoth st.cwd inv.redirection s with
  | (.error e, s) => (.proceed, st, Host.complainLine s!"{inv.name}: {e.message}" s)
  | (.ok (out, err), s) =>
    match b.run inv.args st s with
    | (.ok (.exit n), st, s) => (.exit n, st, s)
    | (result, st, s) =>
      let (written, s) := deliver out err result s
      (.proceed, st, complainUnwritten inv.name written s)

/-- Where an output stream goes whose target was opened. -/
def Output.ofTarget (h : Option Handle) : Output :=
  match h with
  | some h => .file h
  | none => .inherited

/-- Waits until a program has ended. -/
def awaitProgram (child : Child) (s : σ) : Except ProcessError Unit × σ :=
  match Host.wait child s with
  | (.error e, s) => (.error (.io e), s)
  | (.ok _, s) => (.ok (), s)

/-- Runs a program with its targets and waits for it. -/
def runProgram (program : String) (inv : Invocation) (st : State) (s : σ) :
    Except ProcessError Unit × σ :=
  match Target.openBoth st.cwd inv.redirection s with
  | (.error e, s) => (.error e, s)
  | (.ok (out, err), s) =>
    let launch : Launch :=
      { program, name := inv.name, args := inv.args, dir := st.cwd, stdin := .inherited,
        stdout := .ofTarget out, stderr := .ofTarget err }
    match Host.start launch s with
    | (.error e, s) => (.error (.spawn inv.name e), s)
    | (.ok child, s) => awaitProgram child s

/-- Runs a command. -/
def Invocation.run (inv : Invocation) (st : State) (s : σ) : Flow × State × σ :=
  match Command.resolve st s inv.name with
  | some (.builtin b) => runBuiltin b inv st s
  | some (.external program) =>
    match runProgram program inv st s with
    | (.ok _, s) => (.proceed, st, s)
    | (.error e, s) => (.proceed, st, report st.cwd inv.redirection e.message s)
  | none =>
    let message := (CommandError.notFound inv.name).message
    (.proceed, st, report st.cwd inv.redirection message s)

end LineShell
