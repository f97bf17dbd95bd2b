import LineShell.Line
import LineShell.Options
import LineShell.Startup

/-!
# Sessions

A session loads the history file, runs the startup lines, which are not recorded, and then reads
its input line by line. Each line that is not blank is recorded and run. The session ends when a
line ends it or at the end of input; then the entries that were not in the history file are added
to it. It also ends at a line that is not text, and then nothing is saved.

Of the log there are the warnings of the session itself, about its files. What is logged for
debugging is left out: it changes nothing but the log. So is the warning that a program of a
pipeline could not be waited for.
-/

namespace LineShell

/-- What a session finds around it. -/
structure Environment where
  /-- The directory it is started in. -/
  cwd : String
  /-- The home directory. -/
  home : Option String
  /-- The directories in which programs are looked up, separated by colons. -/
  path : Option String
  /-- The history file. -/
  historyFile : Option String
  deriving DecidableEq, Repr

/-- What ends the shell against its will. -/
inductive Abort where
  /-- An option lacks its value. -/
  | missingValue (e : Options.MissingValue)
  /-- A line of input is not text. -/
  | unreadable
  deriving DecidableEq, Repr

/-- The cause as the shell knows it. -/
def Abort.cause : Abort → ShellError
  | missingValue e => .flag e.message
  | unreadable => .read (.io .notText)

/-- The last line that the shell writes. -/
def Abort.message : Abort → String
  | missingValue e => s!"Error: FlagError(\"{e.message}\")"
  | unreadable =>
    s!"Error: Readline(Io(Error \x7b kind: InvalidData, message: \"{OsError.notText.text}\" \x7d))"

namespace Session

variable {σ : Type} [Host σ]

/-- Logs a warning, unless only errors are to be logged. -/
def warn (o : Options) (text : String) (s : σ) : σ :=
  match o.level with
  | .error => s
  | _ => Host.complainLine s!"[WARN] {text}" s

/-- The history at the start of a session. A missing file is no cause for a warning. -/
def loadHistory (o : Options) (cfg : Startup) (st : State) (s : σ) : State × σ :=
  match cfg.historyFile with
  | none => (st, s)
  | some path =>
    match st.history.load s path with
    | (.ok _, h) => ({ st with history := h }, s)
    | (.error e, h) =>
      let st := { st with history := h }
      if e.cause.kind = .notFound then (st, s)
      else (st, warn o s!"couldn't load history: {e.message}" s)

/-- Runs lines without recording them, until one of them ends the shell. -/
def runLines : List String → State → σ → Flow × State × σ
  | [], st, s => (.proceed, st, s)
  | line :: rest, st, s =>
    match Line.run line st s with
    | (.exit n, st, s) => (.exit n, st, s)
    | (.proceed, st, s) => runLines rest st s

/-- Runs the startup lines. -/
def runStartup (o : Options) (cfg : Startup) (st : State) (s : σ) : Flow × State × σ :=
  match cfg.commands s with
  | .error e => (.proceed, st, warn o s!"couldn't read rc file: {e.message}" s)
  | .ok lines => runLines lines st s

/-- Runs a line of input; a blank one is passed over. -/
def runInput (line : String) (st : State) (s : σ) : Flow × State × σ :=
  if Text.blank line then (.proceed, st, s) else Line.enter line st s

/-- Reads and runs lines until one of them ends the shell, is not text, or there are no more. The
number bounds how many lines are read. -/
def readLines : Nat → State → σ → Except Abort Nat × State × σ
  | 0, st, s => (.ok 0, st, s)
  | limit + 1, st, s =>
    match Host.nextLine s with
    | (none, s) => (.ok 0, st, s)
    | (some bytes, s) =>
      match Bytes.text? bytes.chomp with
      | none => (.error .unreadable, st, s)
      | some line =>
        match runInput line st s with
        | (.exit n, st, s) => (.ok n, st, s)
        | (.proceed, st, s) => readLines limit st s

/-- Saves the history at the end of a session. -/
def finish (o : Options) (cfg : Startup) (st : State) (s : σ) : σ :=
  match cfg.historyFile with
  | none => s
  | some path =>
    match st.history.appendTo path s with
    | (.ok _, _, s) => s
    | (.error e, _, s) => warn o s!"couldn't save history: {e.message}" s

/-- A whole session: its status, or what ended it. -/
def run (limit : Nat) (o : Options) (env : Environment) (s : σ) : Except Abort Nat × σ :=
  let cfg := Startup.ofSettings env.home o.config env.historyFile
  let st : State := { cwd := env.cwd, home := env.home, searchPath := .ofValue env.path }
  let (st, s) := loadHistory o cfg st s
  match runStartup o cfg st s with
  | (.exit n, st, s) => (.ok n, finish o cfg st s)
  | (.proceed, st, s) =>
    match readLines limit st s with
    | (.error e, _, s) => (.error e, s)
    | (.ok n, st, s) => (.ok n, finish o cfg st s)

/-- The shell from its command line to its status. -/
def main (limit : Nat) (args : List String) (env : Environment) (s : σ) : Nat × σ :=
  match ({} : Options).parse args with
  | (_, some missing) => (1, Host.complainLine (Abort.missingValue missing).message s)
  | (o, none) =>
    if o.help then (0, (Host.print (Bytes.ofText Options.usage) s).2)
    else if o.version then (0, (Host.print (Bytes.ofLine "conch 0.1.0") s).2)
    else
      match run limit o env s with
      | (.ok n, s) => (n, s)
      | (.error e, s) => (1, Host.complainLine e.message s)

end Session
end LineShell
