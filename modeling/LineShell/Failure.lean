import LineShell.OsError

/-!
# Failures and how they are worded

Each part of the shell has its own failures; this module gives all of them their wording. Whatever
fails, the shell says it on one line and goes on.
-/

namespace LineShell

/-- A command that did not do its work. -/
inductive CommandError where
  /-- No builtin and no program has that name. -/
  | notFound (name : String)
  /-- The arguments make no sense to the command. -/
  | invalidArguments (text : String)
  /-- The arguments make sense, but the work cannot be done. -/
  | executionFailed (text : String)
  deriving DecidableEq, Repr

/-- The wording of a command's failure. -/
def CommandError.message : CommandError → String
  | notFound name => s!"{name}: command not found"
  | invalidArguments text => text
  | executionFailed text => text

/-- A program or one of its files that gave trouble. -/
inductive ProcessError where
  /-- The program could not be started. -/
  | spawn (name : String) (cause : OsError)
  /-- The target of a redirection could not be opened. -/
  | redirect (path : String) (cause : OsError)
  /-- Talking to a running program failed. -/
  | io (cause : OsError)
  /-- A signal handler could not be set up. -/
  | signal (text : String)
  deriving DecidableEq, Repr

/-- The wording of trouble with a program. -/
def ProcessError.message : ProcessError → String
  | spawn name cause => s!"{name}: {cause.reason}"
  | redirect path cause => s!"{path}: {cause.reason}"
  | io cause => cause.reason
  | signal text => s!"Signal error: {text}"

/-- Why a pipeline was given up. -/
inductive PipelineError where
  /-- A stage has no words; the token after it is out of place. -/
  | unexpected (token : String)
  /-- The name of a stage stands for nothing. -/
  | notFound (name : String)
  /-- A stage could not be started. -/
  | process (cause : ProcessError)
  deriving DecidableEq, Repr

/-- The wording of a pipeline's failure. -/
def PipelineError.message : PipelineError → String
  | unexpected token => s!"conch: syntax error near unexpected token `{token}'"
  | notFound name => (CommandError.notFound name).message
  | process cause => cause.message

/-- A history or startup file that could not be read or written. -/
structure FileError where
  /-- The file. -/
  path : String
  /-- What went wrong. -/
  cause : OsError
  deriving DecidableEq, Repr

/-- The wording of a failure with a file. -/
def FileError.message (e : FileError) : String :=
  s!"{e.path}: {e.cause.reason}"

/-- Why no line could be read. -/
inductive ReadError where
  /-- The input has ended. -/
  | endOfInput
  /-- The line is not text. -/
  | io (cause : OsError)
  deriving DecidableEq, Repr

/-- The wording of a failure to read a line. -/
def ReadError.message : ReadError → String
  | endOfInput => "EOF"
  | io cause => cause.text

/-- What ends the shell itself. -/
inductive ShellError where
  /-- No line could be read. -/
  | read (cause : ReadError)
  /-- The operating system refused something the shell needs. -/
  | io (cause : OsError)
  /-- The home directory is not known. -/
  | homeNotFound
  /-- The command line of the shell makes no sense. -/
  | flag (text : String)
  deriving DecidableEq, Repr

/-- The wording of what ends the shell. -/
def ShellError.message : ShellError → String
  | read cause => s!"Readline error: {cause.message}"
  | io cause => s!"IO error: {cause.text}"
  | homeNotFound => "Home directory not found"
  | flag text => s!"Flag error: {text}"

end LineShell
