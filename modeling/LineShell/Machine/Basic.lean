import LineShell.Machine.Files
import LineShell.Script.Expand
import LineShell.Script.Limit
import LineShell.Script.Mask
import LineShell.Script.Printout
import LineShell.Script.Signal

/-!
# Machines

A machine has a disk, open files, pipes and processes, and the three streams of the shell. All of
it is data: running a machine is applying functions to it.

A process runs a script. It has descriptors, small numbers under which things are open for it; from
ten on they are its own, and programs that it starts do not get them. What it still has to do is a
stack of frames (`Frame`): each step takes the topmost frame and carries it out or replaces it by
smaller ones.

Nothing tells directly whether a pipe has a reader or a writer. It has one as long as a process that
has not ended, or the shell, has it open.
-/

namespace LineShell

/-- Something that is open. -/
inductive Opened where
  /-- A file. -/
  | file (f : OpenFile)
  /-- The end of a pipe that is read from. -/
  | reader (pipe : Nat)
  /-- The end of a pipe that is written to. -/
  | writer (pipe : Nat)
  /-- The shell's standard input. -/
  | input
  /-- The shell's standard output. -/
  | output
  /-- The shell's standard error. -/
  | error
  deriving DecidableEq, Repr

/-- A page of a pipe. -/
structure Page where
  /-- How much of it has been used. -/
  used : Nat
  /-- How much of that has not been read. -/
  left : Nat
  deriving DecidableEq, Repr

/-- A pipe. -/
structure PipeState where
  /-- The bytes that have been written and not yet read. -/
  content : Bytes := []
  /-- The pages that hold them, the first one first. What the shell itself puts in has none. -/
  pages : List Page := []
  /-- Whether the shell may still pass on the end that is read from. -/
  held : Bool := false
  deriving DecidableEq, Repr

/-- How a process has ended. -/
inductive Ending where
  /-- With a status. -/
  | status (n : Nat)
  /-- By a signal. -/
  | signal (n : Nat)
  deriving DecidableEq, Repr

namespace Ending

/-- The ending as it is kept: of a status, only eight bits. -/
def kept : Ending → Ending
  | status n => status (n % 256)
  | signal n => signal n

/-- The status that a script sees. -/
def seen : Ending → Nat
  | status n => n
  | signal n => 128 + n

end Ending

open Script

/-- A text from which commands are read. -/
structure CommandText where
  /-- What was read of it and not carried out yet. -/
  text : Chars
  /-- The line on which that starts. -/
  line : Nat := 1
  /-- Where more of it comes from: the number of something that is open. -/
  source : Option Nat := none
  /-- The descriptor under which that is open. -/
  fd : Option Nat := none
  /-- Whether it comes from something that is open. -/
  fromFile : Bool := false
  /-- Whether somebody looks at the status of its commands. -/
  tested : Bool := false
  /-- Whether its last command is the last thing that the process does. -/
  isLast : Bool := false
  /-- Whether it is the script of the process itself, as a file or as its input. -/
  isOwn : Bool := false
  /-- How often somebody was asked for a line of the next command. -/
  asked : Nat := 0
  /-- How often its end was reached. -/
  ends : Nat := 0

/-- A simple command whose words are expanded and whose redirections are in place. -/
structure Prepared where
  /-- Its fields. -/
  fields : List Chars
  /-- The assignments before it. -/
  assignments : List (String × RawWord)
  /-- What its trace is written to: something that is open. -/
  trace : Option Nat
  /-- Whether somebody looks at its status. -/
  tested : Bool

/-- A line that is being read into variables. -/
structure Reading where
  /-- The variables. -/
  names : List String
  /-- Whether backslashes stand for themselves. -/
  verbatim : Bool
  /-- What was read so far, the last character first. Quoted characters do not divide the line. -/
  soFar : List Marked := []
  /-- Whether a backslash was the last character. -/
  afterBackslash : Bool := false

/-- A loop with a condition. -/
structure Loop where
  /-- Whether it goes on while the condition succeeds, or until it does. -/
  whileSuccess : Bool
  /-- The condition. -/
  condition : Statement
  /-- The body. -/
  body : Statement
  /-- Whether somebody looks at its status. -/
  tested : Bool

/-- Processes that were started in the background together. -/
structure Job where
  /-- The number by which a script knows them. -/
  number : Nat
  /-- The processes. -/
  processes : List Nat
  /-- Whether the script has taken notice of their end. -/
  noticed : Bool := false
  /-- Whether the script has waited for them. -/
  waited : Bool := false
  deriving DecidableEq, Repr

/-- What a call of a function, or a command with assignments before it, has to put back. -/
structure Kept where
  /-- The variables. -/
  bindings : List (String × Option Variable)
  /-- The options, if they are put back too. -/
  options : Option (List Char) := none

/-- A redirection whose word is expanded. -/
inductive Reroute where
  /-- A descriptor is opened on a file. -/
  | file (fd : Nat) (how : Access) (path : Chars)
  /-- A descriptor becomes a copy of another one, or is closed. -/
  | copy (fd : Nat) (source : Option Nat)
  /-- A descriptor reads a text that is to be expanded. -/
  | document (fd : Nat) (body : RawWord)
  /-- A descriptor reads a text. -/
  | text (fd : Nat) (content : Chars)

namespace Reroute

/-- The descriptor of a redirection. -/
def fd : Reroute → Nat
  | file fd _ _ => fd
  | copy fd _ => fd
  | document fd _ => fd
  | text fd _ => fd

/-- Whether a redirection closes its descriptor. -/
def closes : Reroute → Bool
  | copy _ none => true
  | _ => false

/-- Whether a redirection copies its descriptor to itself. -/
def isIdle : Reroute → Bool
  | copy fd (some source) => fd = source
  | _ => false

/-- Whether a redirection copies a descriptor. -/
def copies : Reroute → Bool
  | copy _ _ => true
  | _ => false

end Reroute

/-- What redirections are for. -/
inductive Purpose where
  /-- A simple command. -/
  | command (c : Prepared)
  /-- A statement; whether somebody looks at its status. -/
  | statement (s : Statement) (tested : Bool)
  /-- A statement that is the last thing that the process does, so that nothing is put back. -/
  | last (s : Statement) (tested : Bool)

/-- What a process still has to do. -/
inductive Frame where
  /-- Read commands from a text and carry them out. -/
  | commands (t : CommandText)
  /-- Ask for a line with the value of a variable. -/
  | ask (name : String)
  /-- Carry out the commands that are to be carried out before somebody is asked for others. -/
  | profile
  /-- Carry out a statement. -/
  | run (s : Statement) (tested : Bool)
  /-- Carry out redirections; what was open before is given for those that are in place. -/
  | reroute (todo : List Reroute) (saved : List (Nat × Option Nat)) (purpose : Purpose)
  /-- Carry out a simple command. -/
  | prepared (c : Prepared)
  /-- Write what a command has to say, and set the status; whether writing has failed before. -/
  | print (name : String) (said : List Said) (status : Nat) (failed : Bool)
  /-- Read a line. -/
  | read (r : Reading)
  /-- A command has been carried out. If nobody looks at its status, a failure ends the script if it
  is to end at the first failure. -/
  | checked (tested : Bool)
  /-- The last word of a command becomes the value of the variable `_`. -/
  | lastWord (word : Chars)
  /-- Turn the status around. -/
  | inverted
  /-- Carry out a statement after success or after failure. -/
  | second (afterFailure : Bool) (s : Statement) (tested : Bool)
  /-- Go on with one of two statements. -/
  | chosen (yes : Statement) (no : Option Statement) (tested : Bool)
  /-- Go on with a loop after its condition; the status of its last round is given. -/
  | condition (l : Loop) (last : Nat)
  /-- Go on with a loop after its body. -/
  | round (l : Loop)
  /-- Go on with a loop over values. -/
  | each (name : String) (values : List Chars) (body : Statement) (tested : Bool)
  /-- Put descriptors back. -/
  | restore (saved : List (Nat × Option Nat))
  /-- Put variables back. -/
  | endLocals
  /-- Go back from a function to the arguments and loops around its call. -/
  | endCall (args : List Chars) (searched : Searched) (loopDepth : Nat)
  /-- Go back from a script that was read in. -/
  | endSourced
  /-- A script was read in that should have defined a function. -/
  | defined (function path : Chars)
  /-- Call a function. -/
  | call (name : String) (args : List Chars) (tested : Bool)
  /-- Describe names in words; the status so far is given. -/
  | describe (names : List Chars) (status : Nat)
  /-- Look for names; the status so far is given. -/
  | locate (names : List Chars) (status : Nat)
  /-- Go back to the name of the command around this one. -/
  | endCommand (command : Option String)
  /-- Go back to the status from before a trap. -/
  | afterTrap (status : Nat)
  /-- Wait for processes, and take the status of the last one. -/
  | await (children : List Nat)
  /-- Wait for jobs. If only some are waited for, take the status of the last one. -/
  | awaitJobs (numbers : List Nat) (all : Bool)
  /-- Take in what a process prints. -/
  | gather (fd : Nat) (child : Nat) (soFar : Bytes)
  /-- What fails above does not end the script. -/
  | caught
  /-- End with the status, after what is to be done at the end. -/
  | leave
  /-- End with the status. -/
  | quit
  /-- End with a message and a status. -/
  | abort (message : Bytes) (status : Nat)

/-- Why frames are being left. -/
inductive Skip where
  /-- So many loops are left. -/
  | loops (n : Nat)
  /-- The next round of a loop is begun, that many loops up. -/
  | round (n : Nat)
  /-- A function or script is left; whether the status with which it ends was given. -/
  | returned (told : Bool)
  /-- Something failed. -/
  | failed
  /-- Somebody interrupts what is being done. -/
  | interrupted
  deriving DecidableEq, Repr

/-- A process. -/
structure Process where
  /-- The process that started it, unless the shell did. -/
  parent : Option Nat := none
  /-- What its script knows. -/
  scope : Scope
  /-- The directory it works in. -/
  dir : Location
  /-- The path by which it came there. -/
  path : Chars
  /-- What is open under which descriptor. -/
  fds : List (Nat × Nat)
  /-- The descriptors that redirections have closed. A process that is split off with a descriptor
  open again does not know of that. -/
  shut : List Nat := []
  /-- What it still has to do. -/
  frames : List Frame
  /-- Why frames are being left, if they are. -/
  skip : Option Skip := none
  /-- What is known of the words that are being expanded. -/
  known : Known := {}
  /-- The status of the last of those commands. -/
  outputStatus : Option Nat := none
  /-- What is to be put back, call by call. -/
  locals : List Kept := []
  /-- In how many loops it is. -/
  loopDepth : Nat := 0
  /-- In how many calls of functions it is. Each call that was refused counts too. -/
  callDepth : Nat := 0
  /-- Whether somebody looks at the status of the command that is being carried out. -/
  tested : Bool := false
  /-- The command that is being carried out, for messages. -/
  command : Option String := none
  /-- The line that is being carried out, for messages. -/
  line : Nat := 0
  /-- Whether the end of the text that was read last is still to be read again. -/
  atEnd : Bool := false
  /-- The line up to which the process that started it had read its script. -/
  readLine : Nat := 0
  /-- What is done on which signal. -/
  traps : List (Nat × Chars) := []
  /-- The signals that have come, in their order. -/
  signals : List Nat := []
  /-- What was started in the background, the last first. -/
  jobs : List Job := []
  /-- Its creation mask. -/
  mask : Nat := Mask.standard
  /-- The limits that it has changed, by their letters. -/
  limits : List (Char × Limit) := []
  /-- Whether it was split off from another one that runs the same script. -/
  isSplit : Bool := false
  /-- For how many turns its program is still being loaded. -/
  loading : Nat := 0
  /-- How it has ended, if it has. -/
  ended : Option Ending := none

/-- A machine. -/
structure Machine where
  /-- Its disk. -/
  disk : Disk
  /-- The directory in which the shell was started. -/
  cwd : Location := []
  /-- The variables that the shell was started with, and passes on. -/
  settings : List (String × String) := []
  /-- What is or was open. -/
  opened : List Opened := []
  /-- The pipes. -/
  pipes : List PipeState := []
  /-- The processes. -/
  processes : List Process := []
  /-- What the shell has read of its standard input without having used it. -/
  readAhead : Bytes := []
  /-- The rest of the shell's standard input. -/
  input : Bytes := []
  /-- What was written to the shell's standard output. -/
  output : Bytes := []
  /-- What was written to the shell's standard error. -/
  errors : Bytes := []
  /-- The signals that a process has brought on itself by what it has just written. -/
  raised : List Nat := []

namespace Process

/-- Whether the process has not ended. -/
def alive (p : Process) : Bool :=
  p.ended.isNone

/-- What is open under a descriptor. -/
def fd? (p : Process) (n : Nat) : Option Nat :=
  p.fds.lookup n

/-- Opens something under a descriptor, or closes the descriptor. -/
def setFd (p : Process) (n : Nat) (o : Option Nat) : Process :=
  let others := p.fds.filter (·.1 ≠ n)
  { p with fds := match o with
    | none => others
    | some id => (n, id) :: others }

/-- Remembers whether a descriptor has been closed. -/
def remembering (fd : Nat) (closed : Bool) (p : Process) : Process :=
  let others := p.shut.filter (· ≠ fd)
  { p with shut := if closed then fd :: others else others }

/-- How much of a resource the process may use; none if there is no limit. -/
def limit (p : Process) (resource : Char) : Option Nat :=
  ((p.limits.lookup resource).getD (Limit.resource resource).start).soft

/-- Whether the process may open a descriptor. -/
def allows (p : Process) (fd : Nat) : Bool :=
  match p.limit 'n' with
  | none => true
  | some n => fd < n

/-- The descriptors in use; a script has one as long as it is being read. -/
def used (p : Process) : List Nat :=
  p.fds.map (·.1) ++ p.frames.filterMap fun
    | .commands t => t.fd
    | _ => none

/-- A descriptor among others, which are in order. -/
def placed : List Nat → Nat → List Nat
  | [], n => [n]
  | fd :: fds, n => if n ≤ fd then n :: fd :: fds else fd :: placed fds n

/-- The first number from one on that is not among descriptors, which are in order. -/
def firstGap : List Nat → Nat → Nat
  | [], n => n
  | fd :: fds, n => if fd < n then firstGap fds n else if fd = n then firstGap fds (n + 1) else n

/-- The first numbers from one on that are not among descriptors, which are in order. -/
def gaps (fds : List Nat) : Nat → Nat → List Nat
  | _, 0 => []
  | start, count + 1 =>
    let n := firstGap fds start
    n :: gaps fds (n + 1) count

/-- The first descriptors from a number on that are not in use. -/
def free (p : Process) (start count : Nat) : List Nat :=
  gaps (p.used.foldl placed []) start count

/-- The first descriptor that is not in use. -/
def freeFd (p : Process) : Nat :=
  (p.free 0 1).headD 0

/-- Whether the process may open a pipe. -/
def allowsPipe (p : Process) : Bool :=
  (p.free 0 2).all p.allows

/-- How many descriptors more the process may open. -/
def room (p : Process) : Option Nat :=
  (p.limit 'n').map fun n => n - (p.used.filter (· < n)).length

/-- A descriptor of the process's own that is not in use, if it may open one. -/
def ownFd (p : Process) : Except OsError Nat :=
  let fd := (p.free 10 1).headD 10
  if p.allows fd then .ok fd
  else .error (if p.allows 10 then .tooManyFiles else .invalidArgument)

/-- Whether somebody is asked for commands one by one. Then failures do not end the process. -/
def isInteractive (p : Process) : Bool :=
  p.scope.isOn 'i' && !p.isSplit

/-- Whether a signal is only for programs that nobody sits in front of. -/
def isSpared (p : Process) (n : Nat) : Bool :=
  p.isInteractive && [Signal.interrupt, Signal.quit, Signal.terminate].contains n

/-- What a process does about a signal; none if the signal ends it. -/
def actionOn (p : Process) (n : Nat) : Option Chars :=
  if n = Signal.kill then none
  else
    match p.traps.lookup n with
    | some action => some action
    | none => if Signal.isHarmless n || p.isSpared n then some [] else none

/-- Whether a signal interrupts what the process is doing. -/
def isInterrupted (p : Process) : Bool :=
  p.isInteractive && p.signals.contains Signal.interrupt &&
    (p.traps.lookup Signal.interrupt).isNone

/-- A signal comes. One that waits already does not wait twice. -/
def receive (n : Nat) (p : Process) : Process :=
  if p.signals.contains n then p
  else { p with signals := p.signals.takeWhile (· < n) ++ n :: p.signals.dropWhile (· < n) }

/-- The process with the status of its last command. -/
def withStatus (p : Process) (status : Nat) : Process :=
  { p with scope := { p.scope with status } }

/-- The process with frames on top of what it has to do. -/
def push (p : Process) (frames : List Frame) : Process :=
  { p with frames := frames ++ p.frames }

/-- Whether frames only lead to the end of the process. -/
def leadToEnd : List Frame → Bool
  | [.leave] => true
  | .checked _ :: rest => leadToEnd rest
  | .restore _ :: rest => leadToEnd rest
  | .endLocals :: rest => leadToEnd rest
  | .lastWord _ :: rest => leadToEnd rest
  | _ => false

/-- Whether the process does nothing more of its own, so that it need not split to carry out the
last command. -/
def isDone (p : Process) : Bool :=
  leadToEnd p.frames && p.traps.all (·.2 = [])

end Process
end LineShell
