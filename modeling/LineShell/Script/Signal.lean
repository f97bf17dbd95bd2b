import LineShell.Script.Scope

/-!
# Signals

A signal has a number, a short name and a description. Number zero stands for the end of a script.

This is part of the script interpreter, which stands in for the programs of a real machine. No
general result about the shell rests on it.
-/

namespace LineShell
namespace Script
namespace Signal

/-- The numbers, names and descriptions of the signals that have a meaning of their own. -/
def meaningful : List (Nat × String × String) :=
  [(0, "EXIT", ""), (1, "HUP", "Hangup"), (2, "INT", "Interrupt"), (3, "QUIT", "Quit"),
    (4, "ILL", "Illegal instruction"), (5, "TRAP", "Trace/breakpoint trap"),
    (6, "ABRT", "Aborted"), (7, "BUS", "Bus error"), (8, "FPE", "Floating point exception"),
    (9, "KILL", "Killed"), (10, "USR1", "User defined signal 1"),
    (11, "SEGV", "Segmentation fault"), (12, "USR2", "User defined signal 2"),
    (13, "PIPE", "Broken pipe"), (14, "ALRM", "Alarm clock"), (15, "TERM", "Terminated"),
    (16, "16", "Stack fault"), (17, "CHLD", "Child exited"), (18, "CONT", "Continued"),
    (19, "STOP", "Stopped (signal)"), (20, "TSTP", "Stopped"), (21, "TTIN", "Stopped (tty input)"),
    (22, "TTOU", "Stopped (tty output)"), (23, "URG", "Urgent I/O condition"),
    (24, "XCPU", "CPU time limit exceeded"), (25, "XFSZ", "File size limit exceeded"),
    (26, "VTALRM", "Virtual timer expired"), (27, "PROF", "Profiling timer expired"),
    (28, "WINCH", "Window changed"), (29, "IO", "I/O possible"), (30, "PWR", "Power failure"),
    (31, "SYS", "Bad system call")]

/-- The number of the first signal that programs may give a meaning. -/
def firstFree : Nat := 34

/-- The number of the last signal. -/
def last : Nat := 64

/-- The name of a signal that has no meaning of its own: it is counted from the nearer end. -/
def freeName (n : Nat) : String :=
  if n < firstFree then toString n
  else if n = firstFree then "RTMIN"
  else if n = last then "RTMAX"
  else if n < 50 then s!"RTMIN+{n - firstFree}"
  else s!"RTMAX-{last - n}"

/-- The numbers, names and descriptions of the signals. -/
def table : List (Nat × String × String) :=
  meaningful ++ ((List.range (last + 1)).drop meaningful.length).map fun n =>
    (n, freeName n, if n < firstFree then s!"Unknown signal {n}"
      else s!"Real-time signal {n - firstFree}")

/-- The signal that stands for an interruption from the keyboard. -/
def interrupt : Nat := 2

/-- The signal that stands for a request from the keyboard to stop. -/
def quit : Nat := 3

/-- The signal that a process gets when it runs out of room for what it still has to do. -/
def overflow : Nat := 11

/-- The signal that somebody gets who writes to a pipe that nobody reads. -/
def pipe : Nat := 13

/-- The signal that is sent unless another one is asked for. -/
def terminate : Nat := 15

/-- The signal that a process gets when one that it has started ends. -/
def child : Nat := 17

/-- The signal that somebody gets who makes the processor do what it cannot do. -/
def arithmetic : Nat := 8

/-- The signal that somebody gets who makes a file larger than is allowed. -/
def fileSize : Nat := 25

/-- The signal that cannot be caught. -/
def kill : Nat := 9

/-- The name of a signal. -/
def name (n : Nat) : String :=
  match table.lookup n with
  | some (name, _) => name
  | none => toString n

/-- The description of a signal. -/
def description (n : Nat) : String :=
  match table.lookup n with
  | some (_, text) => text
  | none => s!"Unknown signal {n}"

/-- The number that an argument spells, if it is the number of a signal. -/
def number? (cs : Chars) : Option Nat :=
  match Number.digits 10 cs with
  | some (n, []) => if n ≤ last then some n else none
  | _ => none

/-- The signal that an argument names, by its number or its name. -/
def ofArgument? (cs : Chars) : Option Nat :=
  match number? cs with
  | some n => some n
  | none =>
    let upper := String.ofList (cs.map Char.toUpper)
    (table.find? fun (_, name, _) => name = upper).map (·.1)

/-- Whether a process that does nothing about a signal goes on. -/
def isHarmless (n : Nat) : Bool :=
  [17, 18, 19, 20, 21, 22, 23, 28].contains n

end Signal
end Script
end LineShell
