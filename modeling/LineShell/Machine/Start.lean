import LineShell.Machine.Step

/-!
# Starting programs for the shell

A program that the shell starts works in its own directory, and the program is looked for from
there. It gets its three streams from the shell and the variables that the shell was started with.
-/

namespace LineShell
namespace Machine

open Script

/-- Where the working directory of a program is. -/
def enter (d : Disk) (cwd : Location) (dir : String) : Except OsError Location :=
  match d.find? cwd dir with
  | .error e => .error e
  | .ok (place, .directory) => .ok place
  | .ok _ => .error .notDirectory

/-- Whether a text can be handed to a program. -/
def holdsNul (s : String) : Bool :=
  s.toList.contains '\x00'

/-- The shell does not pass on the end of a pipe that is read from. -/
def letGo (pipe : Nat) (m : Machine) : Machine :=
  m.changePipe pipe fun p => { p with held := false }

/-- What a program reads from. -/
def openInput (i : Input) (m : Machine) : Nat × Machine :=
  match i with
  | .empty => m.openNull
  | .inherited => m.opening .input
  | .pipe p => (m.letGo p.id).opening (.reader p.id)
  | .buffer content =>
    let (pipe, m) := m.addPipe { content }
    m.opening (.reader pipe)

/-- What a program writes to, and the pipe that it is, if it is one; `own` is the shell's stream. -/
def openOutput (o : Output) (own : Opened) (m : Machine) : Nat × Option Pipe × Machine :=
  match o with
  | .inherited =>
    let (id, m) := m.opening own
    (id, none, m)
  | .file h => (h.id, none, m)
  | .pipe =>
    let (pipe, m) := m.addPipe { held := true }
    let (id, m) := m.opening (.writer pipe)
    (id, some ⟨pipe⟩, m)

/-- The variables that the shell passes on. -/
def passedOn (m : Machine) : List (String × Chars) :=
  m.settings.map fun (name, value) => (name, Chars.ofText value)

/-- Starts a process in a directory. -/
def startIn (dir : Location) (l : Launch) (m : Machine) : Except OsError Child × Machine :=
  let (input, n) := openInput l.stdin m
  let (out, pipe, n) := openOutput l.stdout .output n
  let (err, _, n) := openOutput l.stderr .error n
  let fresh : Process :=
    { scope := { name := [] }, dir, path := [], fds := [(0, input), (1, out), (2, err)],
      frames := [] }
  let id := n.processes.length
  let n := { n with processes := n.processes ++ [fresh] }
  match exec id l.program (Chars.ofText l.name) (l.args.map Chars.ofText) m.passedOn fresh n with
  | .error e => (.error e, m)
  | .ok (p, n) => (.ok ⟨id, pipe⟩, { n with processes := n.processes.set id p })

/-- Starts a process. -/
def start (l : Launch) (m : Machine) : Except OsError Child × Machine :=
  let result :=
    if (l.program :: l.name :: l.dir :: l.args).any holdsNul then (.error .nulInArgument, m)
    else
      match enter m.disk m.cwd l.dir with
      | .error e => (.error e, m)
      | .ok dir => startIn dir l m
  match result, l.stdin with
  | (.error e, m), .pipe p => (.error e, m.letGo p.id)
  | result, _ => result

end Machine
end LineShell
