import LineShell.Machine.Control
import LineShell.Machine.FileNames
import LineShell.Machine.Reroute
import LineShell.Script.Grammar

/-!
# Processes that start processes

A process can split: the new one knows all that the old one knows and has the same things open. To
expand words, a process splits for each command in them and takes in what the new one prints.

This is part of the script interpreter, which stands in for the programs of a real machine. No
general result about the shell rests on it.
-/

namespace LineShell
namespace Machine

open Script

/-- What a process and its machine come to after an attempt to go on, and whether it went on. -/
structure Progress where
  /-- The process. -/
  process : Process
  /-- The machine. -/
  machine : Machine
  /-- Whether anything was done. -/
  moved : Bool := true

/-- The process has ended. -/
def finish (e : Ending) (p : Process) : Process :=
  { p with ended := some e.kept, frames := [], fds := [] }

/-- Something failed and the status is two. The script ends, unless the failure is caught or
somebody can be asked for other commands. -/
def raise (p : Process) : Process :=
  let isCaught : Frame → Bool
    | .caught => true
    | _ => false
  let p := p.withStatus 2
  if p.isInteractive || p.frames.any isCaught then { p with skip := some .failed }
  else Command.leaving p

/-- Something failed with a message. -/
def failWith (message : String) (p : Process) (m : Machine) : Progress :=
  { process := raise p, machine := m.warn p message }

/-- The line up to which the innermost script has been read. -/
def readTo (p : Process) : Nat :=
  p.frames.findSome? (fun
    | .commands t => some t.line
    | _ => none) |>.getD p.readLine

/-- Splits a process; the new one has frames of its own. Gives the number of the new one. -/
def fork (id : Nat) (p : Process) (frames : List Frame) (m : Machine) : Nat × Machine :=
  let child : Process :=
    { p with parent := some id, frames, skip := none, known := {}, jobs := [], signals := [],
             traps := p.traps.filter (·.2 = []), readLine := readTo p, isSplit := true }
  (m.processes.length, { m with processes := m.processes ++ [child] })

/-- The message for a process that may not open a pipe. -/
def noPipe : String := "Pipe call failed"

/-- Makes a pipe; gives what is open at its two ends, first the one to read from. -/
def openPipe (m : Machine) : Nat × Nat × Machine :=
  let (pipe, m) := m.addPipe {}
  let (reader, m) := m.opening (.reader pipe)
  let (writer, m) := m.opening (.writer pipe)
  (reader, writer, m)

/-- Splits off a process that carries out a statement, and gets ready to take in what it prints. -/
def capture (id : Nat) (body : Statement) (scope : Scope) (p : Process) (m : Machine) : Progress :=
  if !p.allowsPipe then failWith noPipe { p with known := {} } m
  else
    let (reader, writer, m) := openPipe m
    let child := { p with scope }.setFd 1 (some writer)
    let (c, m) := fork id child [.run body false, .leave] m
    let fd := p.freeFd
    { process := (p.setFd fd (some reader)).push [.gather fd c []], machine := m }

/-- Expands something and goes on with it. -/
def expanding {α : Type} (id : Nat) (x : Expand α) (p : Process) (m : Machine)
    (next : α → Process → Progress) : Progress :=
  match x { scope := p.scope, known := p.known } with
  | .done a e => next a { p with scope := e.scope, known := {} }
  | .failed message malformed e =>
    let line := if malformed then readTo p else p.line
    failWith message { p with scope := e.scope, known := {}, line } m
  | .stopped => { process := finish (.signal Signal.arithmetic) p, machine := m }
  | .needs body e =>
    capture id body e.scope { p with known := { p.known with results := e.found.reverse } } m

/-- The names of files that a field stands for. -/
def namesOf (p : Process) (m : Machine) (field : List Marked) : List Chars :=
  if p.scope.isOn 'f' then [FileNames.plain field] else FileNames.ofField m.disk p.dir p.room field

/-- The commands whose arguments can be assignments. -/
def takesAssignments (name : Chars) : Bool :=
  ["alias", "export", "local", "readonly"].contains (Chars.text name)

/-- The fields of words, after those of the words before them. -/
def fieldsOf (names : List Marked → List Chars) (before : List Chars) :
    List RawWord → Expand (List Chars)
  | [] => return before
  | w :: rest => do
    let declares := match before.find? (· ≠ "command".toList) with
      | some name => takesAssignments name
      | none => false
    match if declares then RawWord.assignment? w else none with
    | some (name, value) =>
      let value ← Expand.text value true
      fieldsOf names (before ++ [name.toList ++ '=' :: value]) rest
    | none =>
      let fields ← Expand.fields w
      fieldsOf names (before ++ (← Expand.once (fields.flatMap names))) rest

/-- A text without the line feeds at its end. -/
def withoutFeeds (cs : Chars) : Chars :=
  (cs.reverse.dropWhile (· = '\n')).reverse

/-- Tells how a process has ended, if that was by a signal. Some signals are not worth telling. -/
def report (p : Process) (e : Ending) (m : Machine) : Machine :=
  match e with
  | .signal n =>
    if n = Signal.interrupt ∨ n = Signal.pipe then m
    else m.complain p (Bytes.ofMessage (Signal.description n))
  | .status _ => m

/-- Takes in what a process prints, until it has ended. -/
def gathering (fd child : Nat) (soFar : Bytes) (rest : List Frame) (p : Process) (m : Machine) :
    Progress :=
  let waits : Progress := { process := p, machine := m, moved := false }
  match (p.fd? fd).map fun o => m.take (fun b => (b, [])) o with
  | some (some (b, more), m) =>
    if b ≠ [] then
      { process := { p with frames := .gather fd child (soFar ++ b) :: rest }, machine := m }
    else if more then waits
    else
      match (m.processes[child]?).bind (·.ended) with
      | none => waits
      | some e =>
        let text := withoutFeeds (Bytes.chars (soFar.filter (· ≠ 0)))
        { process := { notice (forgetJob p) m |>.setFd fd none with
            frames := rest, known := p.known.printed text, outputStatus := some e.seen },
          machine := report p e m }
  | _ => { process := { p with frames := rest, known := p.known.printed [] }, machine := m }

/-- Waits until processes have ended, and takes the status of the last one. -/
def awaiting (children : List Nat) (rest : List Frame) (p : Process) (m : Machine) : Progress :=
  let endings := children.map fun c => (m.processes[c]?).bind (·.ended)
  if endings.any (·.isNone) then { process := p, machine := m, moved := false }
  else
    let last := match endings.getLast? with
      | some (some e) => e.seen
      | _ => 0
    { process := { notice (forgetJob p) m with frames := rest } |>.withStatus last,
      machine := (endings.filterMap (fun e => e)).foldl (fun m e => report p e m) m }

/-- Waits until jobs have ended. If only some are waited for, the script hears of signals that have
ended them, and takes the status of the last one. -/
def awaitingJobs (numbers : List Nat) (all : Bool) (rest : List Frame) (p : Process) (m : Machine) :
    Progress :=
  let jobs := numbers.filterMap fun n => p.jobs.find? (·.number = n)
  match jobs.mapM fun j => (j.ending? m).map (j, ·) with
  | none => { process := p, machine := m, moved := false }
  | some endings =>
    let tell (m : Machine) (entry : Job × Ending) : Machine :=
      if all || entry.1.noticed then m else report p entry.2 m
    let status := match all, endings.getLast? with
      | false, some (_, e) => e.seen
      | _, _ => 0
    let waited (j : Job) : Job :=
      if numbers.contains j.number then { j with noticed := true, waited := true } else j
    { process := { p with frames := rest, jobs := p.jobs.map waited }.withStatus status,
      machine := endings.foldl tell m }

/-- The null device, open for reading. -/
def openNull (m : Machine) : Nat × Machine :=
  m.opening (.file { place := ["dev", "null"], writable := false })

/-- Splits off the processes of a pipeline, from the one that reads from `source` on; gives their
numbers. None if a pipe cannot be opened; the processes before it go on then. `held` is a descriptor
that the process itself has open meanwhile. -/
def forkStages (id : Nat) (tested : Bool) (p : Process) :
    Option Nat → Option Nat → List Statement → Machine → Option (List Nat) × Machine
  | _, _, [], m => (some [], m)
  | source, _, [last], m =>
    let child := match source with
      | none => p
      | some o => p.setFd 0 (some o)
    let (c, m) := fork id child [.run last tested, .leave] m
    (some [c], m)
  | source, held, stage :: rest, m =>
    let holding := match held with
      | none => p
      | some fd => p.setFd fd source
    if !holding.allowsPipe then (none, m)
    else
      let (reader, writer, m) := openPipe m
      let child := match source with
        | none => p
        | some o => p.setFd 0 (some o)
      let (c, m) := fork id (child.setFd 1 (some writer)) [.run stage tested, .leave] m
      let (cs, m) := forkStages id tested p (some reader) (some holding.freeFd) rest m
      (cs.map (c :: ·), m)

/-- Splits off a process that carries out frames in the background and reads nothing. -/
def forkBackground (id : Nat) (frames : List Frame) (p : Process) (m : Machine) : Nat × Machine :=
  let (null, m) := openNull m
  if p.allows 0 then fork id (p.setFd 0 (some null)) frames m
  else
    let start := { p with line := 0 }
    let message := openFailure false "/dev/null".toList .tooManyFiles
    fork id start [.abort (messageOf start message) 2] m

/-- Processes go on in the background. -/
def inBackground (children : List Nat) (p : Process) : Process :=
  let scope := { p.scope with lastBackground := children.getLast?.map processNumber, status := 0 }
  addJob children { p with scope }

end Machine
end LineShell
