import LineShell.Machine.Jobs
import LineShell.Script.Reader

/-!
# Commands that direct a script

Leaving loops, functions and the script; carrying out other commands; signals, traps and waiting.

This is part of the script interpreter, which stands in for the programs of a real machine. No
general result about the shell rests on it.
-/

namespace LineShell
namespace Machine
namespace Command

open Script

/-- A command with an optional number, which has a default. -/
def withCount (default : Process → Nat) (body : Nat → Command) : Command :=
  fun args p m =>
    match args.head?.map Number.count with
    | some (.error e) => failing e args p m
    | some (.ok n) => body n args p m
    | none => body (default p) args p m

/-- `break` and `continue` -/
def leaveLoops (how : Nat → Skip) : Command :=
  withCount (fun _ => 1) fun n args process machine =>
    if n = 0 then failing (Number.illegal (args.headD [])) args process machine
    else
      let n := min n process.loopDepth
      { process := if n = 0 then process else { process with skip := some (how n) }, machine }

/-- `return` -/
def returning : Command :=
  withCount (·.scope.status) fun n args process machine =>
    { process := { process with skip := some (.returned (args ≠ [])) }, machine,
      verdict := .status n }

/-- What a script knows once it has left all functions: its own arguments, but no variable is put
back. -/
def outside (p : Process) : Scope :=
  match p.frames.reverse.findSome? fun
    | .endCall args searched _ => some (args, searched)
    | _ => none with
  | some (args, searched) => { p.scope with args, searched }
  | none => p.scope

/-- A process that is about to end: its descriptors are put back, and nothing else is left to do. -/
def leaving (p : Process) : Process :=
  let isRestore : Frame → Bool
    | .restore _ => true
    | _ => false
  { p with frames := p.frames.filter isRestore ++ [.leave], scope := outside p, skip := none,
           command := none }

/-- `exit` -/
def exiting : Command :=
  withCount (·.scope.status) fun n _ process machine =>
    { process := leaving (process.withStatus (n % 256)), machine, verdict := .arranged }

/-- A process that carries out the commands in a text before all else, as part of a command. -/
def reading (t : CommandText) (name : String) (last : List Frame) (p : Process) : Process :=
  { p.push (.commands t :: last ++ [.endCommand p.command]) with command := some name }

/-- `eval` -/
def evaluating : Command :=
  fun args process machine =>
    if args = [] then constant 0 args process machine
    else
      let text := (args.intersperse [' ']).flatten
      let t : CommandText := { text, tested := process.tested }
      { process := reading t "eval" [] (process.withStatus 0), machine, verdict := .arranged }

/-- The file that `.` reads: names are looked for like programs, but need not be executable. -/
def sourceFile (p : Process) (m : Machine) (name : Chars) : Option Chars :=
  if name.contains '/' then some name
  else
    let entries := (searchPath p).filter (·.holds ≠ .commands)
    (entries.map (joinPath ·.dir name)).find? fun path =>
      match m.disk.find? p.dir (Chars.path path) with
      | .ok (_, .file _ _) => true
      | _ => false

/-- `.` -/
def sourcing : Command :=
  withOptions "" "" fun _ args process machine =>
    match args with
    | [] => constant 0 args process machine
    | name :: _ =>
      match sourceFile process machine name with
      | none => failing (Chars.text name ++ ": not found") args process machine
      | some path =>
        match openScript path process machine with
        | (.error e, machine) => failing e args process machine
        | (.ok t, machine) =>
          { process := reading t (Chars.text path) [.endSourced] (process.withStatus 0), machine,
            verdict := .arranged }

/-- A process becomes the program in a file, called by a name with arguments. A file that is no
program is read as a script. -/
def becomeFile (id : Nat) (path name : Chars) (args : List Chars) (p : Process) (m : Machine) :
    Except OsError (Process × Machine) :=
  let environment := p.scope.environment
  match exec id (Chars.path path) name args environment p m with
  | .ok r => .ok r
  | .error e =>
    if e = .notExecutable then
      .ok (interpret id ("/bin/sh".toList :: path :: args) environment p m)
    else .error e

/-- A process becomes the program of a name in the first of some directories where that is possible;
the error is the one from the directories before. -/
def becomeIn (id : Nat) (name : Chars) (args : List Chars) (p : Process) (m : Machine) :
    List Chars → OsError → Except OsError (Process × Machine)
  | [], e => .error e
  | dir :: rest, e =>
    match becomeFile id (joinPath dir name) name args p m with
    | .ok r => .ok r
    | .error e' =>
      becomeIn id name args p m rest (if e' = .noEntry ∨ e' = .notDirectory then e else e')

/-- A process becomes the program of a name with arguments, looked for in directories unless the
name is a path. -/
def become (id : Nat) (directories : List Chars) (name : Chars) (args : List Chars) (p : Process)
    (m : Machine) : Except OsError (Process × Machine) :=
  if name.contains '/' then becomeFile id name name args p m
  else becomeIn id name args p m directories .noEntry

/-- The frames after descriptors were redirected for good: the innermost redirections are not put
back. -/
def keepDescriptors : List Frame → List Nat × List Frame
  | [] => ([], [])
  | .restore saved :: rest => (saved.filterMap (·.2), rest)
  | f :: rest =>
    let (slots, rest) := keepDescriptors rest
    (slots, f :: rest)

/-- `exec` -/
def executing (id : Nat) : Command :=
  fun args process machine =>
    match args with
    | [] =>
      let (slots, frames) := keepDescriptors process.frames
      let fds := process.fds.filter fun (n, _) => !slots.contains n
      { process := { process with frames, fds }, machine }
    | name :: args =>
      match become id (SearchEntry.programDirs (searchPath process)) name args process machine with
      | .ok (process, machine) => { process, machine, verdict := .arranged }
      | .error e =>
        { process := leaving (process.withStatus (execStatus e)),
          machine := machine.warn { process with command := some "exec" } (execFailure name e),
          verdict := .arranged }

/-- The names of all commands of the script interpreter that can be used like programs. -/
def ordinary : List String :=
  ["[", "alias", "bg", "cd", "chdir", "command", "echo", "false", "fg", "getopts", "hash", "jobs",
    "kill", "printf", "pwd", "read", "test", "true", "type", "ulimit", "umask", "unalias", "wait"]

/-- How a name is described. -/
structure Describing where
  /-- Whether it is described in words, or for use in a script. -/
  inWords : Bool := false
  /-- Whether programs are looked for in the standard directories. -/
  standard : Bool := false

/-- What is to be said about a name. -/
inductive Description where
  /-- It stands for nothing. -/
  | unknown
  /-- A text. -/
  | told (text : Chars)
  /-- It stands for a function, if the file of a path defines one. -/
  | function (path : Chars)

/-- What a function is called when names are described in words. -/
def functionNote : String :=
  " is a shell function"

/-- What a command of the script interpreter is called when names are described in words. -/
def commandNote : String :=
  " is a shell builtin"

/-- What is said about a name that stands for something which has no path. -/
def told (how : Describing) (name : Chars) (note : String) : Description :=
  .told ((if how.inWords then name ++ note.toList else name) ++ ['\n'])

/-- What a name stands for if it is looked for in directories. -/
def describeFound (how : Describing) (name : Chars) (p : Process) (m : Machine) :
    Description × Process :=
  let isTracked := !how.standard && (p.scope.programs.lookup (Chars.text name)).isSome
  let words := name ++ (if isTracked then " is a tracked alias for " else " is ").toList
  let tell (path : Chars) : Description :=
    .told ((if how.inWords then words else []) ++ path ++ ['\n'])
  if name.contains '/' then
    (if (m.disk.find? p.dir (Chars.path name)).isOk then tell name else .unknown, p)
  else
    let (entries, found, p) :=
      if how.standard then
        (standardPath, searchIn p m true name none standardPath 0 .noEntry, p)
      else (searchPath p, locate true name p m)
    match found with
    | .error _ => (.unknown, p)
    | .ok (.program index) => (tell (pathIn entries index name), p)
    | .ok (.function path) => (.function path, p)
    | .ok .command => (told how name commandNote, p)

/-- What a name stands for when it is used as a command. -/
def describe (how : Describing) (name : Chars) (p : Process) (m : Machine) :
    Description × Process :=
  let s := Chars.text name
  let say (note : String) : Description × Process := (told how name note, p)
  if Token.keywords.contains s then say " is a shell keyword"
  else
    match p.scope.aliases.lookup s with
    | some text =>
      (.told (if how.inWords then name ++ " is an alias for ".toList ++ text ++ ['\n']
        else "alias ".toList ++ name ++ '=' :: quote text ++ ['\n']), p)
    | none =>
      if (p.scope.functions.lookup s).isSome then say functionNote
      else if specialCommands.contains s then say " is a special shell builtin"
      else if ordinary.contains s && (how.standard || comesFirst s p) then say commandNote
      else describeFound how name p m

/-- Describes names in words, up to one whose file has to be read in first; `out` was said about
those before, and `status` tells whether all of them stand for something. -/
def describeAll (m : Machine) : List Chars → Chars → Nat → Process → Act
  | [], out, status, p =>
    { process := p, machine := m, out := [.text out], verdict := .status status }
  | name :: rest, out, status, p =>
    match describe { inWords := true } name p m with
    | (.told text, p) => describeAll m rest (out ++ text) status p
    | (.unknown, p) => describeAll m rest (out ++ name ++ ": not found\n".toList) 127 p
    | (.function path, p) =>
      let note := functionNote.toList ++ ['\n']
      { process := p, machine := m, out := [.text (out ++ name)],
        verdict := .reads name path
          [.print "type" [.text note] status false, .describe rest status] }

/-- `type` -/
def typing : Command :=
  fun args process machine => describeAll machine args [] 0 process

/-- `command` with the option `-v` or `-V` -/
def describing (how : Describing) : Command :=
  fun args process machine =>
    match args with
    | [] => constant 0 args process machine
    | name :: _ =>
      match describe how name process machine with
      | (.told out, process) => { process, machine, out := [.text out] }
      | (.unknown, process) =>
        let out := if how.inWords then [.text (name ++ ": not found\n".toList)] else []
        { process, machine, out, verdict := .status 127 }
      | (.function path, process) =>
        let (before, after) := if how.inWords then (name, functionNote.toList) else ([], name)
        { process, machine, out := [.text before],
          verdict := .reads name path [.print "command" [.text (after ++ ['\n'])] 0 false] }

/-- The programs that were found, as they are listed. -/
def programTable (p : Process) : Chars :=
  let row (entry : String × Found) : Chars :=
    let path := pathIn (searchPath p) entry.2.index entry.1.toList
    path ++ (if entry.2.stale then ['*'] else []) ++ ['\n']
  (Scope.inRows 31 p.scope.programs).flatMap row

/-- Looks for names again, up to one whose file has to be read in first; `complaints` are about
those before, and `status` tells whether all of them were found. -/
def locateAll (m : Machine) : List Chars → List String → Nat → Process → Act
  | [], complaints, status, p =>
    { process := p, machine := m, out := complaints.map .complaint, verdict := .status status }
  | name :: rest, complaints, status, p =>
    let s := Chars.text name
    let programs := p.scope.programs.filter (·.1 ≠ s)
    let p := { p with scope := { p.scope with programs } }
    if name.contains '/' || (p.scope.functions.lookup s).isSome || specialCommands.contains s ||
        (ordinary.contains s && comesFirst s p) then locateAll m rest complaints status p
    else
      match locate true name p m with
      | (.ok (.function path), p) =>
        { process := p, machine := m, out := complaints.map .complaint,
          verdict := .reads name path [.locate rest status] }
      | (.ok _, p) => locateAll m rest complaints status p
      | (.error e, p) => locateAll m rest (complaints ++ [execFailure name e]) 1 p

/-- `hash` -/
def remembering : Command :=
  withOptions "r" "" fun found args process machine =>
    if found ≠ [] then
      { process := { process with scope := { process.scope with programs := [] } }, machine }
    else if args = [] then printing (programTable process) args process machine
    else locateAll machine args [] 0 process

/-- `read` -/
def readLineInto : Command :=
  withOptions "r" "p" fun found args process machine =>
    if args = [] then failing "arg count" args process machine
    else
      let names := args.map fun arg => Chars.text (arg.takeWhile (· ≠ '='))
      let r : Reading := { names, verbatim := found.any (·.1 = 'r') }
      { process := process.push [.read r], machine, verdict := .arranged }

/-- How traps are listed. -/
def trapTable (p : Process) : Chars :=
  (Signal.table.filterMap fun (n, name, _) =>
    (p.traps.lookup n).map fun action =>
      "trap -- ".toList ++ quote action ++ ' ' :: name.toList ++ ['\n']).flatten

/-- `trap` -/
def trapping : Command :=
  withOptions "" "" fun _ args process machine =>
    match args with
    | [] => printing (trapTable process) args process machine
    | first :: rest =>
      let (action, signals) :=
        if rest = [] ∨ (Signal.number? first).isSome then (none, args) else (some first, rest)
      let action := action.filter (· ≠ ['-'])
      let step (state : Process × Option Chars) (arg : Chars) : Process × Option Chars :=
        let (p, bad) := state
        match bad, Signal.ofArgument? arg with
        | some _, _ => (p, bad)
        | none, none => (p, some arg)
        | none, some n =>
          let others := p.traps.filter (·.1 ≠ n)
          ({ p with traps := match action with
            | none => others
            | some text => (n, text) :: others }, none)
      match signals.foldl step (process, none) with
      | (process, none) => { process, machine }
      | (process, some bad) =>
        { process, machine := machine.complain process
            (Bytes.ofMessage ("trap: " ++ Chars.text bad ++ ": bad trap")),
          verdict := .status 1 }

/-- To whom a signal is sent. -/
inductive Addressee where
  /-- The process of a number. -/
  | process (number : Nat)
  /-- All processes that belong together with the one that sends it. -/
  | family
  /-- All other processes. -/
  | everybody
  /-- A group of processes, of which there is none. -/
  | group
  deriving DecidableEq, Repr

/-- To whom an argument asks to send a signal. The processes of a job do not make up a group. -/
def addressee (p : Process) (arg : Chars) : Except String Addressee := do
  match arg with
  | '%' :: _ =>
    let _ ← jobOf arg p
    return .group
  | '-' :: digits =>
    match ← Number.count digits with
    | 0 => return .family
    | 1 => return .everybody
    | _ => return .group
  | _ =>
    match ← Number.count arg with
    | 0 => return .family
    | n => return .process n

/-- A process gets a signal; number zero is none. -/
def deliver (n : Nat) (p : Process) : Process :=
  if n = 0 then p else p.receive n

/-- The processes besides those of the machine that are always there: the first one of all, and the
one that has started the shell's programs. -/
def outsiders : List Nat := [1, parentNumber none]

/-- Sends a signal; tells whether there is somebody to get it. -/
def send (id n : Nat) (target : Addressee) (p : Process) (m : Machine) : Bool × Process × Machine :=
  match target with
  | .group => (false, p, m)
  | .everybody => (true, p, { m with processes := m.processes.map (deliver n) })
  | .family => (true, deliver n p, { m with processes := m.processes.map (deliver n) })
  | .process number =>
    let index := number - processNumber 0
    let isThere := match m.processes[index]? with
      | some q => q.alive && processNumber 0 ≤ number
      | none => false
    if !isThere then (outsiders.contains number, p, m)
    else if index = id then (true, deliver n p, m)
    else (true, p, { m with processes := m.processes.modify index (deliver n) })

/-- What is wrong with a call of `kill` that asks for nothing or for two things. -/
def killUsage : String :=
  "Usage: kill [-s sigspec | -signum | -sigspec] [pid | job]... or\nkill -l [exitstatus]"

/-- What a call of `kill` asks for: a signal and the processes to send it to, or, without a signal,
the names of signals. -/
def killRequest (args : List Chars) : Except String (Option Nat × List Chars) :=
  match args with
  | ('-' :: cs) :: rest =>
    match Signal.ofArgument? cs with
    | some n => .ok (some n, rest)
    | none => do
      let (found, rest) ← options "l" "s" args
      let signals ← (found.filter (·.1 = 's')).mapM fun (_, name) =>
        match Signal.ofArgument? name with
        | some n => .ok n
        | none => .error ("invalid signal number or name: " ++ Chars.text name)
      match found.any (·.1 = 'l'), signals.getLast? with
      | true, none => .ok (none, rest)
      | true, some _ => if rest = [] then .ok (none, rest) else .error killUsage
      | false, signal => .ok (some (signal.getD Signal.terminate), rest)
  | _ => .ok (some Signal.terminate, args)

/-- The name of the signal of a number, or of the signal by which a process has ended that has a
number as its status. -/
def signalName (arg : Chars) : Except String String := do
  let n ← Number.count arg
  let signal := if 128 < n then n - 128 else n
  if signal = 0 ∨ Signal.last < signal then
    throw ("invalid signal number or exit status: " ++ Chars.text arg)
  else return Signal.name signal

/-- `kill -l` -/
def signalNames : Command :=
  fun args p m =>
    match args with
    | [] =>
      let names := (List.range Signal.last).map fun n => Signal.name (n + 1)
      printing (("0" :: names).flatMap fun name => name.toList ++ ['\n']) args p m
    | arg :: _ =>
      match signalName arg with
      | .error e => failing e args p m
      | .ok name => printing (name.toList ++ ['\n']) args p m

/-- Sends a signal to some processes in turn, up to an argument that names none, or until the
process itself is ended by it. -/
def sendAll (id n : Nat) : Command
  | [], process, machine => { process, machine }
  | target :: rest, process, machine =>
    match addressee process target with
    | .error e => failing e rest process machine
    | .ok target =>
      match send id n target process machine with
      | (true, process, machine) =>
        if process.signals.any fun n => (process.actionOn n).isNone then { process, machine }
        else sendAll id n rest process machine
      | (false, process, machine) =>
        let act := sendAll id n rest process machine
        { act with
          out := .complaint "No such process\n" :: act.out
          verdict := match act.verdict with
            | .status 0 => .status 1
            | verdict => verdict }

/-- `kill` -/
def killing (id : Nat) : Command :=
  fun args process machine =>
    match killRequest args with
    | .error e => failing e args process machine
    | .ok (none, args) => signalNames args process machine
    | .ok (_, []) => failing killUsage args process machine
    | .ok (some n, targets) => sendAll id n targets process machine

/-- `umask` -/
def creationMask : Command :=
  withOptions "S" "" fun found args process machine =>
    match args with
    | [] =>
      let text := if found = [] then Mask.digits process.mask else Mask.clauses process.mask
      printing (text ++ ['\n']) args process machine
    | arg :: _ =>
      match Mask.change process.mask arg with
      | .error e => failing e args process machine
      | .ok mask => { process := { process with mask }, machine }

/-- `times` -/
def usedTimes : Command :=
  let line := "0m0.000000s 0m0.000000s\n".toList
  printing (line ++ line)

/-- How all limits are listed. -/
def limitTable (chosen : Limit → Option Nat) (limitOf : Char → Limit) : Chars :=
  Limit.resources.flatMap fun (letter, r) =>
    r.name.toList.rightpad 20 ' ' ++ ' ' :: Limit.amount r.unit (chosen (limitOf letter))

/-- `ulimit` -/
def limits : Command :=
  withOptions "HSatfdscmlpnvwr" "" fun found args process machine =>
    let letters := found.map (·.1)
    let sides := letters.filter ['H', 'S'].contains
    let letter := (letters.filter fun c => !(['H', 'S', 'a'].contains c)).getLast?.getD 'f'
    let limitOf (c : Char) : Limit := (process.limits.lookup c).getD (Limit.resource c).start
    let chosen (l : Limit) : Option Nat := if sides.getLast? = some 'H' then l.hard else l.soft
    let unit := (Limit.resource letter).unit
    match letters.contains 'a', args with
    | true, [] => printing (limitTable chosen limitOf) args process machine
    | false, [] => printing (Limit.amount unit (chosen (limitOf letter))) args process machine
    | false, [arg] =>
      match Limit.amount? unit arg with
      | none => failing "bad number" args process machine
      | some n =>
        let before := limitOf letter
        let after : Limit := match sides.getLast? with
          | some 'H' => { before with hard := n }
          | some _ => { before with soft := n }
          | none => { soft := n, hard := n }
        match Limit.change before after with
        | .error e => failing e args process machine
        | .ok l => { process := { process with limits := (letter, l) :: process.limits }, machine }
    | _, _ => failing "too many arguments" args process machine

/-- The commands by their names; `id` is the number of the process. -/
def all (id : Nat) : List (String × Command) :=
  [(":", constant 0), ("true", constant 0), ("false", constant 1), ("echo", echo),
    ("printf", printf), ("test", test), ("[", bracket), ("pwd", workingDirectory),
    ("cd", changeDirectory), ("chdir", changeDirectory), ("read", readLineInto), ("shift", shift),
    ("set", setArguments), ("export", markExported), ("readonly", markReadOnly),
    ("local", markLocal), ("unset", unset), ("alias", aliasWords), ("unalias", unaliasWords),
    ("getopts", getopts), ("break", leaveLoops .loops), ("continue", leaveLoops .round),
    ("return", returning), ("exit", exiting), ("eval", evaluating), (".", sourcing),
    ("exec", executing id), ("type", typing), ("command", constant 0), ("trap", trapping),
    ("kill", killing id), ("wait", waiting), ("umask", creationMask), ("times", usedTimes),
    ("ulimit", limits), ("hash", remembering), ("jobs", jobs), ("fg", resume), ("bg", resume)]

/-- The command of a name. -/
def ofName? (id : Nat) (name : String) : Option Command :=
  (all id).lookup name

end Command
end Machine
end LineShell
