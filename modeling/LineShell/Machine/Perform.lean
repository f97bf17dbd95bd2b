import LineShell.Machine.Lines
import LineShell.Machine.Target

/-!
# Carrying out simple commands

A simple command is carried out in two halves. First its words are expanded and its redirections are
put in place. Then the assignments before it are made, and what its first field names is carried
out: a function, a command of the script interpreter, or a program.

If a command is part of the language itself (`specialCommands`), its failure ends the script and
the assignments before it stay; for all others they are taken back.

This is part of the script interpreter, which stands in for the programs of a real machine. No
general result about the shell rests on it.
-/

namespace LineShell
namespace Machine

open Script

/-- Makes assignments; gives the texts of their traces. `exported` tells whether the variables are
passed on to programs. -/
def assignAll (exported : Bool) : List (String × RawWord) → Expand (List Chars)
  | [] => return []
  | (name, w) :: rest => do
    let value ← Expand.text w true
    let sc ← Expand.ofExcept ((← Expand.scope).set name value)
    let v := sc.entry name
    Expand.setScope (sc.put name { v with exported := v.exported || exported })
    return (name.toList ++ '=' :: value) :: (← assignAll exported rest)

/-- A redirection before a simple command has failed. What was open before is put back, unless the
command is `exec`. -/
def refuse (id : Nat) (c : Prepared) (saved : List (Nat × Option Nat)) (p : Process) : Process :=
  match Target.ofFields id p.scope (c.fields.length + 1) {} c.fields with
  | .command "exec" _ false _ => ((saved.filterMap (·.2)).foldl (·.setFd · none) p).withStatus 2
  | .command _ _ true _ => raise (putBack saved p)
  | _ => (putBack saved p).withStatus 2

/-- Carries out redirections, and goes on with what they are for. -/
def rerouting (id : Nat) (todo : List Reroute) (saved : List (Nat × Option Nat))
    (purpose : Purpose) (rest : List Frame) (p : Process) (m : Machine) : Progress :=
  let keeps := match purpose with
    | .last _ _ => false
    | _ => true
  let fails (message : String) (saved : List (Nat × Option Nat)) (p : Process) (m : Machine) :
      Progress :=
    let m := m.warn p message
    match purpose with
    | .command c => { process := refuse id c saved p, machine := m }
    | .statement _ tested =>
      { process := (putBack saved p).withStatus 2 |>.push [.checked tested], machine := m }
    | .last _ _ => { process := raise p, machine := m }
  let r := rerouteAll keeps todo saved { p with frames := rest } m
  match r.failure, r.left with
  | some message, _ => fails message r.saved r.process r.machine
  | none, .document fd body :: more =>
    let p := r.process.push [.reroute r.left r.saved purpose]
    expanding id (Expand.attempt (Expand.document body)) p r.machine fun content p =>
      match content with
      | .ok content =>
        let frame := Frame.reroute (.text fd content :: more) r.saved purpose
        { process := { p with frames := frame :: rest }, machine := r.machine }
      | .error message => fails message r.saved { p with frames := rest } r.machine
  | none, _ =>
    let frames := match purpose with
      | .command c => [.prepared c, .restore r.saved]
      | .statement s tested => [.run s tested, .restore r.saved]
      | .last s tested => [.run s tested]
    { process := r.process.push frames, machine := r.machine }

/-- What is done after a simple command outside all functions, if somebody is asked for commands:
its last word is remembered. -/
def afterWords (fields : List Chars) (p : Process) : List Frame :=
  match fields.getLast?, p.scope.isOn 'i' && p.callDepth == 0 with
  | some word, true => [.lastWord word]
  | _, _ => []

/-- The first half of a simple command. -/
def prepare (id line : Nat) (assignments : List (String × RawWord)) (words : List RawWord)
    (redirects : List Redirect) (tested : Bool) (rest : List Frame) (p : Process) (m : Machine) :
    Progress :=
  let p := { p with line, outputStatus := if p.known.outputs = [] then none else p.outputStatus }
  let work : Expand (List Chars × List Reroute) := do
    let fields ← fieldsOf (namesOf p m) [] words
    return (fields, ← resolveAll redirects)
  expanding id work p m fun (fields, todo) p =>
    let c : Prepared := { fields, assignments, trace := p.fd? 2, tested }
    rerouting id todo [] (.command c) (afterWords fields p ++ .checked tested :: rest) p m

/-- Whether commands are traced. -/
def isTraced (sc : Scope) : Bool :=
  sc.isOn 'x' && !sc.inTrace

/-- A text that was expanded by itself. -/
structure Shown where
  /-- What it has come to. If it cannot be expanded, it stands for itself. -/
  text : Chars := []
  /-- Why it could not be expanded, if so, and the line to be named. -/
  failure : Option (Option Nat × String) := none
  /-- Whether the end of the text that was read before is still to be read again. -/
  atEnd : Bool

/-- Expands the value of a variable by itself, as it is done for what stands before traces and for
what somebody is asked with. For traces, commands are not traced meanwhile. If the end of the text
that was read before is still to be read again, it stands in for the first command in the value. -/
def shown (forTrace atEnd : Bool) (name : String) : Expand Shown := do
  let sc ← Expand.scope
  let value := (sc.value? name).getD []
  let failed (failure : Option Nat × String) (atEnd : Bool) : Expand Shown := do
    Expand.setScope { ← Expand.scope with inTrace := sc.inTrace, status := 2 }
    return { text := value, failure := some failure, atEnd }
  let reader : Reader :=
    { rest := value, token := .endOfFile, again := atEnd, aliases := sc.aliases,
      documents := sc.documents, nextKey := sc.documents.length }
  match Read.expandedText.run reader with
  | .error (.wrong line message _) => failed (some line, message) (atEnd && !holdsCommand value)
  | .error .incomplete => return { text := value, atEnd }
  | .ok (w, r) =>
    Expand.setScope { sc with documents := r.documents, inTrace := sc.inTrace || forTrace }
    match ← Expand.attempt (Expand.document w) with
    | .error message => failed (none, message) r.again
    | .ok text =>
      Expand.setScope { ← Expand.scope with inTrace := sc.inTrace }
      return { text, atEnd := r.again }
where
  /-- Whether there may be a command in a text. -/
  holdsCommand : Chars → Bool
    | [] => false
    | '\x60' :: _ => true
    | '$' :: '(' :: _ => true
    | _ :: cs => holdsCommand cs

/-- Complains about a text that could not be expanded. -/
def complainAbout (s : Shown) (p : Process) (m : Machine) : Process × Machine :=
  let p := { p with atEnd := s.atEnd }
  match s.failure with
  | none => (p, m)
  | some (line, message) => (p, m.warn { p with line := line.getD p.line } message)

/-- Asks for a line with the value of a variable. -/
def asking (id : Nat) (name : String) (rest : List Frame) (p : Process) (m : Machine) : Progress :=
  expanding id (shown false false name) p m fun s p =>
    let (p, m) := complainAbout s { p with frames := rest } m
    { process := p, machine := m.complain p (Bytes.ofChars s.text) }

/-- Carries out the commands in the file that the variable `ENV` names, if there is one. -/
def profile (id : Nat) (rest : List Frame) (p : Process) (m : Machine) : Progress :=
  expanding id (shown false false "ENV") p m fun s p =>
    let (p, m) := complainAbout s { p with frames := rest } m
    match if s.text = [] then none else some (openScript s.text p m) with
    | some (.ok t, m) => { process := p.push [.commands t, .endSourced], machine := m }
    | _ => { process := p, machine := m }

/-- Writes the trace of a command after its mark. -/
def trace (c : Prepared) (mark : Chars) (assigned : List Chars) (p : Process) (m : Machine) :
    Machine :=
  let text := ((assigned ++ c.fields).intersperse [' ']).flatten
  match c.trace with
  | none => m
  | some o => m.forceTo p o (Bytes.ofChars (mark ++ text ++ ['\n']))

/-- Carries out what a command does. -/
def carryOut (name : String) (isSpecial : Bool) (act : Act) : Progress :=
  let p := act.process
  match act.verdict with
  | .arranged => { process := p, machine := act.machine }
  | .status n =>
    { process := if act.out = [] then p.withStatus n else p.push [.print name act.out n false],
      machine := act.machine }
  | .reads function path next =>
    let named := { p with command := some name }
    let said := if act.out = [] then [] else [.print name act.out p.scope.status false]
    match openScript path p act.machine with
    | (.error e, m) => { process := p.withStatus 2, machine := m.warn named e }
    | (.ok t, m) =>
      let frames := said ++ [.commands t, .endSourced, .defined function path] ++ next
      { process := named.push (frames ++ [.endCommand p.command, .caught]), machine := m }
  | .failed message =>
    let m := act.out.foldl (fun m s => m.say { p with command := some name } s) act.machine
    { process := if isSpecial then raise p else p.withStatus 2,
      machine := m.warn { p with command := some name } message }

/-- How many calls of functions there may be in one another. -/
def maxCalls : Nat := 1000

/-- Calls a function. -/
def call (f : Function) (args : List Chars) (tested : Bool) (p : Process) (m : Machine) :
    Progress :=
  let p := { p with callDepth := p.callDepth + 1 }
  if maxCalls < p.callDepth then
    failWith s!"Maximum function recursion depth ({maxCalls}) reached" p m
  else
    let frames := [.run f.body tested, .endCall p.scope.args p.scope.searched p.loopDepth]
    { process :=
        { p.push frames with scope := { p.scope with args, searched := {} }, loopDepth := 0 },
      machine := m }

/-- Calls a function by its name. -/
def callNamed (name : String) (args : List Chars) (tested : Bool) (p : Process) (m : Machine) :
    Progress :=
  match p.scope.functions.lookup name with
  | some f => call f args tested p m
  | none => { process := p, machine := m }

/-- Reads in a file that is to define a function, and goes on with frames. -/
def readIn (function path : Chars) (next : List Frame) (p : Process) (m : Machine) : Progress :=
  match openScript path p m with
  | (.error e, m) => failWith e p m
  | (.ok t, m) =>
    { process := p.push (.commands t :: .endSourced :: .defined function path :: next),
      machine := m }

/-- After a file was read in: it should have defined a function. -/
def checkDefined (function path : Chars) (p : Process) (m : Machine) : Progress :=
  match p.scope.functions.lookup (Chars.text function) with
  | some _ => { process := p, machine := m }
  | none => failWith (Chars.text function ++ " not defined in " ++ Chars.text path) p m

/-- Starts a program, which may be in one of some directories, and waits for it. -/
def runProgram (id : Nat) (dirs : List Chars) (name : Chars) (args : List Chars) (p : Process)
    (m : Machine) : Progress :=
  if p.isDone then
    match Command.become id dirs name args p m with
    | .ok (process, machine) => { process, machine }
    | .error e =>
      { process := p.withStatus (Command.execStatus e),
        machine := m.warn p (Command.execFailure name e) }
  else
    let (c, forked) := fork id p [] m
    match (forked.processes[c]?).map (Command.become c dirs name args · forked) with
    | some (.ok (child, machine)) =>
      { process := p.push [.await [c]],
        machine := { machine with processes := machine.processes.set c child } }
    | some (.error e) =>
      let message := messageOf p (Command.execFailure name e)
      let last := [.abort message (Command.execStatus e)]
      let refused (child : Process) : Process := { child with frames := last }
      { process := p.push [.await [c]],
        machine := { forked with processes := forked.processes.modify c refused } }
    | none => { process := p, machine := m }

/-- Looks for what a name stands for, and carries it out. Where something was found in standard
directories is not remembered. -/
def runSought (id : Nat) (name : Chars) (args : List Chars) (mode : Mode) (own : Option Command)
    (tested : Bool) (p : Process) (m : Machine) : Progress :=
  let s := Chars.text name
  let refused (e : OsError) (p : Process) : Progress :=
    { process := p.withStatus 127, machine := m.warn p (Command.execFailure name e) }
  let start (entries : List SearchEntry) (p : Process) : Progress :=
    runProgram id (SearchEntry.programDirs entries) name args p m
  let carry (p : Process) : Progress :=
    match own with
    | some c => carryOut s false (c args p m)
    | none => { process := p, machine := m }
  if name.contains '/' then start [] p
  else if mode.standard then
    match Command.searchIn p m false name none Command.standardPath 0 .noEntry with
    | .error e => refused e p
    | .ok _ => start Command.standardPath p
  else if own.isSome && Command.comesFirst s p then carry p
  else
    match Command.locate mode.direct name p m with
    | (.error e, p) => refused e p
    | (.ok (.program index), p) => start ((Command.searchPath p).drop index) p
    | (.ok (.function path), p) => readIn name path [.call s args tested] p m
    | (.ok .command, p) => carry p

/-- Looks for the first words of the stages of a pipeline, and remembers where programs were found.
The error is a function whose file has to be read in first. -/
def lookAhead (m : Machine) : List Statement → Process → Except (Chars × Chars) Process
  | [], p => .ok p
  | .simple _ _ ([.plain name] :: _) _ :: rest, p =>
    let s := Chars.text name
    if !isName name || (p.scope.functions.lookup s).isSome || specialCommands.contains s ||
        (Command.ordinary.contains s && Command.comesFirst s p) then lookAhead m rest p
    else
      match Command.locate true name p m with
      | (.ok (.function path), _) => .error (name, path)
      | (_, p) => lookAhead m rest p
  | _ :: rest, p => lookAhead m rest p

/-- Frames with another one after that which puts descriptors back. -/
def afterRestore (f : Frame) : List Frame → List Frame
  | .restore saved :: rest => .restore saved :: f :: rest
  | rest => f :: rest

/-- The second half of a simple command. -/
def perform (id : Nat) (c : Prepared) (rest : List Frame) (p : Process) (m : Machine) : Progress :=
  let target := Target.ofFields id p.scope (c.fields.length + 1) {} c.fields
  let keeps := target.keepsAssignments
  let isExec := match target with
    | .command "exec" _ _ (_ :: _) => true
    | _ => false
  let before := p.scope
  let work : Expand (List Chars × Option Shown) := do
    let assigned ← assignAll (!keeps || isExec) c.assignments
    if isTraced (← Expand.scope) then return (assigned, some (← shown true p.atEnd "PS4"))
    else return (assigned, none)
  expanding id work p m fun (assigned, mark) p =>
    let (p, m) := match mark with
      | none => (p, m)
      | some mark =>
        let (p, m) := complainAbout mark p m
        (p, trace c mark.text assigned p m)
    let saved := (c.assignments.map (·.1)).map fun name => (name, before.bindings.lookup name)
    let p := { p with frames := rest, tested := c.tested }
    let p := if keeps then p
      else { p with frames := afterRestore .endLocals rest
                    locals := { bindings := saved } :: p.locals }
    match target with
    | .nothing => { process := p.withStatus (p.outputStatus.getD 0), machine := m }
    | .function f args => call f args c.tested p m
    | .command name command isSpecial args =>
      let isCaught := !isSpecial && specialCommands.contains name
      let p := if isCaught then p.push [.caught] else p
      carryOut name isSpecial (command args p m)
    | .sought name args mode own => runSought id name args mode own c.tested p m

/-- Writes the next of what a command has to say. If some of it cannot be written, the others are
written all the same, and there is a complaint at the end. -/
def printing (name : String) (said : List Said) (status : Nat) (failed : Bool) (rest : List Frame)
    (p : Process) (m : Machine) : Progress :=
  let named := { p with command := some name }
  let goOn (said : List Said) (failed : Bool) (m : Machine) : Progress :=
    match said, failed with
    | [], false => { process := { p with frames := rest }.withStatus status, machine := m }
    | [], true =>
      { process := { p with frames := rest }.withStatus (status ||| 1),
        machine := m.warn named s!"{name}: I/O error" }
    | _, _ =>
      { process := { p with frames := .print name said status failed :: rest }, machine := m }
  match said with
  | [] => goOn [] failed m
  | .complaint message :: more => goOn more failed (m.warn named message)
  | .text [] :: more => goOn more failed m
  | .text s :: more =>
    match (p.fd? 1).map fun o => m.writeTo (p.limit 'f') o (Bytes.ofChars s) with
    | some (.wrote [], m) => goOn more failed m
    | some (.wrote left, m) =>
      if left.length = s.length then { process := p, machine := m, moved := false }
      else goOn (.text left.chars :: more) failed m
    | some (.signalled n, m) =>
      match p.actionOn n with
      | none => { process := finish (.signal n) p, machine := m }
      | some _ => goOn more true { m with raised := n :: m.raised }
    | some (.failed, m) => goOn more true m
    | none => goOn more true m

end Machine
end LineShell
