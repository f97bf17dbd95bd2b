import LineShell.Machine.Perform

/-!
# Running scripts

A process does one thing at a time: it takes the topmost of its frames, and carries it out or breaks
it into smaller ones. A process that has to wait keeps its frame, and nothing has changed.

When a loop, a function or a script is being left, frames are taken away instead of being carried
out; those that put something back are carried out all the same.

A script may also be typed in by somebody who is asked for each line. Then a failure or an
interruption does not end it: everything that is being done is left, and the next line is asked for.

This is part of the script interpreter, which stands in for the programs of a real machine. No
general result about the shell rests on it.
-/

namespace LineShell
namespace Machine

open Script

/-- How much of a script is read at once. -/
def scriptBlock : Nat := 8191

/-- The first lines of a text. -/
def firstLines : Nat → Chars → Chars
  | 0, _ => []
  | n + 1, cs =>
    match cs.span (· ≠ '\n') with
    | (l, '\n' :: rest) => l ++ '\n' :: firstLines n rest
    | (l, _) => l

/-- Shows what was read of a script, if it is to be shown. The lines before the last one that
somebody was asked for have been shown already. -/
def showText (t : CommandText) (read : Chars) (p : Process) (m : Machine) : Machine :=
  if t.fromFile && p.scope.isOn 'v' then
    m.complain p (Bytes.ofChars (read.drop (firstLines (t.asked - 1) t.text).length))
  else m

/-- How often a script that is not to stop at its end tries to go on all the same. -/
def maxEnds : Nat := 50

/-- What is said at the end of a script that is not to stop there. -/
def endWarning : Bytes :=
  Bytes.ofLine "\nUse \"exit\" to leave shell."

/-- The end of a text from which commands are read. -/
def atTextEnd (t : CommandText) (rest : List Frame) (p : Process) (m : Machine) : Progress :=
  let m := showText t t.text p m
  let stays := t.isOwn && p.scope.isOn 'I'
  if stays && t.ends < maxEnds then
    let t := { t with text := [], asked := 0, ends := t.ends + 1 }
    { process := { p with frames := .commands t :: rest }, machine := m.complain p endWarning }
  else
    let isAsked := t.isOwn && p.isInteractive
    { process := { p with frames := rest, atEnd := true },
      machine := if isAsked && !stays then m.complain p (Bytes.ofLine "") else m }

/-- How many texts may be read within one another. -/
def maxTexts : Nat := 2000

/-- How many texts are being read. -/
def textsIn (frames : List Frame) : Nat :=
  frames.countP fun
    | .commands _ => true
    | _ => false

/-- Reads the next commands from a text. If somebody types them in, every line is asked for: those
after the first one in another way. -/
def nextCommands (t : CommandText) (rest : List Frame) (p : Process) (m : Machine) : Progress :=
  let isAsked := t.isOwn && p.isInteractive
  let asking (name : String) (m : Machine) : Progress :=
    let frames := [.ask name, .commands { t with asked := t.asked + 1 }]
    { process := { p with frames := frames ++ rest }, machine := m }
  let asksMore (begun : Nat) : Bool := isAsked && t.asked ≤ begun
  let askMore : Progress := asking "PS2" (showText t (firstLines t.asked t.text) p m)
  let reader : Reader :=
    { rest := t.text, final := t.source.isNone, line := t.line, aliases := p.scope.aliases,
      documents := p.scope.documents, nextKey := p.scope.documents.length }
  if isAsked && t.asked = 0 then asking "PS1" m
  else
    match Read.statement.run reader with
    | .ok (none, r) => if asksMore r.begun then askMore else atTextEnd t rest p m
    | .ok (some s, r) =>
      if asksMore r.begun then askMore
      else
        let m := showText t (t.text.take (t.text.length - r.rest.length)) p m
        let t := { t with text := r.rest, line := r.line, asked := 0 }
        let scope := { p.scope with documents := r.documents }
        let atEnd := r.again && r.token = .endOfFile
        let more := if t.isLast && atEnd then [] else [.commands t]
        let frames := .run s t.tested :: more ++ rest
        { process := { p with scope, atEnd, frames }, machine := m }
    | .error (.wrong line message begun) =>
      if asksMore begun then askMore
      else
        let m := showText t (firstLines (line + 1 - t.line) t.text) p m
        failWith message { p with line, frames := .commands { t with line } :: rest } m
    | .error .incomplete =>
      let last := { t with source := none }
      let ended : Progress :=
        { process := { p with frames := .commands last :: rest }, machine := m }
      let taken := t.source.map fun o =>
        m.take (fun b => (b.take scriptBlock, b.drop scriptBlock)) o
      match taken with
      | some (some (b, more), m) =>
        if b ≠ [] then
          let t := { t with text := t.text ++ Bytes.chars (b.filter (· ≠ 0)), fromFile := true }
          { process := { p with frames := .commands t :: rest }, machine := m }
        else if more then { process := p, machine := m, moved := false }
        else ended
      | _ => ended

/-- After a failure or an interruption, somebody is asked for other commands. What was read before
is not looked at any more. -/
def askAgain (s : Skip) (t : CommandText) (rest : List Frame) (p : Process) (m : Machine) :
    Progress :=
  let t := { t with text := [], asked := 0, ends := 0 }
  let p := { p with skip := none, command := none, loopDepth := 0, known := {}, atEnd := false,
                    frames := .commands t :: rest }
  { process := p, machine := if s = .interrupted then m.complain p (Bytes.ofLine "") else m }

/-- The end of a script: what was to be done then is done first. -/
def leave (rest : List Frame) (p : Process) (m : Machine) : Progress :=
  match p.traps.lookup 0 with
  | some (c :: cs) =>
    let traps := p.traps.filter (·.1 ≠ 0)
    let frames := [.commands { text := c :: cs }, .afterTrap p.scope.status, .quit]
    { process := { p with traps, frames := frames ++ rest, skip := none }, machine := m }
  | _ => { process := finish (.status p.scope.status) p, machine := m }

/-- The statement whose pattern matches a word, if there is one. -/
def matchingClause (word : Chars) : List (List RawWord × Statement) → Expand (Option Statement)
  | [] => return none
  | ([], _) :: rest => matchingClause word rest
  | (w :: ws, body) :: rest => do
    if (← Expand.pattern w).isMatch word then return some body
    if ← anyMatch ws then return some body
    matchingClause word rest
where
  /-- Whether one of some patterns matches. -/
  anyMatch : List RawWord → Expand Bool
    | [] => return false
    | w :: ws => do
      if (← Expand.pattern w).isMatch word then return true
      anyMatch ws

/-- Carries out a pipeline; tells whether nobody waits for it. -/
def runPipeline (id : Nat) (stages : List Statement) (inBack tested : Bool) (rest : List Frame)
    (p : Process) (m : Machine) : Progress :=
  let (source, m) :=
    if inBack then
      let (null, m) := openNull m
      (some null, m)
    else (none, m)
  match forkStages id tested p source none stages m with
  | (none, m) => failWith noPipe p m
  | (some children, m) =>
    if inBack then { process := inBackground children { p with frames := rest }, machine := m }
    else
      { process := { p with frames := .await children :: .checked tested :: rest }, machine := m }

/-- Carries out a statement. -/
def runStatement (id : Nat) (s : Statement) (tested : Bool) (rest : List Frame) (p : Process)
    (m : Machine) : Progress :=
  let go (frames : List Frame) : Progress :=
    { process := { p with frames := frames ++ rest }, machine := m }
  match s with
  | .nothing => go []
  | .simple line assignments words redirects =>
    prepare id line assignments words redirects tested rest p m
  | .sequence a b => go [.run a tested, .run b tested]
  | .andThen a b => go [.run a true, .second false b tested]
  | .orElse a b => go [.run a true, .second true b tested]
  | .negation a => go [.run a true, .inverted]
  | .pipeline stages inBack =>
    match lookAhead m stages p with
    | .error (function, path) => readIn function path [.run s tested] { p with frames := rest } m
    | .ok p => runPipeline id stages inBack tested rest p m
  | .background (.rerouted line a redirects) =>
    expanding id (resolveAll redirects) { p with line } m fun todo p =>
      let (c, m) := forkBackground id [.reroute todo [] (.last a false), .leave] p m
      { process := inBackground [c] { p with frames := rest }, machine := m }
  | .background a =>
    let (c, m) := forkBackground id [.run a false, .leave] p m
    { process := inBackground [c] { p with frames := rest }, machine := m }
  | .subshell line a redirects =>
    expanding id (resolveAll redirects) { p with line } m fun todo p =>
      let p := { p with frames := .checked tested :: rest }
      if p.isDone then rerouting id todo [] (.last a tested) p.frames p m
      else
        let (c, m) := fork id p [.reroute todo [] (.last a tested), .leave] m
        { process := p.push [.await [c]], machine := m }
  | .loop whileSuccess condition body =>
    let l : Loop := { whileSuccess, condition, body, tested }
    { process := { p with loopDepth := p.loopDepth + 1
                          frames := .run condition true :: .condition l 0 :: rest },
      machine := m }
  | .each line name words body =>
    expanding id (fieldsOf (namesOf p m) [] words) { p with line } m fun values p =>
      let p := if values = [] then p.withStatus 0 else p
      { process := { p with loopDepth := p.loopDepth + 1
                            frames := .each name values body tested :: rest },
        machine := m }
  | .select line word clauses =>
    let work : Expand (Option Statement) := do
      matchingClause (← Expand.text word false) clauses
    expanding id work { p with line } m fun found p =>
      match found with
      | none => { process := { p with frames := rest }.withStatus 0, machine := m }
      | some .nothing => { process := { p with frames := rest }.withStatus 0, machine := m }
      | some body => { process := { p with frames := .run body tested :: rest }, machine := m }
  | .choice condition yes no => go [.run condition true, .chosen yes no tested]
  | .rerouted line a redirects =>
    expanding id (resolveAll redirects) { p with line } m fun todo p =>
      rerouting id todo [] (.statement a tested) rest p m
  | .define line name body =>
    let scope := { p.scope with
      functions := Scope.setIn name { line, body } p.scope.functions
      programs := p.scope.programs.filter (·.1 ≠ name)
      status := 0 }
    { process := { p with scope, frames := rest }, machine := m }

/-- Puts variables back, up to the first one that has to be unset and does not have the name of a
variable. -/
def putVariablesBack : List (String × Option Variable) → Scope → Scope × Option String
  | [], sc => (sc, none)
  | (name, some v) :: rest, sc => putVariablesBack rest (sc.put name v)
  | (name, none) :: rest, sc =>
    if isName name.toList then putVariablesBack rest (sc.drop name)
    else (sc, some (name ++ ": bad variable name"))

/-- Puts variables and options back. -/
def endLocals (p : Process) (m : Machine) : Progress :=
  match p.locals with
  | [] => { process := p, machine := m }
  | kept :: locals =>
    let (scope, failure) := putVariablesBack kept.bindings p.scope
    let scope := { scope with options := kept.options.getD scope.options }
    let p := { p with locals, scope }
    match failure with
    | some e => failWith e p m
    | none => { process := p, machine := m }

/-- Takes the topmost frame of a process. -/
def stepFrame (id : Nat) (f : Frame) (rest : List Frame) (p : Process) (m : Machine) : Progress :=
  let go (p : Process) (frames : List Frame) : Progress :=
    { process := { p with frames := frames ++ rest }, machine := m }
  let status := p.scope.status
  match f with
  | .commands t =>
    if maxTexts < textsIn rest then
      { process := finish (.signal Signal.overflow) p, machine := m }
    else nextCommands t rest p m
  | .ask name => asking id name rest p m
  | .profile => profile id rest p m
  | .run s tested => if p.scope.isOn 'n' then go p [] else runStatement id s tested rest p m
  | .reroute todo saved purpose => rerouting id todo saved purpose rest p m
  | .prepared c => perform id c rest p m
  | .print name said status failed => printing name said status failed rest p m
  | .read r => readingLine r rest p m
  | .checked tested =>
    if !tested && p.scope.isOn 'e' && status ≠ 0 then
      { process := Command.leaving { p with frames := rest }, machine := m }
    else go p []
  | .lastWord word =>
    match p.scope.set "_" word with
    | .error e => failWith e { p with frames := rest } m
    | .ok scope => go { p with scope } []
  | .inverted => go (p.withStatus (if status = 0 then 1 else 0)) []
  | .second afterFailure s tested =>
    go p (if afterFailure = decide (status ≠ 0) then [.run s tested] else [])
  | .chosen yes no tested =>
    if status = 0 then go p [.run yes tested]
    else
      match no with
      | some s => go p [.run s tested]
      | none => go (p.withStatus 0) []
  | .condition l last =>
    if l.whileSuccess = decide (status = 0) then go p [.run l.body l.tested, .round l]
    else go { p.withStatus last with loopDepth := p.loopDepth - 1 } []
  | .round l => go p [.run l.condition true, .condition l status]
  | .each _ [] _ _ => go { p with loopDepth := p.loopDepth - 1 } []
  | .each name (v :: vs) body tested =>
    match p.scope.set name v with
    | .error e => failWith e { p with frames := rest } m
    | .ok scope => go { p with scope } [.run body tested, .each name vs body tested]
  | .restore saved => go (putBack saved p) []
  | .endLocals => endLocals { p with frames := rest } m
  | .endCall args searched loopDepth =>
    go { p with scope := { p.scope with args, searched }, loopDepth
                callDepth := p.callDepth - 1 } []
  | .endSourced => go p []
  | .defined function path => checkDefined function path { p with frames := rest } m
  | .call name args tested => callNamed name args tested { p with frames := rest } m
  | .describe names status =>
    carryOut "type" false (Command.describeAll m names [] status { p with frames := rest })
  | .locate names status =>
    carryOut "hash" false (Command.locateAll m names [] status { p with frames := rest })
  | .endCommand command => go { p with command } []
  | .afterTrap status => go (p.withStatus status) []
  | .await children => awaiting children rest p m
  | .gather fd child soFar => gathering fd child soFar rest p m
  | .caught => go p []
  | .awaitJobs numbers all => awaitingJobs numbers all rest p m
  | .leave => leave rest p m
  | .quit => { process := finish (.status p.scope.status) p, machine := m }
  | .abort message status =>
    { process := finish (.status status) p, machine := m.complain p message }

/-- What becomes of a loop that is being left, and of the reason: whether it goes on. -/
def skipLoop : Skip → Bool × Option Skip
  | .loops n => (false, if n ≤ 1 then none else some (.loops (n - 1)))
  | .round n => if n ≤ 1 then (true, none) else (false, some (.round (n - 1)))
  | s => (false, some s)

/-- Whether a function or script is being left. -/
def isReturn : Skip → Bool
  | .returned _ => true
  | _ => false

/-- Whether everything is being left because of a failure or an interruption. -/
def isFailure (s : Skip) : Bool :=
  s = .failed || s = .interrupted

/-- Takes the topmost frame of a process away. -/
def skipFrame (id : Nat) (s : Skip) (f : Frame) (rest : List Frame) (p : Process) (m : Machine) :
    Progress :=
  let go (p : Process) (frames : List Frame) : Progress :=
    { process := { p with frames := frames ++ rest }, machine := m }
  let leftLoop (again : List Frame) (status : Nat) : Progress :=
    match skipLoop s with
    | (true, skip) => go { p with skip } again
    | (false, skip) => go { p.withStatus status with skip, loopDepth := p.loopDepth - 1 } []
  match f with
  | .condition l last =>
    leftLoop [.run l.condition true, .condition l last]
      (if s = .returned true then p.scope.status else last)
  | .round l => leftLoop [.run l.condition true, .condition l p.scope.status] p.scope.status
  | .each name values body tested =>
    leftLoop [.each name values body tested] p.scope.status
  | .endCall args searched loopDepth =>
    go { p with scope := { p.scope with args, searched }, loopDepth
                callDepth := p.callDepth - 1
                skip := if isReturn s then none else p.skip } []
  | .endSourced => go { p with skip := if isReturn s then none else p.skip } []
  | .defined function path =>
    if isFailure s then go p [] else checkDefined function path { p with frames := rest } m
  | .caught =>
    if s = .failed then go { p.withStatus 2 with skip := none } [] else go p []
  | .restore _ => stepFrame id f rest p m
  | .endLocals => stepFrame id f rest p m
  | .endCommand _ => stepFrame id f rest p m
  | .afterTrap _ =>
    if s = .returned true || isFailure s then go p [] else stepFrame id f rest p m
  | .checked _ => if isFailure s then go p [] else stepFrame id f rest p m
  | .lastWord _ => if isFailure s then go p [] else stepFrame id f rest p m
  | .commands t =>
    if isFailure s && t.isOwn && p.isInteractive then askAgain s t rest p m else go p []
  | .leave =>
    if isFailure s && p.isInteractive then
      askAgain s { text := [], source := p.fd? 0, isOwn := true } [.leave] p m
    else stepFrame id f rest { p with skip := none } m
  | .quit => stepFrame id f rest { p with skip := none } m
  | _ => go p []

/-- Whether a process is before or after a command, so that a trap can be carried out. -/
def isBetween (p : Process) : Bool :=
  p.skip.isNone &&
    match p.frames with
    | .run _ _ :: _ => p.known.outputs.isEmpty
    | .checked _ :: _ => true
    | .commands _ :: _ => true
    | _ => false

/-- Whether a process waits for others, so that it cannot be interrupted. -/
def isWaiting (p : Process) : Bool :=
  match p.frames with
  | .await _ :: _ => true
  | .gather _ _ _ :: _ => true
  | _ => false

/-- What the signals that have come do to a process; none if there are none or they have to wait. -/
def signalled (p : Process) : Option Process :=
  match p.signals.find? fun n => (p.actionOn n).isNone with
  | some n => some (finish (.signal n) p)
  | none =>
    let actions := (p.signals.filterMap p.actionOn).filter (· ≠ [])
    if p.signals = [] then none
    else if p.isInterrupted then
      if isWaiting p then none
      else
        some { p.withStatus (128 + Signal.interrupt) with
          skip := some .interrupted, signals := p.signals.filter (· ≠ Signal.interrupt) }
    else if actions = [] then some { p with signals := [] }
    else if isBetween p then
      let frames := actions.flatMap fun text => [.commands { text }, .afterTrap p.scope.status]
      some { p.push frames with signals := [] }
    else none

/-- Lets a process go on by one step. -/
def step (id : Nat) (p : Process) (m : Machine) : Progress :=
  match signalled p, p.frames, p.skip with
  | some p, _, _ => { process := p, machine := m }
  | none, [], _ => { process := finish (.status p.scope.status) p, machine := m }
  | none, f :: rest, none => stepFrame id f rest p m
  | none, f :: rest, some s => skipFrame id s f rest p m

/-- Lets the process that has started another one know that it has ended, if it does something about
that. -/
def tellParent (p : Process) (m : Machine) : Machine :=
  let hear (q : Process) : Process :=
    if (q.traps.lookup Signal.child).isSome then q.receive Signal.child else q
  match p.alive, p.parent with
  | false, some parent => { m with processes := m.processes.modify parent hear }
  | _, _ => m

/-- How many steps a process takes before others get their turn. -/
def turn : Nat := 200

/-- Lets the process of a number go on until it has ended or has to wait, for at most the given
number of steps; tells whether it did anything. -/
def stepProcess (id : Nat) : Nat → Machine → Bool × Machine
  | 0, m => (true, m)
  | n + 1, m =>
    match m.processes[id]? with
    | none => (false, m)
    | some p =>
      if p.alive && p.loading != 0 then
        let p := { p with loading := p.loading - 1 }
        (true, { m with processes := m.processes.set id p })
      else if p.alive then
        let r := step id p m
        let p := r.machine.raised.foldl (fun p n => p.receive n) r.process
        let m := { r.machine with processes := r.machine.processes.set id p, raised := [] }
        let m := tellParent p m
        if r.moved then (true, (stepProcess id n m).2) else (false, m)
      else (false, m)

/-- Gives every process its turn, in order, and tells whether any of them did anything. -/
def round (m : Machine) : Bool × Machine :=
  let m := { m with disk := m.disk.tick }
  (List.range m.processes.length).foldl (fun (moved, m) id =>
    let (more, m) := stepProcess id turn m
    (moved || more, m)) (false, m)

/-- Whether a process has not ended. -/
def isAlive (id : Nat) (m : Machine) : Bool :=
  match m.processes[id]? with
  | none => false
  | some p => p.alive

/-- Whether a process that nobody waits for has not ended. -/
def hasOrphans (m : Machine) : Bool :=
  m.processes.any fun p => p.alive &&
    match p.parent with
    | none => false
    | some parent => !m.isAlive parent

/-- Runs the machine while something holds of it, for at most the given number of rounds. -/
def runWhile (goes : Machine → Bool) : Nat → Machine → Machine
  | 0, m => m
  | n + 1, m =>
    if goes m then
      match round m with
      | (true, m) => runWhile goes n m
      | (false, m) => m
    else m

end Machine
end LineShell
