import LineShell.Simple

/-!
# Pipelines

A line with several stages is read as a whole before anything runs: a stage without words is a
syntax error, and one name that stands for nothing gives up the line. Then the stages are started
from left to right, and the shell waits for all programs it started. If it cannot wait for one of
them, it goes on to the next.

| stage         | reads                                   | its standard output goes         |
|---------------|-----------------------------------------|----------------------------------|
| first program | the null device                         | as below                         |
| program after a program | the live output of that program | into a pipe, whatever its target |
| program after a builtin | what the builtin gave back      | into a pipe, whatever its target |
| builtin       | nothing                                 | to the next stage                |
| last stage    | as above                                | to its target or the shell's     |

The output of a program before a builtin is read by nobody: its pipe is closed at once. Stages work
on a copy of the shell's state, handed on from stage to stage and thrown away at the end.
-/

namespace LineShell

/-- A command of a pipeline and what its name stands for. -/
structure PlannedStage where
  /-- The command as typed. -/
  invocation : Invocation
  /-- What it stands for. -/
  command : Command
  deriving DecidableEq, Repr

namespace Pipeline

/-- The commands of the stages, if each stage has one. -/
def parse (stages : List String) : Except PipelineError (List Invocation) :=
  stages.mapM fun stage =>
    match Invocation.ofStage? stage with
    | some inv => .ok inv
    | none => .error (.unexpected "|")

variable {σ : Type} [Host σ]

/-- The commands with what their names stand for, if each of them stands for something. -/
def plan (st : State) (s : σ) (invs : List Invocation) :
    Except PipelineError (List PlannedStage) :=
  invs.mapM fun inv =>
    match Command.resolve st s inv.name with
    | some command => .ok ⟨inv, command⟩
    | none => .error (.notFound inv.name)

/-- Closes an input that nobody is going to read. -/
def discard (input : Input) (s : σ) : σ :=
  match input with
  | .pipe p => Host.hangUp p s
  | _ => s

/-- Where the standard output of a program in a pipeline goes: only the last stage has a target. -/
def openStdout (st : State) (inv : Invocation) (last : Bool) (s : σ) :
    Except ProcessError Output × σ :=
  if last then
    match Target.openIn? st.cwd inv.redirection.stdout s with
    | (.error e, s) => (.error e, s)
    | (.ok h, s) => (.ok (.ofTarget h), s)
  else (.ok .pipe, s)

/-- Opens what a program in a pipeline writes to, standard output first. -/
def openOutputs (st : State) (inv : Invocation) (last : Bool) (s : σ) :
    Except ProcessError (Output × Output) × σ :=
  match openStdout st inv last s with
  | (.error e, s) => (.error e, s)
  | (.ok out, s) =>
    match Target.openIn? st.cwd inv.redirection.stderr s with
    | (.error e, s) => (.error e, s)
    | (.ok err, s) => (.ok (out, .ofTarget err), s)

/-- Starts a program in a pipeline. -/
def startStage (st : State) (input : Input) (program : String) (inv : Invocation) (last : Bool)
    (s : σ) : Except ProcessError Child × σ :=
  match openOutputs st inv last s with
  | (.error e, s) => (.error e, discard input s)
  | (.ok (stdout, stderr), s) =>
    match Host.start { program, name := inv.name, args := inv.args, dir := st.cwd, stdin := input,
                       stdout, stderr } s
    with
    | (.error e, s) => (.error (.spawn inv.name e), s)
    | (.ok child, s) => (.ok child, s)

/-- Runs a builtin whose output goes to the next stage; a failure is reported at once. -/
def feedBuiltin (b : Builtin) (inv : Invocation) (st : State) (s : σ) : Bytes × State × σ :=
  match b.run inv.args st s with
  | (.ok (.text text), st, s) => (Bytes.ofLine text, st, s)
  | (.ok _, st, s) => ([], st, s)
  | (.error e, st, s) => ([], st, report st.cwd inv.redirection e.message s)

/-- What the stage after a program reads: the program's output if the stage is a program too.
Otherwise the output is closed. -/
def handOn (child : Child) (rest : List PlannedStage) (s : σ) : Input × σ :=
  match child.output, rest with
  | some p, ⟨_, .external _⟩ :: _ => (.pipe p, s)
  | some p, _ => (.empty, Host.hangUp p s)
  | none, _ => (.empty, s)

/-- Starts the stages from left to right. Gives back the programs that were started, in order, also
when a later stage failed. -/
def startAll (st : State) (input : Input) : List PlannedStage → σ →
    Except ProcessError Unit × List Child × σ
  | [], s => (.ok (), [], s)
  | ⟨inv, .builtin b⟩ :: rest, s =>
    if rest.isEmpty then
      let (_, _, s) := runBuiltin b inv st s
      (.ok (), [], s)
    else
      let (bytes, st, s) := feedBuiltin b inv st s
      startAll st (.buffer bytes) rest s
  | ⟨inv, .external program⟩ :: rest, s =>
    match startStage st input program inv rest.isEmpty s with
    | (.error e, s) => (.error e, [], s)
    | (.ok child, s) =>
      let (next, s) := handOn child rest s
      let (result, children, s) := startAll st next rest s
      (result, child :: children, s)

/-- Waits for programs, in order, whether or not that succeeds. -/
def awaitAll (children : List Child) (s : σ) : σ :=
  children.foldl (fun s child => (Host.wait child s).2) s

/-- Runs a planned pipeline and waits for the programs it started, in order. -/
def execute (st : State) (stages : List PlannedStage) (s : σ) : Except ProcessError Unit × σ :=
  let (result, children, s) := startAll st .empty stages s
  (result, awaitAll children s)

/-- Plans the stages of a line and runs them. -/
def run (st : State) (stages : List String) (s : σ) : Except PipelineError Unit × σ :=
  match (parse stages).bind (plan st s) with
  | .error e => (.error e, s)
  | .ok stages =>
    match execute st stages s with
    | (.error e, s) => (.error (.process e), s)
    | (.ok _, s) => (.ok (), s)

end Pipeline
end LineShell
