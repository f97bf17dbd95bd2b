import LineShell.Machine.Whereabouts
import LineShell.Script.Signal

/-!
# Jobs

A script can start processes in the background; those that are started together are a job. The
script can list its jobs and wait for them. A job that it has waited for is remembered until the
script starts something else.

This is part of the script interpreter, which stands in for the programs of a real machine. No
general result about the shell rests on it.
-/

namespace LineShell

open Script

namespace Job

/-- How the job has ended, which is how its last process has; none while one of them goes on. -/
def ending? (j : Job) (m : Machine) : Option Ending :=
  match j.processes.mapM fun c => (m.processes[c]?).bind (·.ended) with
  | some endings => endings.getLast?
  | none => none

/-- The state of the job, in words. -/
def state (j : Job) (m : Machine) : String :=
  match j.ending? m with
  | none => "Running"
  | some (.status 0) => "Done"
  | some (.status n) => s!"Done({n})"
  | some (.signal n) => Signal.description n

/-- How wide the description of a job is before the commands it consists of. -/
def width : Nat := 33

/-- The job as it is listed; `rank` is how many jobs were started later. -/
def row (j : Job) (rank : Nat) (m : Machine) : Chars :=
  let sign := match rank with
    | 0 => "+"
    | 1 => "-"
    | _ => " "
  let state := j.state m
  let text := s!"[{j.number}] {sign} {state}".toList
  let joints := j.processes.tail.flatMap fun _ => " | ".toList
  text ++ List.replicate (width - text.length) ' ' ++ joints ++ ['\n']

end Job

namespace Machine

/-- The process takes notice of jobs that have ended. -/
def notice (p : Process) (m : Machine) : Process :=
  { p with jobs := p.jobs.map fun j => { j with noticed := j.noticed || (j.ending? m).isSome } }

/-- The process forgets the first of the jobs that it has waited for. -/
def forgetJob (p : Process) : Process :=
  match ((p.jobs.filter (·.waited)).map (·.number)).min? with
  | none => p
  | some n => { p with jobs := p.jobs.filter (·.number ≠ n) }

/-- The process has a new job. -/
def addJob (processes : List Nat) (p : Process) : Process :=
  let p := forgetJob p
  let isFree (n : Nat) : Bool := p.jobs.all (·.number ≠ n)
  let number := (((List.range (p.jobs.length + 1)).map (· + 1)).find? isFree).getD 1
  { p with jobs := { number, processes } :: p.jobs }

namespace Command

/-- The job that an argument names, or a message. -/
def jobOf (arg : Chars) (p : Process) : Except String Job :=
  let orElse (j : Option Job) (message : String) : Except String Job :=
    match j with
    | some j => .ok j
    | none => .error message
  let unknown := "No such job: " ++ Chars.text arg
  match arg with
  | '%' :: rest =>
    if rest = [] ∨ rest = ['%'] ∨ rest = ['+'] then orElse p.jobs.head? "No current job"
    else if rest = ['-'] then orElse p.jobs[1]? "No previous job"
    else
      match Number.digits 10 rest with
      | some (n, []) => orElse (p.jobs.find? (·.number = n)) unknown
      | _ => .error unknown
  | _ => .error unknown

/-- Lists jobs. Those that have ended are forgotten then. -/
def listJobs (chosen : List Job) (p : Process) (m : Machine) : Chars × Process :=
  let step (state : Chars × Process) (j : Job) : Chars × Process :=
    let (out, p) := state
    let rank := (p.jobs.takeWhile (·.number ≠ j.number)).length
    let jobs := if (j.ending? m).isSome then p.jobs.filter (·.number ≠ j.number) else p.jobs
    (out ++ j.row rank m, { p with jobs })
  chosen.foldl step ([], p)

/-- `jobs` -/
def jobs : Command :=
  withOptions "lp" "" fun _ args process machine =>
    match if args = [] then .ok process.jobs else args.mapM (jobOf · process) with
    | .error e => failing e args process machine
    | .ok chosen =>
      let (out, process) := listJobs chosen process machine
      { process, machine, out := [.text out] }

/-- `fg` and `bg`, which need a terminal -/
def resume : Command :=
  withOptions "" "" fun _ args p m =>
    let arg := args.headD ['%']
    match jobOf arg p with
    | .error e => failing e args p m
    | .ok _ =>
      let name := if args = [] then "(null)" else Chars.text arg
      failing s!"job {name} not created under job control" args p m

/-- The number of the job that `wait` is given, if there is such a job. -/
def waitedFor (p : Process) (arg : Chars) : Except String (Option Nat) :=
  match arg with
  | '%' :: _ => do return some (← jobOf arg p).number
  | _ => do
    let n ← Number.count arg
    return (p.jobs.find? fun j => j.processes.getLast?.map processNumber == some n).map (·.number)

/-- `wait` -/
def waiting : Command :=
  withOptions "" "" fun _ args process machine =>
    if args = [] then
      { process := process.push [.awaitJobs (process.jobs.map (·.number)) true], machine,
        verdict := .arranged }
    else
      match args.mapM (waitedFor process) with
      | .error e => failing e args process machine
      | .ok found =>
        match found.filterMap fun n => n with
        | [] => constant 127 args process machine
        | numbers =>
          { process := process.push [.awaitJobs numbers false], machine, verdict := .arranged }

end Command
end Machine
end LineShell
