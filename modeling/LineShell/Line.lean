import LineShell.Pipeline
import LineShell.Stage

/-!
# Running a line

A line of one stage is a single command and may change the shell's state and end the shell. A line
of several stages is a pipeline, which can do neither.
-/

namespace LineShell
namespace Line

variable {σ : Type} [Host σ]

/-- Runs one line. A line without words does nothing. -/
def run (line : String) (st : State) (s : σ) : Flow × State × σ :=
  match Stage.ofLine line with
  | [stage] =>
    match Invocation.ofStage? stage with
    | none => (.proceed, st, s)
    | some inv => inv.run st s
  | stages =>
    match Pipeline.run st stages s with
    | (.ok _, s) => (.proceed, st, s)
    | (.error e, s) => (.proceed, st, Host.complainLine e.message s)

/-- Records a line in the history and runs it. -/
def enter (line : String) (st : State) (s : σ) : Flow × State × σ :=
  run line { st with history := st.history.add line } s

end Line
end LineShell
