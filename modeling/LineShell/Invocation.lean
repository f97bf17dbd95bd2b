import LineShell.Redirection
import LineShell.Word

/-!
# Invocations

The words of a stage are a command: its name, which is always the first word, even one that is
spelled like an operator, then its arguments and redirections.
-/

namespace LineShell

/-- A command as it was typed. -/
structure Invocation where
  /-- The command word. -/
  name : String
  /-- The words after it that are not part of a redirection. -/
  args : List String
  /-- Where its output goes. -/
  redirection : Redirection
  deriving DecidableEq, Repr

namespace Invocation

/-- The command that a list of words spells, unless it is empty. -/
def ofWords? : List String → Option Invocation
  | [] => none
  | name :: rest =>
    let (args, redirection) := Redirection.extract rest
    some { name, args, redirection }

/-- The command of a stage, unless the stage has no words. -/
def ofStage? (stage : String) : Option Invocation :=
  ofWords? (Word.ofLine stage)

/-- Only a stage without words has no command. -/
theorem ofStage?_eq_none_iff {stage : String} :
    ofStage? stage = none ↔ Word.ofLine stage = [] := by
  rw [ofStage?]
  cases Word.ofLine stage <;> simp [ofWords?]

/-- The name of a stage's command is its first word. -/
theorem head?_of_ofStage? {stage : String} {inv : Invocation} (h : ofStage? stage = some inv) :
    (Word.ofLine stage).head? = some inv.name := by
  rw [ofStage?] at h
  cases hw : Word.ofLine stage with
  | nil => simp [hw, ofWords?] at h
  | cons name rest =>
    simp only [hw, ofWords?, Option.some.injEq] at h
    simp [← h]

end Invocation
end LineShell
