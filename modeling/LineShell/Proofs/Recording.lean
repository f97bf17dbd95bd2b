import LineShell.Proofs.Services
import Mathlib.Data.List.Basic

/-!
# Machines that keep a record

To say what the shell does on a machine and not only what comes of it, it is run on a machine that
writes down every call that can change it (`Recorded`). Keeping the record changes nothing else:
forgetting it is a map of machines (`Recorded.forget`), and so is putting it after an older one
(`Recorded.onto`). So a run on record is the run itself, and the calls a part of it makes do not
depend on those made before.
-/

namespace LineShell

/-- A call of a service that can change the machine, with the machine's answer. Whether a program
could be waited for is left out. -/
inductive Call where
  /-- Directories are made. -/
  | makeDirs (path : String) (answer : Except OsError Unit)
  /-- A file is opened for writing. -/
  | create (path : String) (mode : WriteMode) (answer : Except OsError Handle)
  /-- An open file is written to. -/
  | write (h : Handle) (b : Bytes) (answer : Except OsError Unit)
  /-- The shell's standard output is written to. -/
  | print (b : Bytes) (answer : Except OsError Unit)
  /-- The shell's standard error is written to. -/
  | complain (b : Bytes)
  /-- A program is started. -/
  | start (launch : Launch) (answer : Except OsError Child)
  /-- A pipe is closed unread. -/
  | hangUp (p : Pipe)
  /-- A program is waited for. -/
  | wait (c : Child)
  /-- A line is read. -/
  | nextLine (answer : Option Bytes)
  deriving DecidableEq

/-- A machine with a record of the calls made on it, in order. -/
structure Recorded (σ : Type) where
  /-- The machine. -/
  machine : σ
  /-- The record. -/
  calls : List Call := []

namespace Recorded

variable {σ : Type} [Host σ]

/-- The outcome of a service with its call put on record. -/
def record {α : Type} (calls : List Call) (call : α → Call) (outcome : α × σ) : α × Recorded σ :=
  (outcome.1, ⟨outcome.2, calls ++ [call outcome.1]⟩)

instance : Host (Recorded σ) where
  kind? r := Host.kind? r.machine
  entries? r := Host.entries? r.machine
  read r := Host.read r.machine
  makeDirs path r := record r.calls (.makeDirs path) (Host.makeDirs path r.machine)
  create path mode r := record r.calls (.create path mode) (Host.create path mode r.machine)
  write h b r := record r.calls (.write h b) (Host.write h b r.machine)
  print b r := record r.calls (.print b) (Host.print b r.machine)
  complain b r := ⟨Host.complain b r.machine, r.calls ++ [.complain b]⟩
  start l r := record r.calls (.start l) (Host.start l r.machine)
  hangUp p r := ⟨Host.hangUp p r.machine, r.calls ++ [.hangUp p]⟩
  wait c r := record r.calls (fun _ => .wait c) (Host.wait c r.machine)
  nextLine r := record r.calls .nextLine (Host.nextLine r.machine)

theorem calls_makeDirs (path : String) (r : Recorded σ) :
    (Host.makeDirs path r).2.calls = r.calls ++ [.makeDirs path (Host.makeDirs path r).1] := rfl

theorem calls_create (path : String) (mode : WriteMode) (r : Recorded σ) :
    (Host.create path mode r).2.calls =
      r.calls ++ [.create path mode (Host.create path mode r).1] := rfl

theorem calls_write (h : Handle) (b : Bytes) (r : Recorded σ) :
    (Host.write h b r).2.calls = r.calls ++ [.write h b (Host.write h b r).1] := rfl

theorem calls_print (b : Bytes) (r : Recorded σ) :
    (Host.print b r).2.calls = r.calls ++ [.print b (Host.print b r).1] := rfl

theorem calls_start (l : Launch) (r : Recorded σ) :
    (Host.start l r).2.calls = r.calls ++ [.start l (Host.start l r).1] := rfl

theorem calls_wait (c : Child) (r : Recorded σ) :
    (Host.wait c r).2.calls = r.calls ++ [.wait c] := rfl

theorem calls_hangUp (p : Pipe) (r : Recorded σ) :
    (Host.hangUp p r).calls = r.calls ++ [.hangUp p] := rfl

/-- Forgetting the record is a map of machines. -/
def forget : Host.Hom (Recorded σ) σ where
  toFun := machine
  kind? _ _ := rfl
  entries? _ _ := rfl
  read _ _ := rfl
  makeDirs _ _ := rfl
  create _ _ _ := rfl
  write _ _ _ := rfl
  print _ _ := rfl
  complain _ _ := rfl
  start _ _ := rfl
  hangUp _ _ := rfl
  wait _ _ := rfl
  nextLine _ := rfl

/-- Putting the record after an older one is a map of machines. -/
def onto (older : List Call) : Host.Hom (Recorded σ) (Recorded σ) where
  toFun r := ⟨r.machine, older ++ r.calls⟩
  kind? _ _ := rfl
  entries? _ _ := rfl
  read _ _ := rfl
  makeDirs _ _ := by simp [Host.makeDirs, record]
  create _ _ _ := by simp [Host.create, record]
  write _ _ _ := by simp [Host.write, record]
  print _ _ := by simp [Host.print, record]
  complain _ _ := by simp [Host.complain]
  start _ _ := by simp [Host.start, record]
  hangUp _ _ := by simp [Host.hangUp]
  wait _ _ := by simp [Host.wait, record]
  nextLine _ := by simp [Host.nextLine, record]

@[simp] theorem forget_apply (r : Recorded σ) : forget r = r.machine := rfl

@[simp] theorem onto_apply (older : List Call) (r : Recorded σ) :
    onto older r = ⟨r.machine, older ++ r.calls⟩ := rfl

end Recorded

/-- Names stand for the same on record. -/
theorem Command.resolve_recorded {σ : Type} [Host σ] (st : State) (s : σ) (name : String) :
    resolve st ({ machine := s } : Recorded σ) name = resolve st s name :=
  (resolve_map Recorded.forget st { machine := s } name).symm
end LineShell
