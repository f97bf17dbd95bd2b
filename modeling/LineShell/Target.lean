import LineShell.Failure
import LineShell.Host
import LineShell.Path

/-!
# Opening the targets of redirections

A target is a path as seen from the working directory, spelled as it was typed: no tilde is
expanded, and dots are followed through the files and not folded. The directories above it are made
as far as they are missing. Of two targets, standard output is opened before standard error, and
nothing is opened after a failure.

`report` puts a message where the command wanted its errors. When that is impossible, the message
goes to the shell's own standard error, so it is never lost.
-/

namespace LineShell
namespace Target

variable {σ : Type} [Host σ]

/-- Makes the directories above a path as far as they are missing. -/
def makeParent (path : String) (s : σ) : Except OsError Unit × σ :=
  match Path.parent? path with
  | none => (.ok (), s)
  | some dir => Host.makeDirs dir s

/-- Opens a target for writing, with the directories above it. -/
def openIn (cwd : String) (t : Target) (s : σ) : Except ProcessError Handle × σ :=
  let path := Path.join cwd t.path
  match makeParent path s with
  | (.error e, s) => (.error (.redirect t.path e), s)
  | (.ok _, s) =>
    match Host.create path t.mode s with
    | (.error e, s) => (.error (.redirect t.path e), s)
    | (.ok h, s) => (.ok h, s)

/-- Opens a target, if there is one. -/
def openIn? (cwd : String) (t : Option Target) (s : σ) : Except ProcessError (Option Handle) × σ :=
  match t with
  | none => (.ok none, s)
  | some t =>
    match t.openIn cwd s with
    | (.error e, s) => (.error e, s)
    | (.ok h, s) => (.ok (some h), s)

/-- Opens the targets of a redirection, standard output first. -/
def openBoth (cwd : String) (r : Redirection) (s : σ) :
    Except ProcessError (Option Handle × Option Handle) × σ :=
  match openIn? cwd r.stdout s with
  | (.error e, s) => (.error e, s)
  | (.ok out, s) =>
    match openIn? cwd r.stderr s with
    | (.error e, s) => (.error e, s)
    | (.ok err, s) => (.ok (out, err), s)

end Target

/-- Puts a message on a line of a command's standard error. -/
def report {σ : Type} [Host σ] (cwd : String) (r : Redirection) (message : String) (s : σ) : σ :=
  match Target.openIn? cwd r.stderr s with
  | (.ok (some h), s) =>
    match Host.write h (Bytes.ofLine message) s with
    | (.ok _, s) => s
    | (.error _, s) => Host.complainLine message s
  | (_, s) => Host.complainLine message s

end LineShell
