import LineShell.Machine.Load
import LineShell.Script.Expand

/-!
# Redirections of scripts

A redirection opens something under a descriptor. What was open there before is kept under a
descriptor of the process's own, so that it can be put back.

This is part of the script interpreter, which stands in for the programs of a real machine. No
general result about the shell rests on it.
-/

namespace LineShell
namespace Machine

open Script

/-- Expands the word of a redirection, but not a text that it gives. -/
def resolve : Redirect → Expand Reroute
  | .file fd how name => return .file fd how (← Expand.text name false)
  | .copy fd source => do
    match ← Expand.text source false with
    | ['-'] => return .copy fd none
    | [c] =>
      if c.isDigit then return .copy fd (some (digitValue c)) else Expand.malformed "Bad fd number"
    | _ => Expand.malformed "Bad fd number"
  | .document fd key => do
    return .document fd (((← Expand.scope).documents.lookup key).getD [])

/-- Expands the words of redirections. -/
def resolveAll : List Redirect → Expand (List Reroute)
  | [] => return []
  | r :: rest => do
    let first ← resolve r
    return first :: (← resolveAll rest)

/-- Opens a file as a redirection asks for it. -/
def openAs (how : Access) (path : Chars) (p : Process) (m : Machine) :
    Except String Nat × Machine :=
  let refused (making : Bool) : Except String Nat × Machine :=
    (.error (openFailure making path .tooManyFiles), m)
  let isFull := !p.allows p.freeFd
  let written (mode : WriteMode) : Except String Nat × Machine :=
    if isFull then refused true
    else
      match m.openFile p.dir (Chars.path path) mode with
      | (.error e, m) => (.error (openFailure true path e), m)
      | (.ok id, m) => (.ok id, m)
  match how with
  | .read =>
    if isFull then refused false
    else
      match openToRead p.dir path m with
      | (.error e, m) => (.error (openFailure false path e), m)
      | (.ok id, m) => (.ok id, m)
  | .append => written .append
  | .overwrite => written .truncate
  | .write =>
    let there : Except String Nat × Machine := (.error (openFailure true path .alreadyExists), m)
    if !p.scope.isOn 'C' then written .truncate
    else
      match (m.disk.find? p.dir (Chars.path path)).toOption with
      | none => if m.disk.isLink p.dir (Chars.path path) then there else written .truncate
      | some (_, .directory) => (.error (openFailure false path .isDirectory), m)
      | some (_, .device _) => written .truncate
      | some _ => there
  | .readWrite =>
    if isFull then refused true
    else
      match m.disk.create p.dir (Chars.path path) .append with
      | (.error e, disk) => (.error (openFailure true path e), { m with disk })
      | (.ok place, disk) =>
        let (id, m) := { m with disk }.opening (.file { place })
        (.ok id, m)

/-- Opens a text to read from. -/
def openText (content : Chars) (m : Machine) : Nat × Machine :=
  let (pipe, m) := m.addPipe { content := Bytes.ofChars content }
  m.opening (.reader pipe)

/-- What a redirection opens, or a message; none if it closes. -/
def openedBy (r : Reroute) (p : Process) (m : Machine) : Except String (Option Nat) × Machine :=
  match r with
  | .file _ how path =>
    match openAs how path p m with
    | (.error e, m) => (.error e, m)
    | (.ok id, m) => (.ok (some id), m)
  | .copy _ none => (.ok none, m)
  | .copy _ (some source) =>
    match p.fd? source with
    | none => (.error s!"{source}: Bad file descriptor", m)
    | some id => (.ok (some id), m)
  | .document _ _ => (.ok none, m)
  | .text _ content =>
    if !p.allowsPipe then (.error "Pipe call failed", m)
    else
      let (id, m) := openText content m
      (.ok (some id), m)

/-- What keeping a descriptor comes to. -/
structure Keeping where
  /-- The process. -/
  process : Process
  /-- What was kept. -/
  saved : List (Nat × Option Nat)
  /-- Why the descriptor could not be kept. It is closed all the same then. -/
  failure : Option String := none

/-- Takes what is open under a descriptor away and keeps it, unless something is kept already or the
descriptor counts as closed. -/
def keep (fd : Nat) (saved : List (Nat × Option Nat)) (p : Process) : Keeping :=
  if (saved.lookup fd).isSome then { process := p, saved }
  else
    match if p.shut.contains fd then none else p.fd? fd, p.ownFd with
    | none, _ => { process := p, saved := (fd, none) :: saved }
    | some id, .ok slot =>
      { process := (p.setFd slot (some id)).setFd fd none, saved := (fd, some slot) :: saved }
    | some _, .error e =>
      { process := p.setFd fd none, saved, failure := some (toString fd ++ ": " ++ e.reason) }

/-- Puts back what was kept, where the process may have it open. -/
def putBack (saved : List (Nat × Option Nat)) (p : Process) : Process :=
  saved.foldl (fun p (fd, slot) =>
    match slot with
    | none => (if p.shut.contains fd then p else p.setFd fd none).remembering fd true
    | some slot =>
      let back := if p.allows fd then p.setFd fd (p.fd? slot) else p
      (back.setFd slot none).remembering fd false) p

/-- What redirections come to. -/
structure Rerouted where
  /-- The process. -/
  process : Process
  /-- The machine. -/
  machine : Machine
  /-- What was kept. -/
  saved : List (Nat × Option Nat)
  /-- Those that are left, from the first one on whose text is to be expanded. -/
  left : List Reroute := []
  /-- Why a redirection failed, if one did. -/
  failure : Option String := none

/-- Carries out redirections from left to right, up to the first that fails or whose text is to be
expanded; `keeps` tells whether what was open before is kept. If so, it is also taken away if
nothing can be copied in its place. -/
def rerouteAll (keeps : Bool) :
    List Reroute → List (Nat × Option Nat) → Process → Machine → Rerouted
  | [], saved, process, machine => { process, machine, saved }
  | .document fd body :: rest, saved, process, machine =>
    { process, machine, saved, left := .document fd body :: rest }
  | r :: rest, saved, p, m =>
    let k : Keeping := if keeps then keep r.fd saved p else { process := p, saved }
    let kept := if keeps then k.process.remembering r.fd r.closes else p
    let refused (e : String) (machine : Machine) : Rerouted :=
      { process := kept, machine, saved := k.saved, failure := some e }
    if r.isIdle then rerouteAll keeps rest saved p m
    else
      match openedBy r p m, k.failure with
      | (.ok o, m), some e =>
        { refused e m with process := if r.copies then kept else kept.setFd p.freeFd o }
      | (.ok o, m), none =>
        if kept.allows r.fd || o.isNone then rerouteAll keeps rest k.saved (kept.setFd r.fd o) m
        else
          match r with
          | .copy _ (some source) => refused s!"{source}: Bad file descriptor" m
          | _ => rerouteAll keeps rest k.saved kept m
      | (.error e, machine), failure =>
        if r.copies then refused (failure.getD e) machine
        else { process := p, machine, saved, failure := some e }

end Machine
end LineShell
