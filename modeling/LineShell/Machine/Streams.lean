import LineShell.Machine.Basic

/-!
# Reading and writing

What is open can be read from or written to. A pipe holds a number of pages; when they are in use,
who writes to it has to wait. When it holds nothing, who reads from it has to wait, as long as
somebody may write to it.
-/

namespace LineShell
namespace PipeState

/-- How large a page is. -/
def pageSize : Nat := 4096

/-- How many pages a pipe has. -/
def maxPages : Nat := 16

/-- New pages for bytes, as many as there are left; gives the bytes for which there is none. -/
def fill : Nat → Bytes → List Page × Bytes
  | 0, b => ([], b)
  | _, [] => ([], [])
  | n + 1, b =>
    let size := min pageSize b.length
    let (pages, left) := fill n (b.drop pageSize)
    ({ used := size, left := size } :: pages, left)

/-- Writes bytes as far as there is room; gives those that are left. What does not fill a page goes
to the last page that is there, if all of it has room there. -/
def write (p : PipeState) (b : Bytes) : Bytes × PipeState :=
  let odd := b.length % pageSize
  let (pages, rest) : List Page × Bytes := match p.pages.getLast? with
    | some last =>
      if odd ≠ 0 ∧ last.used + odd ≤ pageSize then
        (p.pages.dropLast ++ [⟨last.used + odd, last.left + odd⟩], b.drop odd)
      else (p.pages, b)
    | none => ([], b)
  let (more, left) := fill (maxPages - pages.length) rest
  (left, { p with content := p.content ++ b.take (b.length - left.length), pages := pages ++ more })

/-- The pages after a number of bytes has been read. -/
def dropPages : Nat → List Page → List Page
  | _, [] => []
  | n, page :: rest =>
    if n < page.left then { page with left := page.left - n } :: rest
    else dropPages (n - page.left) rest

/-- Reads a number of bytes; gives the pipe with those that are left. -/
def drop (p : PipeState) (n : Nat) (left : Bytes) : PipeState :=
  { p with content := left, pages := dropPages n p.pages }

end PipeState

namespace Machine

open Script

/-- Puts something among what is open; gives its number. -/
def opening (o : Opened) (m : Machine) : Nat × Machine :=
  (m.opened.length, { m with opened := m.opened ++ [o] })

/-- Opens a file for writing, as seen from a directory. -/
def openFile (dir : Location) (path : String) (mode : WriteMode) (m : Machine) :
    Except OsError Nat × Machine :=
  match m.disk.create dir path mode with
  | (.error e, disk) => (.error e, { m with disk })
  | (.ok place, disk) =>
    let (id, m) := opening (.file { place, append := mode = .append, readable := false })
      { m with disk }
    (.ok id, m)

/-- Writes to an open file. -/
def writeFile (id : Nat) (b : Bytes) (m : Machine) : Except OsError Unit × Machine :=
  match m.opened[id]? with
  | some (.file f) =>
    match f.write b m.disk with
    | (.error e, disk) => (.error e, { m with disk })
    | (.ok f, disk) => (.ok (), { m with disk, opened := m.opened.set id (.file f) })
  | _ => (.ok (), m)

/-- Makes a pipe that holds some bytes. -/
def addPipe (p : PipeState) (m : Machine) : Nat × Machine :=
  (m.pipes.length, { m with pipes := m.pipes ++ [p] })

/-- Changes a pipe. -/
def changePipe (id : Nat) (f : PipeState → PipeState) (m : Machine) : Machine :=
  { m with pipes := m.pipes.modify id f }

/-- Whether a process has something open that has a property. -/
def holds (property : Opened → Bool) (m : Machine) : Bool :=
  m.processes.any fun p => p.alive && p.fds.any fun (_, id) =>
    match m.opened[id]? with
    | some o => property o
    | none => false

/-- Whether a pipe may still be written to. -/
def hasWriter (pipe : Nat) (m : Machine) : Bool :=
  m.holds (· == .writer pipe)

/-- Whether a pipe may still be read from. -/
def hasReader (pipe : Nat) (m : Machine) : Bool :=
  (match m.pipes[pipe]? with
    | some p => p.held
    | none => false) || m.holds (· == .reader pipe)

/-- Whether somebody may write to the file at a location. -/
def isWritten (place : Location) (m : Machine) : Bool :=
  m.holds fun
    | .file f => f.writable && f.place = place
    | _ => false

/-- What becomes of an attempt to write. -/
inductive Written where
  /-- It was written up to what is left, which has to wait. -/
  | wrote (left : Bytes)
  /-- It failed, and who has tried it gets a signal. -/
  | signalled (n : Nat)
  /-- It failed. -/
  | failed
  deriving DecidableEq, Repr

/-- How many bytes a file may take more, if not all there are; none if there is no limit. -/
def roomIn (limit : Option Nat) (f : OpenFile) (d : Disk) : Option Nat :=
  match d.get? f.place with
  | some (.file content _) =>
    limit.map fun n => n - if f.append then content.length else f.offset
  | _ => none

/-- Writes to something that is open, for somebody who may make files only so large. -/
def writeTo (limit : Option Nat) (id : Nat) (b : Bytes) (m : Machine) : Written × Machine :=
  match m.opened[id]? with
  | some .output => (.wrote [], { m with output := m.output ++ b })
  | some .error => (.wrote [], { m with errors := m.errors ++ b })
  | some (.file f) =>
    let room := (roomIn limit f m.disk).getD b.length
    if !f.writable then (.failed, m)
    else if room = 0 ∧ b ≠ [] then (.signalled Signal.fileSize, m)
    else
      match m.writeFile id (b.take room) with
      | (.ok _, m) => (.wrote (b.drop room), m)
      | (.error _, m) => (.failed, m)
  | some (.writer pipe) =>
    match m.pipes[pipe]? with
    | none => (.failed, m)
    | some p =>
      if b = [] then (.wrote [], m)
      else if !m.hasReader pipe then (.signalled Signal.pipe, m)
      else
        let (left, p) := p.write b
        (.wrote left, m.changePipe pipe fun _ => p)
  | _ => (.failed, m)

/-- The bytes up to and including the first line feed, and the rest. -/
def cutLine (b : Bytes) : Bytes × Bytes :=
  match b.span (· ≠ Bytes.lineFeed) with
  | (line, []) => (line, [])
  | (line, feed :: rest) => (line ++ [feed], rest)

/-- Takes bytes from something that is open; `cut` tells how many of those that are there. The
second component tells whether more may come. None if it cannot be read. -/
def take (cut : Bytes → Bytes × Bytes) (id : Nat) (m : Machine) :
    Option (Bytes × Bool) × Machine :=
  match m.opened[id]? with
  | some .input =>
    let (b, rest) := cut m.input
    (some (b, false), { m with input := rest })
  | some (.file f) =>
    match f.left m.disk with
    | .error _ => (none, m)
    | .ok left =>
      let (b, _) := cut left
      let f := { f with offset := f.offset + b.length }
      (some (b, false), { m with opened := m.opened.set id (.file f) })
  | some (.reader pipe) =>
    match m.pipes[pipe]? with
    | none => (none, m)
    | some p =>
      let (b, rest) := cut p.content
      (some (b, m.hasWriter pipe), m.changePipe pipe (·.drop b.length rest))
  | _ => (none, m)

/-- Writes to something that is open for a process, as far as that can be done; a pipe takes as much
as is needed. -/
def forceTo (p : Process) (id : Nat) (b : Bytes) (m : Machine) : Machine :=
  let raising (n : Nat) (m : Machine) : Machine := { m with raised := n :: m.raised }
  match m.writeTo (p.limit 'f') id b, m.opened[id]? with
  | (.wrote left, m), some (.writer pipe) =>
    m.changePipe pipe fun p => { p with content := p.content ++ left }
  | (.wrote (_ :: _), m), _ => raising Signal.fileSize m
  | (.signalled n, m), _ => raising n m
  | (_, m), _ => m

/-- Puts bytes on the standard error of a process, if they can be put there. -/
def complain (p : Process) (b : Bytes) (m : Machine) : Machine :=
  match p.fd? 2 with
  | none => m
  | some id => m.forceTo p id b

/-- A message of a process, after the names of the script, the line and the command. -/
def messageOf (p : Process) (message : String) : Bytes :=
  let command := match p.command with
    | none => ""
    | some name => name ++ ": "
  Bytes.ofChars (p.scope.name ++ s!": {p.line}: {command}".toList) ++ Bytes.ofMessage message

/-- Puts a message on the standard error of a process. -/
def warn (p : Process) (message : String) (m : Machine) : Machine :=
  m.complain p (messageOf p message)

/-- Says something at once. -/
def say (p : Process) (s : Said) (m : Machine) : Machine :=
  match s, p.fd? 1 with
  | .complaint message, _ => m.warn p message
  | .text t, some id => m.forceTo p id (Bytes.ofChars t)
  | .text _, none => m

/-- Where a location is, as text. -/
def pathOf (l : Location) : String :=
  "/" ++ "/".intercalate l

end Machine
end LineShell
