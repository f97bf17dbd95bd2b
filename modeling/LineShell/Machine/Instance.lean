import LineShell.Machine.Start

/-!
# The services of a machine

A machine serves the shell: files are on its disk, and programs are its processes. Processes run
while the shell waits for one of them. A process may leave others behind when it ends; nobody waits
for those, but they get some time.

The shell reads its standard input in blocks, so a program that reads it too finds only what is
after the block the shell has read last.
-/

namespace LineShell
namespace Machine

/-- How much the shell reads of its standard input at once. -/
def blockSize : Nat := 8192

/-- How many rounds a process may take to end. -/
def maxRounds : Nat := 100000000

/-- How many rounds more are taken for processes that nobody waits for. -/
def spareRounds : Nat := 200

/-- Runs the machine until a process has ended and those that it has left behind have too. -/
def waitFor (id : Nat) (m : Machine) : Machine :=
  runWhile hasOrphans spareRounds (runWhile (isAlive id) maxRounds m)

/-- The next line of the shell's standard input; the number bounds how many blocks are read. -/
def readLine : Nat → Machine → Bytes × Machine
  | 0, m => ([], m)
  | n + 1, m =>
    let (line, rest) := cutLine m.readAhead
    if line.getLast? = some Bytes.lineFeed then (line, { m with readAhead := rest })
    else
      match m.input with
      | [] => (line, { m with readAhead := rest })
      | input =>
        let m := { m with readAhead := input.take blockSize, input := input.drop blockSize }
        let (more, m) := readLine n m
        (line ++ more, m)

/-- The next line of the shell's standard input, if there is one. -/
def nextLine (m : Machine) : Option Bytes × Machine :=
  match readLine (m.input.length + 2) m with
  | ([], m) => (none, m)
  | (line, m) => (some line, m)

/-- A machine serves the shell. -/
instance : Host Machine where
  kind? m path := m.disk.kind? m.cwd path
  entries? m path := m.disk.entries? m.cwd path
  read m path := m.disk.read m.cwd path
  makeDirs path m :=
    let (result, disk) := m.disk.makeDirs m.cwd path
    (result, { m with disk })
  create path mode m :=
    match m.openFile m.cwd path mode with
    | (.error e, m) => (.error e, m)
    | (.ok id, m) => (.ok ⟨id⟩, m)
  write h b m := m.writeFile h.id b
  print b m := (.ok (), { m with output := m.output ++ b })
  complain b m := { m with errors := m.errors ++ b }
  start := start
  hangUp p m := m.letGo p.id
  wait c m := (.ok (), m.waitFor c.id)
  nextLine := nextLine

end Machine
end LineShell
