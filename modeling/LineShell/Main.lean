import LineShell.Machine.Run

/-!
# The command line

Runs the shell over standard input. The session works on a disk in memory that holds the startup
file and the history file; at its end the history file is written back.
-/

namespace LineShell
namespace Main

/-- All that a stream still holds. -/
partial def readAll (stream : IO.FS.Stream) (soFar : ByteArray) : IO ByteArray := do
  let block ← stream.read 65536
  if block.isEmpty then return soFar else readAll stream (soFar ++ block)

/-- What a file holds, if it can be read. -/
def contentOf (path : String) : IO (Option Bytes) := do
  try
    return some (← IO.FS.readBinFile path).data.toList
  catch _ => return none

/-- The disk with a copy of a file, if the file can be read. -/
def copyIn (cwd : Location) (path : String) (d : Disk) : IO Disk := do
  match ← contentOf path with
  | none => return d
  | some content => return d.install cwd path (.file content {})

/-- Writes a file back from the disk. -/
def copyOut (m : Machine) (path : String) : IO Unit := do
  match m.disk.read m.cwd path with
  | .error _ => return
  | .ok content => IO.FS.writeBinFile path ⟨content.toArray⟩

/-- Runs the shell with its arguments. -/
def run (args : List String) : IO UInt32 := do
  let cwd := (← IO.currentDir).toString
  let home ← IO.getEnv "HOME"
  let path ← IO.getEnv "PATH"
  let historyFile ← IO.getEnv "HISTFILE"
  let stdin ← IO.getStdin
  let input ← readAll stdin ByteArray.empty
  let cfg := Startup.ofSettings home (({} : Options).parse args).1.config historyFile
  let place := Walk.names cwd
  let mut disk := Disk.base.withDirectories [] place
  for dir in home.toList do
    disk := disk.installDirectory place dir
  for file in cfg.file.toList ++ cfg.historyFile.toList do
    disk ← copyIn place file disk
  let settings := [("HOME", home), ("PATH", path), ("HISTFILE", historyFile)].filterMap
    fun (name, value) => value.map (name, ·)
  let m := Machine.ofDisk disk cwd settings input.data.toList
  let (status, m) := m.runShell args
  let stdout ← IO.getStdout
  let stderr ← IO.getStderr
  stdout.write ⟨m.output.toArray⟩
  stderr.write ⟨m.errors.toArray⟩
  for file in cfg.historyFile.toList do
    copyOut m file
  return status.toUInt32

end Main
end LineShell

/-- Runs the shell. -/
def main (args : List String) : IO UInt32 :=
  LineShell.Main.run args
