import LineShell.Machine.Instance
import LineShell.Machine.Setup
import LineShell.Session

/-!
# Running the shell on a machine

The shell starts in the machine's directory and reads its standard input to the end. Each line has
at least one byte, so the length of the input bounds the number of lines.
-/

namespace LineShell
namespace Machine

/-- What the shell finds on a machine: its directory and the variables it was started with. -/
def environment (m : Machine) : Environment :=
  { cwd := m.workingDirectory
    home := m.settings.lookup "HOME"
    path := m.settings.lookup "PATH"
    historyFile := m.settings.lookup "HISTFILE" }

/-- Runs the shell with its arguments; gives its status. -/
def runShell (args : List String) (m : Machine) : Nat × Machine :=
  Session.main (m.readAhead.length + m.input.length + 1) args m.environment m

end Machine
end LineShell
