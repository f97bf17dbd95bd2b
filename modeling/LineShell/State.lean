import LineShell.History
import LineShell.SearchPath

/-!
# The state of the shell

Between two lines the shell remembers its working directory and its history. Where home is and
where programs are looked up is settled when it starts.
-/

namespace LineShell

/-- What the shell remembers between lines. -/
structure State where
  /-- The working directory. -/
  cwd : String
  /-- The home directory, if it is known. -/
  home : Option String
  /-- Where programs are looked up. -/
  searchPath : SearchPath
  /-- The lines entered so far. -/
  history : History := {}
  deriving DecidableEq, Repr

namespace State

/-- A path as seen from the working directory, folded and with its tilde expanded. -/
def resolve (st : State) (p : String) : Except Path.HomeError String :=
  Path.resolve st.home st.cwd p

end State
end LineShell
