import LineShell.Failure
import LineShell.History
import LineShell.Host

/-!
# History files

A history file holds one entry per line. Reading one adds its lines to the history, blank ones
apart; a file that is not text adds nothing. Writing and appending mark every entry as saved, but
only when they succeed.

Each of these works on the history that the shell goes on with, so it gives back the history beside
its answer, whether it succeeds or not.
-/

namespace LineShell
namespace History

/-- The entries that a file holds. -/
def ofBytes? (b : Bytes) : Option (List String) :=
  (b.lines.mapM fun l => Bytes.text? l.chomp).map fun ls => ls.filter fun l => !Text.blank l

/-- The bytes of a file with the given entries. -/
def toBytes (entries : List String) : Bytes :=
  (entries.map Bytes.ofLine).flatten

variable {σ : Type} [Host σ]

/-- The entries in a file. -/
def entriesIn (s : σ) (path : String) : Except FileError (List String) :=
  match Host.read s path with
  | .error e => .error ⟨path, e⟩
  | .ok b =>
    match ofBytes? b with
    | none => .error ⟨path, .notText⟩
    | some entries => .ok entries

/-- Adds the entries of a file to the history, and tells how many they are. -/
def readFrom (h : History) (s : σ) (path : String) : Except FileError Nat × History :=
  match entriesIn s path with
  | .error e => (.error e, h)
  | .ok l => (.ok l.length, { h with entries := h.entries ++ l })

/-- The same, and then every entry is marked as saved: a session starts from its history file so. -/
def load (h : History) (s : σ) (path : String) : Except FileError Nat × History :=
  match h.readFrom s path with
  | (.error e, h) => (.error e, h)
  | (.ok n, h) => (.ok n, h.markSaved)

/-- Opens a file and writes entries to it. -/
def writeEntries (path : String) (mode : WriteMode) (entries : List String) (s : σ) :
    Except FileError Unit × σ :=
  match Host.create path mode s with
  | (.error e, s) => (.error ⟨path, e⟩, s)
  | (.ok file, s) =>
    match Host.write file (toBytes entries) s with
    | (.error e, s) => (.error ⟨path, e⟩, s)
    | (.ok _, s) => (.ok (), s)

/-- Replaces what a file holds by the whole history. -/
def writeTo (h : History) (path : String) (s : σ) : Except FileError Unit × History × σ :=
  match writeEntries path .truncate h.entries s with
  | (.error e, s) => (.error e, h, s)
  | (.ok _, s) => (.ok (), h.markSaved, s)

/-- Adds the entries that have not been saved to a file. -/
def appendTo (h : History) (path : String) (s : σ) : Except FileError Unit × History × σ :=
  match writeEntries path .append h.unsaved s with
  | (.error e, s) => (.error e, h, s)
  | (.ok _, s) => (.ok (), h.markSaved, s)

end History
end LineShell
