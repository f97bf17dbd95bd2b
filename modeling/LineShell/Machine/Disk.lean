import LineShell.Text.Bytes

/-!
# Disks

A disk is a table that tells what is stored at a location; a location is the list of names that
lead to it from the root. The root is always a directory. Nothing is ever removed.

A file can be marked as executable, but nobody can be kept from reading or writing what is stored.
And a device gives nothing when it is read, also the one that has no room, which gives zeros without
end on a real machine. So disks are good for running the shell. What is said of the contents of
files in general is said of all machines, by laws that a path may follow there (`Host.Stores`).

What `put` stores is what `get?` finds there, and nothing else changes (`get?_put_self`,
`get?_put_of_ne`).
-/

namespace LineShell

/-- A place on a disk: the names that lead to it from the root. -/
abbrev Location := List String

/-- Files that store nothing. -/
inductive Device where
  /-- Takes everything. -/
  | null
  /-- Has no room for anything. -/
  | full
  deriving DecidableEq, Repr

/-- What may be done with a file, as far as that differs from file to file. -/
structure FileMode where
  /-- Whether anybody may execute it. -/
  executable : Bool := false
  /-- Whether it is executed in the name of its owner. -/
  setsUser : Bool := false
  /-- Whether it is executed in the name of its group. -/
  setsGroup : Bool := false
  /-- Whether it is marked as sticky. -/
  sticky : Bool := false
  deriving DecidableEq, Repr

/-- What can be stored at a location. -/
inductive Node where
  /-- A regular file. -/
  | file (content : Bytes) (mode : FileMode)
  /-- A directory. -/
  | directory
  /-- A symbolic link. -/
  | link (target : String)
  /-- A device. -/
  | device (d : Device)
  /-- The program that runs scripts. -/
  | interpreter
  deriving DecidableEq, Repr

/-- What is stored where. -/
structure Disk where
  /-- The nodes with their locations, the oldest first. -/
  nodes : List (Location × Node) := []
  /-- When nodes were last changed, the latest change first. The others have always been there. -/
  changed : List (Location × Nat) := []
  /-- What time it is. -/
  now : Nat := 1
  deriving DecidableEq, Repr

namespace Disk

/-- What is stored at a location. -/
def get? (d : Disk) (place : Location) : Option Node :=
  if place = [] then some .directory else d.nodes.lookup place

/-- A table with one entry set. -/
def setIn (place : Location) (node : Node) : List (Location × Node) → List (Location × Node)
  | [] => [(place, node)]
  | (l, n) :: rest => if l = place then (l, node) :: rest else (l, n) :: setIn place node rest

/-- When what is stored at a location was last changed. -/
def time (d : Disk) (place : Location) : Nat :=
  (d.changed.lookup place).getD 0

/-- Notes that what is stored at a location has just changed. -/
def stamp (d : Disk) (place : Location) : Disk :=
  { d with changed := (place, d.now) :: d.changed.filter (·.1 ≠ place) }

/-- Some time passes. -/
def tick (d : Disk) : Disk :=
  { d with now := d.now + 1 }

/-- Stores something at a location, in the place of what was there. A directory changes when
something new is stored in it. -/
def put (d : Disk) (place : Location) (node : Node) : Disk :=
  let d := if (d.get? place).isSome then d else d.stamp place.dropLast
  { d.stamp place with nodes := setIn place node d.nodes }

/-- Whether a directory is stored at a location. -/
def isDirectory (d : Disk) (place : Location) : Bool :=
  d.get? place == some .directory

/-- The names in a directory. -/
def names (d : Disk) (dir : Location) : List String :=
  d.nodes.filterMap fun (l, _) => if l.dropLast = dir then l.getLast? else none

/-- The disk with directories along the names from a location, as far as there is nothing yet. -/
def withDirectories (above : Location) : List String → Disk → Disk
  | [], d => d
  | name :: rest, d =>
    let here := above ++ [name]
    withDirectories here rest (if (d.get? here).isSome then d else d.put here .directory)

/-- A disk that holds the usual directories, the two devices and the script interpreter. -/
def base : Disk :=
  let dirs := [["bin"], ["dev"], ["etc"], ["home"], ["root"], ["tmp"], ["usr"], ["usr", "bin"]]
  let rest := [(["bin", "sh"], Node.interpreter), (["dev", "null"], .device .null),
    (["dev", "full"], .device .full)]
  { nodes := dirs.map (·, .directory) ++ rest }

/-- The entry that was set is found. -/
theorem lookup_setIn_self (place : Location) (node : Node) (l : List (Location × Node)) :
    (setIn place node l).lookup place = some node := by
  induction l with
  | nil => simp [setIn]
  | cons e rest ih =>
    obtain ⟨k, n⟩ := e
    by_cases h : k = place
    · simp [setIn, h]
    · have : (place == k) = false := by simpa using fun h' => h h'.symm
      simp [setIn, h, List.lookup_cons, this, ih]

/-- Setting an entry leaves the others alone. -/
theorem lookup_setIn_of_ne {place other : Location} (node : Node) (h : other ≠ place)
    (l : List (Location × Node)) : (setIn place node l).lookup other = l.lookup other := by
  induction l with
  | nil =>
    have : (other == place) = false := by simpa using h
    simp [setIn, List.lookup_cons, this]
  | cons e rest ih =>
    obtain ⟨k, n⟩ := e
    by_cases hk : k = place
    · subst hk
      have : (other == k) = false := by simpa using h
      simp [setIn, List.lookup_cons, this]
    · by_cases ho : other = k
      · simp [setIn, hk, ho]
      · have : (other == k) = false := by simpa using ho
        simp [setIn, hk, List.lookup_cons, this, ih]

/-- What was stored is found. -/
@[simp] theorem get?_put_self (d : Disk) {place : Location} (node : Node) (h : place ≠ []) :
    (d.put place node).get? place = some node := by
  simp [get?, put, h, stamp, lookup_setIn_self]

/-- Storing something changes nothing elsewhere. -/
theorem get?_put_of_ne (d : Disk) {place other : Location} (node : Node) (h : other ≠ place) :
    (d.put place node).get? other = d.get? other := by
  simp [get?, put, stamp, apply_ite Disk.nodes, lookup_setIn_of_ne node h]

end Disk
end LineShell
