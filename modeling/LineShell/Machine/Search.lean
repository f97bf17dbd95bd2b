import LineShell.Machine.Load

/-!
# Where scripts look for commands

The variable `PATH` lists directories, with colons between them. Most of them hold programs. One
that is marked with `%func` holds files that define functions: the file of a name is read in when
the name is used for the first time. In place of one marked with `%builtin`, some of the script
interpreter's own commands take their turn; without such a mark they come before all directories.

A mark stands before the directory or after it. A percent sign with anything else after it is part
of the directory.

This is part of the script interpreter, which stands in for the programs of a real machine. No
general result about the shell rests on it.
-/

namespace LineShell
namespace Machine

open Script

/-- What is looked for in a directory. -/
inductive Holding where
  /-- Programs. -/
  | programs
  /-- Files that define functions. -/
  | functions
  /-- No files, but the script interpreter's own commands. -/
  | commands
  deriving DecidableEq, Repr

/-- A directory in which commands are looked for. -/
structure SearchEntry where
  /-- The directory; nothing stands for the one that the script works in. -/
  dir : Chars
  /-- What is looked for in it. -/
  holds : Holding := .programs
  deriving DecidableEq, Repr

/-- What a name was found to be. -/
inductive Hit where
  /-- A program in the directory of a number. -/
  | program (index : Nat)
  /-- A function, once the file of a path is read in. -/
  | function (path : Chars)
  /-- One of the script interpreter's own commands. -/
  | command
  deriving DecidableEq, Repr

/-- The path of a name in a directory; without a directory, the name itself. -/
def joinPath (dir name : Chars) : Chars :=
  if dir = [] then name else dir ++ '/' :: name

namespace SearchEntry

/-- The mark at the start of a text, and what follows it. -/
def mark? (cs : Chars) : Option (Holding × Chars) :=
  [("%builtin", Holding.commands), ("%func", .functions)].findSome? fun (mark, holds) =>
    if mark.toList.isPrefixOf cs then some (holds, cs.drop mark.length) else none

/-- The entry that a text spells. Another percent sign may stand between a mark and its
directory. -/
def ofChars (cs : Chars) : SearchEntry :=
  match mark? cs with
  | some (holds, '%' :: dir) => { dir, holds }
  | some (holds, dir) => { dir, holds }
  | none =>
    let dir := cs.takeWhile (· ≠ '%')
    match mark? (cs.drop dir.length) with
    | some (holds, _) => { dir, holds }
    | none => { dir := cs }

/-- The entries of a list with colons between them. -/
def listOf (cs : Chars) : List SearchEntry :=
  (cs.splitOn ':').map ofChars

/-- The directories of entries that hold programs. -/
def programDirs (entries : List SearchEntry) : List Chars :=
  (entries.filter (·.holds = .programs)).map (·.dir)

end SearchEntry

namespace Command

/-- Where commands are looked for. -/
def searchPath (p : Process) : List SearchEntry :=
  SearchEntry.listOf ((p.scope.value? "PATH").getD [])

/-- Where commands are looked for unless something else is said. -/
def standardPath : List SearchEntry :=
  SearchEntry.listOf defaultPath.toList

/-- The path of a name in the directory of a number. -/
def pathIn (entries : List SearchEntry) (index : Nat) (name : Chars) : Chars :=
  joinPath (((entries[index]?).map (·.dir)).getD []) name

/-- The names of the commands of the script interpreter that may have to wait for their turn. -/
def patient : List String :=
  ["[", "chdir", "echo", "printf", "test"]

/-- Whether those commands have to wait: another entry stands before the one that is for them, and
theirs starts with its mark. -/
def mustWait (p : Process) : Bool :=
  let entries := ((p.scope.value? "PATH").getD []).splitOn ':'
  match entries.findIdx? ("%builtin".toList.isPrefixOf ·) with
  | some index => 0 < index
  | none => false

/-- Whether a name is one of the script interpreter's own commands, wherever programs are looked
for. -/
def comesFirst (name : String) (p : Process) : Bool :=
  !(patient.contains name && mustWait p)

/-- Whether a program was found in a directory before and need not be looked for there again. -/
def isKnown (before : Option Found) (dir : Chars) (index : Nat) : Bool :=
  match before with
  | none => false
  | some f => f.index == index && dir.head? == some '/'

/-- Whether a program was not found in a directory before and need not be looked for there again. -/
def isPassed (before : Option Found) (dir : Chars) (index : Nat) : Bool :=
  match before with
  | none => false
  | some f => index < f.index && dir.head? == some '/'

/-- What there is to find in a directory. -/
inductive Glance where
  /-- What is looked for. -/
  | hit (h : Hit)
  /-- Nothing; the reason, if it is worth telling. -/
  | miss (e : Option OsError)

/-- Looks for a name in the directory of a number; tells whether functions count. -/
def glance (p : Process) (m : Machine) (functions : Bool) (name : Chars) (before : Option Found)
    (entry : SearchEntry) (index : Nat) : Glance :=
  let path := joinPath entry.dir name
  if entry.holds = .commands then
    if patient.contains (Chars.text name) then .hit .command else .miss none
  else if entry.holds = .functions ∧ !functions then .miss none
  else if isKnown before entry.dir index then .hit (.program index)
  else if isPassed before entry.dir index then .miss none
  else
    match m.disk.find? p.dir (Chars.path path), entry.holds with
    | .error e, _ => .miss (if e = .noEntry ∨ e = .notDirectory then none else some e)
    | .ok (_, node), .functions =>
      match node with
      | .file _ _ => .hit (.function path)
      | _ => .miss (some .noAccess)
    | .ok (_, node), _ =>
      if Disk.kindOf node = .file true then .hit (.program index) else .miss (some .noAccess)

/-- Looks for a name in directories, which are numbered from `index` on; the error is the one from
the directories before. -/
def searchIn (p : Process) (m : Machine) (functions : Bool) (name : Chars)
    (before : Option Found) : List SearchEntry → Nat → OsError → Except OsError Hit
  | [], _, e => .error e
  | entry :: rest, index, e =>
    match glance p m functions name before entry index with
    | .hit h => .ok h
    | .miss e' => searchIn p m functions name before rest (index + 1) (e'.getD e)

/-- Looks for a name that is no function yet, and remembers where a program was found. A program of
the name of a function is not remembered. -/
def locate (functions : Bool) (name : Chars) (p : Process) (m : Machine) :
    Except OsError Hit × Process :=
  let s := Chars.text name
  let before := p.scope.programs.lookup s
  match before.filter fun f => !f.stale with
  | some f => (.ok (.program f.index), p)
  | none =>
    let found := searchIn p m functions name before (searchPath p) 0 .noEntry
    let programs := match found, p.scope.functions.lookup s with
      | .ok (.program index), none => Scope.setIn s { index } p.scope.programs
      | _, _ => p.scope.programs.filter (·.1 ≠ s)
    (found, { p with scope := { p.scope with programs } })

/-- Why a program cannot be executed, in the words of a script. -/
def execFailure (name : Chars) (e : OsError) : String :=
  let reason := if e = .noEntry ∨ e = .notDirectory then "not found" else e.reason
  Chars.text name ++ ": " ++ reason

/-- The status of a script that cannot execute a program. -/
def execStatus (e : OsError) : Nat :=
  if e = .noEntry ∨ e = .notDirectory ∨ e = .tooManyLinks ∨ e = .nameTooLong then 127 else 126

end Command
end Machine
end LineShell
