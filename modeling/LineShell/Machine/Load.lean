import LineShell.Machine.Streams

/-!
# Loading programs

A program is a file that may be executed and whose first line names its interpreter after the two
characters `#!`. Only the first 256 bytes of the file are looked at: the interpreter's name has to
end within them, but the argument after it may be cut short. The interpreter may be such a file
itself, a few times over; in the end it has to be the script interpreter. A file without that line
is not a program, and a file that somebody may write to cannot be executed.

The script interpreter takes options, then a script and the script's arguments.

This is part of the script interpreter, which stands in for the programs of a real machine. No
general result about the shell rests on it.
-/

namespace LineShell
namespace Machine

open Script

/-- Whether a byte separates the parts of a first line. -/
def isBlankByte (b : UInt8) : Bool :=
  b == 32 || b == 9

/-- Whether a byte ends the name of an interpreter. -/
def endsName (b : UInt8) : Bool :=
  isBlankByte b || b == 0

/-- How many bytes of a file are looked at. -/
def headSize : Nat := 256

/-- The first line of a file, after its first two bytes and without blanks around it. A line that is
not at its end within the head counts if it goes on after the interpreter's name. -/
def firstLine? (content : Bytes) : Option Bytes :=
  let head := ((content.take headSize).rightpad headSize 0).drop 2
  let text := head.takeWhile fun b => b ≠ Bytes.lineFeed ∧ b ≠ 0
  let line :=
    if (head.drop text.length).head? = some Bytes.lineFeed then some text
    else if (head.dropWhile isBlankByte).any endsName then some head.dropLast
    else none
  line.map fun l => ((l.dropWhile isBlankByte).reverse.dropWhile isBlankByte).reverse

/-- The interpreter that a file's first line names, and the argument that may follow it. -/
def interpreter? (content : Bytes) : Option (Bytes × Option Bytes) :=
  match content with
  | 35 :: 33 :: _ =>
    match firstLine? content with
    | none => none
    | some line =>
      let name := line.takeWhile fun b => !endsName b
      let rest := line.drop name.length
      let argument := (rest.dropWhile isBlankByte).takeWhile (· ≠ 0)
      if line = [] then none
      else some (name, if rest = [] ∨ rest.head? = some 0 then none else some argument)
  | _ => none

/-- How many files may stand for one another before the script interpreter. -/
def maxInterpreters : Nat := 6

/-- The arguments that the script interpreter gets for a program that is called by a name with
arguments; its own name is the first of them. -/
def invocation : Nat → Machine → Location → String → Chars → List Chars →
    Except OsError (List Chars)
  | n, m, dir, program, name, args =>
    match m.disk.find? dir program with
    | .error e => .error e
    | .ok (_, .interpreter) => if n = 0 then .error .tooManyLinks else .ok (name :: args)
    | .ok (place, .file content mode) =>
      if !mode.executable then .error .noAccess
      else if m.isWritten place then .error .textBusy
      else
        match n with
        | 0 => .error .tooManyLinks
        | n + 1 =>
          match interpreter? content with
          | none => .error .notExecutable
          | some (interpreter, argument) =>
            let interpreter := interpreter.chars
            invocation n m dir (Chars.path interpreter) interpreter
              (argument.toList.map Bytes.chars ++ [Chars.ofText program] ++ args)
    | .ok _ => .error .noAccess

/-- The script that the script interpreter is to run, as its arguments tell it. -/
inductive Task where
  /-- The commands in an argument. -/
  | argument (text : Chars)
  /-- The commands in a file. -/
  | file (path : Chars)
  /-- The commands on standard input. -/
  | input
  deriving DecidableEq, Repr

/-- What the arguments of the script interpreter ask for. -/
structure Request where
  /-- What the script knows at its start. -/
  scope : Scope
  /-- The task. -/
  task : Task
  /-- What is printed first. -/
  shown : Chars
  /-- Whether jobs are to be controlled from the keyboard. -/
  controlsJobs : Bool

/-- How far the options of the script interpreter have been read. -/
structure OptionsRead where
  /-- What the script knows. -/
  scope : Scope
  /-- Whether commands follow in an argument. -/
  commands : Bool := false
  /-- What is printed. -/
  shown : Chars := []
  /-- Whether jobs are to be controlled from the keyboard, if that was said. -/
  controlsJobs : Option Bool := none

namespace OptionsRead

/-- Switches an option on or off, by its letter. -/
def switch (c : Char) (on : Bool) (r : OptionsRead) : Except String OptionsRead := do
  let scope ← r.scope.setOption c on
  return { r with scope, controlsJobs := if c = 'm' then some on else r.controlsJobs }

/-- Switches an option on or off, by its name. -/
def switchNamed (name : String) (on : Bool) (r : OptionsRead) : Except String OptionsRead := do
  let scope ← r.scope.setNamedOption name on
  return { r with scope, controlsJobs := if name = "monitor" then some on else r.controlsJobs }

/-- What is asked for, once the task and the arguments are known. Unless something is said about
jobs, they are to be controlled if somebody is asked for commands. -/
def request (r : OptionsRead) (task : Task) (scope : Scope) : Request :=
  { scope, task, shown := r.shown, controlsJobs := r.controlsJobs.getD (scope.isOn 'i') }

end OptionsRead

/-- Switches the options in one argument on or off; gives what is left of the arguments. While the
options are read, all of them count as on in lists. -/
def letters (on : Bool) : Chars → List Chars → OptionsRead →
    Except String (List Chars × OptionsRead)
  | [], rest, r => .ok (rest, r)
  | 'c' :: cs, rest, r => letters on cs rest { r with commands := true }
  | 'l' :: cs, rest, r => letters on cs rest r
  | 'o' :: cs, [], r =>
    letters on cs [] { r with shown := r.shown ++ Scope.optionTable (!on) fun _ => true }
  | 'o' :: cs, name :: rest, r => do
    letters on cs rest (← r.switchNamed name.text on)
  | c :: cs, rest, r => do letters on cs rest (← r.switch c on)

/-- Switches options on or off as long as arguments ask for it; the number bounds how many. -/
def interpreterOptions : Nat → List Chars → OptionsRead →
    Except String (List Chars × OptionsRead)
  | 0, args, r => .ok (args, r)
  | _, [], r => .ok ([], r)
  | n + 1, arg :: rest, r =>
    match arg with
    | ['-'] => .ok (rest, r)
    | ['-', '-'] => .ok (rest, r)
    | '-' :: cs => do
      let (rest, r) ← letters true cs rest r
      interpreterOptions n rest r
    | '+' :: cs => do
      let (rest, r) ← letters false cs rest r
      interpreterOptions n rest r
    | _ => .ok (arg :: rest, r)

/-- What the arguments of the script interpreter ask for, or a message. -/
def request (args : List Chars) (sc : Scope) : Except String Request :=
  match interpreterOptions (args.length + 1) args { scope := sc } with
  | .error e => .error e
  | .ok ([], r) =>
    if r.commands then .error "-c requires an argument"
    else do return r.request .input (← r.scope.setOption 's' true)
  | .ok (first :: rest, r) =>
    let sc := r.scope
    if r.commands then
      .ok (r.request (.argument first) { sc with name := rest.headD sc.name, args := rest.tail })
    else if sc.isOn 's' then .ok (r.request .input { sc with args := first :: rest })
    else .ok (r.request (.file first) { sc with args := rest })

/-- The directories in which programs are looked for unless others are given. -/
def defaultPath : String :=
  "/usr/local/sbin:/usr/local/bin:/usr/sbin:/usr/bin:/sbin:/bin"

/-- The variables of a script at its start, given those it was passed. -/
def firstBindings (environment : List (String × Chars)) (path : Chars) (parent : Nat) :
    List (String × Variable) :=
  let own (name value : String) : String × Variable := (name, { value := some value.toList })
  let passed := (environment.filter fun (name, _) => isName name.toList).map fun (name, value) =>
    (name, ({ value := some value, exported := true } : Variable))
  let fixed := [own "IFS" " \t\n", own "OPTIND" "1", own "PPID" (toString parent)]
  let presets := [own "PATH" defaultPath, own "PS1" "# ", own "PS2" "> ", own "PS4" "+ "]
  let start := (fixed ++ [("PWD", { value := some path, exported := true })])
  let passed := passed.filter fun (name, _) => !(start.map (·.1)).contains name
  start ++ passed ++ presets.filter fun (name, _) => !(passed.map (·.1)).contains name

/-- The path by which a process is where it is: the one it was told, if that leads there. -/
def pathFrom (environment : List (String × Chars)) (dir : Location) (m : Machine) : Chars :=
  let actual := Chars.ofText (pathOf dir)
  match environment.lookup "PWD" with
  | some ('/' :: rest) =>
    match m.disk.find? [] (Chars.path ('/' :: rest)) with
    | .ok (place, _) => if place = dir then '/' :: rest else actual
    | .error _ => actual
  | _ => actual

/-- The number by which scripts know a process. -/
def processNumber (id : Nat) : Nat :=
  id + 1000

/-- The number by which scripts know the process that started theirs. -/
def parentNumber : Option Nat → Nat
  | some id => processNumber id
  | none => 999

/-- Why a file could not be opened, in the words of a script. -/
def openFailure (making : Bool) (path : Chars) (e : OsError) : String :=
  let reason :=
    if e = .noEntry ∨ e = .notDirectory then
      if making then "Directory nonexistent" else "No such file"
    else e.reason
  let name := path.text
  if making then s!"cannot create {name}: {reason}" else s!"cannot open {name}: {reason}"

/-- Opens a file for reading. -/
def openToRead (dir : Location) (path : Chars) (m : Machine) : Except OsError Nat × Machine :=
  match m.disk.find? dir path.path with
  | .error e => (.error e, m)
  | .ok (place, _) =>
    let (id, m) := m.opening (.file { place, writable := false })
    (.ok id, m)

/-- Opens a script to be read by a process. In the end its descriptor is one of the process's
own. -/
def openScript (path : Chars) (p : Process) (m : Machine) : Except String CommandText × Machine :=
  let fd := p.freeFd
  if !p.allows fd then (.error (openFailure false path .tooManyFiles), m)
  else
    match openToRead p.dir path m, p.ownFd with
    | (.error e, m), _ => (.error (openFailure false path e), m)
    | (.ok _, m), .error e => (.error (toString fd ++ ": " ++ e.reason), m)
    | (.ok source, m), .ok own => (.ok { text := [], source := some source, fd := some own }, m)

/-- What is said if the script interpreter cannot open what it needs before all else. -/
def loaderMessage (name : Chars) : Bytes :=
  Bytes.ofChars name ++ Bytes.ofMessage (": error while loading shared libraries: libc.so.6: " ++
    "cannot open shared object file: Error 24")

/-- What is said if jobs cannot be controlled from the keyboard, since there is none. -/
def noTerminal : String :=
  "can't access tty; job control turned off"

/-- How many turns it takes to load a program. -/
def loadingTurns : Nat := 2

/-- A process becomes the script interpreter with arguments, the first of which is its name. -/
def interpret (id : Nat) (args : List Chars) (environment : List (String × Chars)) (p : Process)
    (m : Machine) : Process × Machine :=
  let path := pathFrom environment p.dir m
  let name := args.headD []
  let bindings := firstBindings environment path (parentNumber p.parent)
  let start : Scope := { name, bindings, process := processNumber id }
  let own : Process :=
    { parent := p.parent, scope := start, dir := p.dir, path, frames := [],
      fds := p.fds.filter (·.1 < 10), traps := p.traps.filter (·.2 = []), signals := p.signals,
      loading := loadingTurns, mask := p.mask, limits := p.limits, readLine := 1 }
  let failing (message : String) : Process :=
    { own with frames := [.abort (messageOf own message) 2] }
  let running (r : Request) (t : CommandText) (own : Process) (m : Machine) : Process × Machine :=
    let profile := if own.isInteractive then [.profile] else []
    let frames := .print "" [.text r.shown] 0 false :: profile ++ [.commands t, .leave]
    let options := own.scope.options.filter (· ≠ 'm')
    let ready := { own with frames, scope := { own.scope with options } }
    (ready, if r.controlsJobs then m.warn own noTerminal else m)
  if !own.allows own.freeFd then ({ own with frames := [.abort (loaderMessage name) 127] }, m)
  else
    match request args.tail start with
    | .error message => (failing message, m)
    | .ok r =>
      let own := { own with scope := r.scope }
      match r.task with
      | .argument text => running r { text, isLast := true } own m
      | .input => running r { text := [], source := own.fd? 0, isOwn := true } own m
      | .file path =>
        match openScript path own m with
        | (.error e, m) => (failing e, m)
        | (.ok t, m) =>
          let scope := { own.scope with name := path }
          running r { t with isOwn := true } { own with scope } m

/-- How long an argument or a variable of the environment can be at most, with what ends it. -/
def maxArgument : Nat := 131072

/-- How much room there is for all of them. -/
def maxArguments : Nat := 2097152

/-- Whether arguments and variables are too long to be passed on. Each takes its length, what ends
it and the room for its address. -/
def areTooLong (args : List Chars) (environment : List (String × Chars)) : Bool :=
  let sizes := args.map (·.length + 1) ++
    environment.map fun (name, value) => name.utf8ByteSize + value.length + 2
  sizes.any (maxArgument < ·) || decide (maxArguments < sizes.foldl (fun n size => n + size + 8) 0)

/-- A process becomes a program that is called by a name with arguments. -/
def exec (id : Nat) (program : String) (name : Chars) (args : List Chars)
    (environment : List (String × Chars)) (p : Process) (m : Machine) :
    Except OsError (Process × Machine) :=
  match invocation maxInterpreters m p.dir program name args with
  | .error e => .error e
  | .ok args =>
    if areTooLong args environment then .error .argumentsTooLong
    else .ok (interpret id args environment p m)

end Machine
end LineShell
